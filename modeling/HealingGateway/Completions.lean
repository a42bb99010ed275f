import HealingGateway.Idempotency
import HealingGateway.Library.Texts
import HealingGateway.Queue
import HealingGateway.Router
import HealingGateway.Schemas

namespace HealingGateway.Main

open Programs Programs.Prog JsonText Schemas Router

structure Response where
  status : ℤ
  body : Json
  replayed : Bool := false

def listing (names : List String) : String :=
  "[" ++ ", ".intercalate (names.map Texts.repr) ++ "]"

def sortedNames {α : Type} (named : List (String × α)) : List String :=
  (named.map Prod.fst).mergeSort (fun a b ↦ !decide (b < a))

def header (name : String) : Option String → Except Exn String
  | none => .error (.http 422 name)
  | some text => if text = "" then .error (.http 422 name) else .ok text

def requireMetadata (config : GatewayConfig)
    (xTenantId xFeature xRequestId xRequestClass : Option String) : Except Exn RequestMetadata := do
  let tenant ← header "X-Tenant-Id" xTenantId
  let feature ← header "X-Feature" xFeature
  let requestId ← header "X-Request-Id" xRequestId
  let requestClass := (xRequestClass.filter (· ≠ "")).getD config.defaultClass
  if (config.classes.lookup requestClass).isSome then
    return { tenant, feature, requestId, requestClass }
  else throw (.http 400 ("unknown request class " ++ Texts.repr requestClass ++ "; known: " ++
    listing (sortedNames config.classes)))

def statusByOutcome : Outcome → Option ℤ
  | .rateLimit => some 429
  | .timeout => some 504
  | .serverError => some 502
  | .auth => some 502
  | .modelNotFound => some 502
  | .contentFilter => some 400
  | .badRequest => some 400
  | .ok => none

def statusOf (o : Outcome) : Except Exn ℤ :=
  match statusByOutcome o with
  | some status => .ok status
  | none => .error (.keyError o.value)

/-- The providers to try, or why there are none. -/
def resolveLadder (env : Environ) (config : GatewayConfig) (requestClass : String)
    (override : Option String) : Except Exn (List String) :=
  match override.filter (· ≠ "") with
  | some name =>
    match config.providers.lookup name with
    | none => .error (.http 400 ("unknown provider " ++ Texts.repr name ++ "; known: " ++
        listing (sortedNames config.providers)))
    | some p =>
      if p.available env then .ok [name]
      else .error (.http 503 ("provider " ++ Texts.repr name ++ " is disabled: " ++
        p.apiKeyEnv.getD "None" ++ " is unset"))
  | none =>
    match config.ladderFor env requestClass with
    | [] => .error (.http 503 ("no available provider for class " ++ Texts.repr requestClass ++
        "; every provider in its ladder is missing an API key"))
    | ladder => .ok ladder

def exhaustedStatus (routed : RouteOutcome) : Except Exn ℤ :=
  match routed.lastFailure with
  | none => .ok 503
  | some last =>
    match Outcome.ofValue? last.outcome with
    | none => .error (.valueError last.outcome)
    | some outcome => statusOf outcome

def trail (metadata : RequestMetadata) (attempts : List ProviderCallLog) : Json :=
  .obj [("request_id", .str metadata.requestId), ("request_class", .str metadata.requestClass),
    ("attempts", .arr (attempts.map ProviderCallLog.asDict))]

def exhausted (metadata : RequestMetadata) (attempts : List ProviderCallLog)
    (last : Option ProviderCallLog) : Json :=
  .obj [("error", .obj [
      ("message", .str "every provider in the ladder failed or was unavailable"),
      ("type", .str ((last.map ProviderCallLog.outcome).getD "no_provider_available")),
      ("ladder", .arr (attempts.map (fun a ↦ .str a.provider)))]),
    ("x_gateway", trail metadata attempts)]

def rejected (metadata : RequestMetadata) (attempts : List ProviderCallLog)
    (result : ProviderResult) : Json :=
  .obj [("error", .obj [
      ("message", .str ((result.error.filter (· ≠ "")).getD result.outcome.value)),
      ("type", .str result.outcome.value),
      ("provider", .str result.provider)]),
    ("x_gateway", trail metadata attempts)]

def accept (config : GatewayConfig) (metadata : RequestMetadata)
    (request : ChatCompletionRequest) : Gateway (ℤ × Json) := do
  let jobId ← Queue.enqueue config metadata request.toProviderKwargs
  return (202, .obj [("job_id", .str jobId), ("status", .str Status.queued.value),
    ("poll", .str ("/v1/jobs/" ++ jobId)),
    ("x_gateway", .obj [("request_id", .str metadata.requestId),
      ("request_class", .str metadata.requestClass)])])

/-- A chat completion as it arrives, with its headers read. -/
structure ChatRequest where
  body : ChatCompletionRequest
  metadata : RequestMetadata
  idempotencyKey : Option String := none
  provider : Option String := none

section Serve

variable (env : Environ) (config : GatewayConfig) (schedule : RaceSchedule) (r : ChatRequest)

def defers : Except Exn Bool :=
  match r.provider with
  | some _ => .ok false
  | none =>
    match config.classes.lookup r.metadata.requestClass with
    | none => .error (.keyError r.metadata.requestClass)
    | some c => .ok c.deferrable

/-- What the walk came to, as a status and a body. -/
def answer (routed : RouteOutcome) : Gateway (ℤ × Json) :=
  match routed.result with
  | none => do
    let status ← ofExcept (exhaustedStatus routed)
    return (status, exhausted r.metadata routed.attempts routed.lastFailure)
  | some result =>
    if result.outcome.isOk then do
      let response ← toOpenaiResponse result r.metadata routed.attempts
      return (200, response.asJson)
    else do
      let status ← ofExcept (statusOf result.outcome)
      return (status, rejected r.metadata routed.attempts result)

def serve : Gateway (ℤ × Json) := do
  let deferred ← ofExcept (defers config r)
  match deferred with
  | true => accept config r.metadata r.body
  | false => do
    let ladder ← ofExcept (resolveLadder env config r.metadata.requestClass r.provider)
    let routed ← route env config r.metadata r.body.toProviderKwargs ladder schedule
    answer r routed

def conflict : Exn := .http 409 "a request with this Idempotency-Key is already in flight"

def replay (stored : String) : Except Exn Response :=
  if stored = Idempotency.inFlight then .error conflict
  else
    match loads stored with
    | none => .error (.valueError stored)
    | some envelope =>
      match envelope.get? "status" with
      | some (.int status) =>
        match envelope.get? "body" with
        | some body => .ok { status, body, replayed := true }
        | none => .error (.keyError "body")
      | some _ => .error (.typeError "status")
      | none => .error (.keyError "status")

/-- The key a caller chose, unless it is empty. -/
def ChatRequest.key : Option String := r.idempotencyKey.filter (· ≠ "")

def underClaim (tenant k : String) (work : Gateway (ℤ × Json)) : Gateway Response := do
  let served ← tryExcept (fun _ ↦ true) work (fun e ↦ do
    Idempotency.release tenant k
    throw e)
  if served.1 < 400 then
    Idempotency.store tenant k served.1 served.2 config.queue.idempotencyTtlS
  else Idempotency.release tenant k
  return { status := served.1, body := served.2 }

def serveOwned (k : String) : Gateway Response :=
  underClaim config r.metadata.tenant k (serve env config schedule r)

def chatCompletions : Gateway Response :=
  if r.body.stream then throw (.http 400 "streaming is not supported")
  else
    match r.key with
    | none => do
      let served ← serve env config schedule r
      return { status := served.1, body := served.2 }
    | some k => do
      let stored ← Idempotency.claim r.metadata.tenant k config.queue.idempotencyTtlS
      match stored with
      | some stored => ofExcept (replay stored)
      | none => serveOwned env config schedule r k

end Serve

end HealingGateway.Main
