import HealingGateway.FailOpen
import HealingGateway.JobApi
import HealingGateway.KeyedRequests

namespace HealingGateway.Main

open Programs Programs.Prog JsonText

/-- What its dependencies and its handler do with a request, and the path of the route it
matched. Only the middleware counts responses. -/
structure Endpoint where
  path : Option String
  handle : Gateway Response
  uncounted : handle.Only (fun c ↦ c.counts = false)

def isHttp : Exn → Bool
  | .http .. => true
  | _ => false

def httpResponse : Exn → Response
  | .http status text => { status, body := .obj [("detail", .str text)] }
  | _ => { status := 500, body := .null }

def callNext (handle : Gateway Response) : Gateway Response :=
  tryExcept isHttp handle (fun e ↦ return httpResponse e)

def label (path : Option String) : String := path.getD "unmatched"

/-- Count what the caller was actually told. -/
def countResponses (e : Endpoint) : Gateway Response := do
  let response ← callNext e.handle
  metric (.response (label e.path) (Numerals.intString response.status))
  return response

def internalServerError : Response := { status := 500, body := .str "Internal Server Error" }

def serverErrors (app : Gateway Response) : Gateway Response :=
  tryExcept Exn.isException app (fun _ ↦ return internalServerError)

def answerTo (e : Endpoint) : Gateway Response := serverErrors (countResponses e)

/-- The labels under which responses are counted. -/
def counted (events : List (Event Cmd Reply)) : List (String × String) :=
  events.filterMap (fun e ↦
    match e.cmd with
    | .metric (.response route status) => some (route, status)
    | _ => none)

/-- Every answer to the caller is counted once, with its status. -/
def CountedOnce {σ : Type} (e : Endpoint) (h : Handler Cmd Reply σ) (s : σ) : Prop :=
  counted ((answerTo e).trace h s) =
    match ((answerTo e).run h s).1 with
    | .ok response => [(label e.path, Numerals.intString response.status)]
    | .error _ => []

section Counts

variable {σ : Type} {h : Handler Cmd Reply σ} {s s' : σ}

theorem counted_uncounted {p : Gateway Response} (hp : p.Only (fun c ↦ c.counts = false)) :
    counted (p.trace h s) = [] := by
  refine List.filterMap_eq_nil_iff.mpr (fun e he ↦ ?_)
  have hcounts := hp.trace h s e he
  split
  · next hcmd =>
    rw [hcmd] at hcounts
    cases hcounts
  · rfl

variable {e : Endpoint}

theorem run_callNext_ok {response : Response} (hrun : e.handle.run h s = (.ok response, s')) :
    (callNext e.handle).run h s = (.ok response, s') := by
  rw [callNext, run_tryExcept, hrun]

theorem run_callNext_http {x : Exn} (hrun : e.handle.run h s = (.error x, s')) (hx : isHttp x = true) :
    (callNext e.handle).run h s = (.ok (httpResponse x), s') := by
  simp only [callNext, run_tryExcept, hrun, hx, if_true]
  rfl

theorem run_callNext_raised {x : Exn} (hrun : e.handle.run h s = (.error x, s')) (hx : isHttp x = false) :
    (callNext e.handle).run h s = (.error x, s') := by
  simp only [callNext, run_tryExcept, hrun, hx, Bool.false_eq_true, if_false]

theorem only_callNext : (callNext e.handle).Only (fun c ↦ c.counts = false) :=
  e.uncounted.tryExcept (fun _ ↦ trivial)

theorem countedOnce_of_answered {response : Response}
    (hrun : (callNext e.handle).run h s = (.ok response, s')) : CountedOnce e h s := by
  let m := Metric.response (label e.path) (Numerals.intString response.status)
  have hcount : (countResponses e).run h s = (.ok response, (h (.metric m) s').2) := by
    rw [countResponses, run_bind_ok h hrun]
    rfl
  have htrace : counted ((countResponses e).trace h s) =
      [(label e.path, Numerals.intString response.status)] := by
    rw [countResponses, trace_bind_ok h hrun, counted, List.filterMap_append, ← counted,
      counted_uncounted only_callNext]
    rfl
  have hanswer : ((answerTo e).run h s).1 = .ok response := by
    rw [answerTo, serverErrors, run_tryExcept, hcount]
  rw [CountedOnce, hanswer, answerTo, serverErrors, trace_tryExcept_ok h hcount, htrace]

theorem counted_of_raised {x : Exn} (hrun : (callNext e.handle).run h s = (.error x, s')) :
    (countResponses e).run h s = (.error x, s') ∧ counted ((answerTo e).trace h s) = [] := by
  have hcount : (countResponses e).run h s = (.error x, s') := by
    rw [countResponses, run_bind_error h hrun]
  refine ⟨hcount, ?_⟩
  rw [answerTo, serverErrors, trace_tryExcept_error h hcount, countResponses, trace_bind_error h hrun,
    counted, List.filterMap_append, ← counted, counted_uncounted only_callNext]
  split
  all_goals rfl

/-- The answer to a request is counted exactly where nothing but an `HTTPException` escapes its
dependencies and its handler. -/
theorem countedOnce_iff (e : Endpoint) (h : Handler Cmd Reply σ) (s : σ) :
    CountedOnce e h s ↔
      ∀ x, (e.handle.run h s).1 = .error x → x.isException = true → isHttp x = true := by
  rcases hrun : e.handle.run h s with ⟨x | response, s'⟩
  · cases hx : isHttp x with
    | true =>
      refine iff_of_true (countedOnce_of_answered (run_callNext_http hrun hx)) (fun x' hx' _ ↦ ?_)
      cases hx'
      exact hx
    | false =>
      obtain ⟨hcount, hcounted⟩ := counted_of_raised (run_callNext_raised hrun hx)
      rw [CountedOnce, hcounted, answerTo, serverErrors, run_tryExcept, hcount]
      cases hcaught : x.isException with
      | true =>
        refine iff_of_false ?_ (fun hall ↦ ?_)
        · simp [hcaught]
        · have hhttp := hall x rfl hcaught
          rw [hx] at hhttp
          cases hhttp
      | false =>
        refine iff_of_true ?_ (fun x' hx' hcaught' ↦ ?_)
        · simp [hcaught]
        · cases hx'
          rw [hcaught] at hcaught'
          cases hcaught'
  · refine iff_of_true (countedOnce_of_answered (run_callNext_ok hrun)) (fun x hx ↦ ?_)
    cases hx

end Counts

section Endpoints

/-- The headers the routes read. -/
structure Headers where
  xTenantId : Option String := none
  xFeature : Option String := none
  xRequestId : Option String := none
  xRequestClass : Option String := none
  idempotencyKey : Option String := none
  xAdminSecret : Option String := none

def isAscii (s : String) : Bool := s.toList.all (·.toNat < 128)

/-- `secrets.compare_digest` of two texts. -/
def compareDigest (a b : String) : Except Exn Bool :=
  if isAscii a && isAscii b then .ok (a = b)
  else .error (.typeError "comparing strings with non-ASCII characters is not supported")

theorem compareDigest_eq_ok {a b : String} {equal : Bool} (h : compareDigest a b = .ok equal) :
    equal = decide (a = b) := by
  unfold compareDigest at h
  split at h
  · exact (Except.ok.inj h).symm
  · cases h

def requireAdmin (adminSecret xAdminSecret : Option String) : Except Exn Unit :=
  match adminSecret.filter (· ≠ "") with
  | none => .error (.http 503 "admin API is disabled: ADMIN_SECRET is unset")
  | some expected =>
    match xAdminSecret.filter (· ≠ "") with
    | none => .error (.http 403 "bad or missing X-Admin-Secret")
    | some given => do
      let equal ← compareDigest given expected
      if equal then .ok () else .error (.http 403 "bad or missing X-Admin-Secret")

variable (env : Environ) (config : GatewayConfig) (schedule : Router.RaceSchedule)

def Headers.metadata (headers : Headers) : Except Exn RequestMetadata :=
  requireMetadata config headers.xTenantId headers.xFeature headers.xRequestId headers.xRequestClass

theorem uncounted_redis (c : Redis.Command) : (redis c).Only (fun c ↦ c.counts = false) := only_redis rfl

theorem uncounted_underClaim (tenant k : String) {work : Gateway (ℤ × Json)}
    (hwork : work.Only (fun c ↦ c.counts = false)) :
    (underClaim config tenant k work).Only (fun c ↦ c.counts = false) := by
  have hrelease : (Idempotency.release tenant k).Only (fun c ↦ c.counts = false) :=
    (uncounted_redis _).bind (fun _ ↦ trivial)
  refine Only.bind (hwork.tryExcept (fun e ↦ hrelease.bind (fun _ ↦ trivial))) (fun served ↦ ?_)
  dsimp only
  split
  · exact Only.bind ((uncounted_redis _).bind (fun _ ↦ trivial)) (fun _ ↦ trivial)
  · exact Only.bind hrelease (fun _ ↦ trivial)

theorem uncounted_chatCompletions (r : ChatRequest) :
    (chatCompletions env config schedule r).Only (fun c ↦ c.counts = false) := by
  have hserve : (serve env config schedule r).Only (fun c ↦ c.counts = false) :=
    serves_serve.mono (fun _ hc ↦ hc.2)
  unfold chatCompletions
  split
  · trivial
  · split
    · exact hserve.bind (fun _ ↦ trivial)
    · refine Only.bind ?_ (fun stored ↦ ?_)
      · refine Only.bind (uncounted_redis _) (fun took ↦ ?_)
        split
        · trivial
        · exact (uncounted_redis _).bind (fun _ ↦ trivial)
      · split
        · exact only_ofExcept _
        · exact uncounted_underClaim config _ _ hserve

def chatEndpoint (headers : Headers) (body : Schemas.ChatCompletionRequest) (provider : Option String) :
    Endpoint where
  path := some "/v1/chat/completions"
  handle := do
    let metadata ← ofExcept (headers.metadata config)
    chatCompletions env config schedule
      { body, metadata, idempotencyKey := headers.idempotencyKey, provider }
  uncounted := Only.bind (only_ofExcept _) (fun _ ↦ uncounted_chatCompletions env config schedule _)

theorem uncounted_get (jobId : String) : (Queue.get jobId).Only (fun c ↦ c.counts = false) := by
  refine Only.bind (uncounted_redis _) (fun raw ↦ ?_)
  split
  · trivial
  · exact Only.bind (only_ofExcept _) (fun _ ↦ trivial)

def jobEndpoint (headers : Headers) (jobId : String) : Endpoint where
  path := some "/v1/jobs/{job_id}"
  handle := do
    let metadata ← ofExcept (headers.metadata config)
    let body ← getJob jobId metadata
    return { status := 200, body }
  uncounted := by
    refine Only.bind (only_ofExcept _) (fun metadata ↦ Only.bind ?_ (fun _ ↦ trivial))
    refine Only.bind (uncounted_get jobId) (fun job ↦ ?_)
    split
    · trivial
    · split <;> trivial

theorem uncounted_getAll (ids : List String) : (Queue.getAll ids).Only (fun c ↦ c.counts = false) := by
  induction ids with
  | nil => trivial
  | cons jobId ids ih =>
    exact Only.bind (uncounted_get jobId) (fun job ↦ Only.bind ih (fun _ ↦ trivial))

def dlqEndpoint (adminSecret : Option String) (headers : Headers) : Endpoint where
  path := some "/admin/dlq"
  handle := do
    ofExcept (requireAdmin adminSecret headers.xAdminSecret)
    let body ← adminDlq
    return { status := 200, body }
  uncounted := by
    refine Only.bind (only_ofExcept _) (fun _ ↦ Only.bind ?_ (fun _ ↦ trivial))
    refine Only.bind ?_ (fun jobs ↦ trivial)
    exact Only.bind (uncounted_redis _) (fun ids ↦ Only.bind (uncounted_getAll ids) (fun _ ↦ trivial))

end Endpoints

def keyedChat : Endpoint :=
  chatEndpoint (fun _ ↦ none) .shipped ⟨0, [], 0⟩
    { xTenantId := some "acme", xFeature := some "chat", xRequestId := some "r1",
      idempotencyKey := some "order" }
    (.ofText "hi") none

/-- While Redis is gone the caller gets a 500, and nothing is counted. -/
theorem outage_not_countedOnce :
    ((answerTo keyedChat).run Router.outage (fun _ ↦ none)).1.toOption.map Response.status = some 500 ∧
      counted ((answerTo keyedChat).trace Router.outage (fun _ ↦ none)) = [] ∧
      ¬ CountedOnce keyedChat Router.outage (fun _ ↦ none) := by
  have hstatus : ((answerTo keyedChat).run Router.outage (fun _ ↦ none)).1.toOption.map Response.status =
      some 500 := by decide +kernel
  have hcounted : counted ((answerTo keyedChat).trace Router.outage (fun _ ↦ none)) = [] := by
    decide +kernel
  refine ⟨hstatus, hcounted, fun honce ↦ ?_⟩
  rw [CountedOnce, hcounted] at honce
  rcases hrun : (answerTo keyedChat).run Router.outage (fun _ ↦ none) with ⟨x | response, s'⟩
  · rw [hrun] at hstatus
    cases hstatus
  · rw [hrun] at honce
    cases honce

end HealingGateway.Main
