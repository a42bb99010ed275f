import HealingGateway.Config
import HealingGateway.Effects
import HealingGateway.Library.JsonRoundTrip

namespace HealingGateway.Queue

open Programs Programs.Prog Numerals JsonText

def ready : String := "queue:ready"

def dlq : String := "queue:dlq"

/-- One deferred request. -/
structure Job where
  id : String
  status : Status
  metadata : RequestMetadata
  payload : List (String × Json)
  attempts : ℤ := 0
  createdAtMs : ℤ := 0
  updatedAtMs : ℤ := 0
  result : Option Json := none
  error : Option String := none

def Job.public (job : Job) : Json :=
  .obj [("job_id", .str job.id), ("status", .str job.status.value),
    ("request_class", .str job.metadata.requestClass),
    ("request_id", .str job.metadata.requestId), ("attempts", .int job.attempts),
    ("created_at_ms", .int job.createdAtMs), ("updated_at_ms", .int job.updatedAtMs),
    ("response", job.result.getD .null), ("error", optionalText job.error)]

def key (jobId : String) : String := "job:" ++ jobId

/-- `meta.model_dump_json()`. -/
def metaText (m : RequestMetadata) : String :=
  dumps (.obj [("tenant", .str m.tenant), ("feature", .str m.feature),
    ("request_id", .str m.requestId), ("request_class", .str m.requestClass)])

/-- `RequestMetadata.model_validate_json`. -/
def parseMeta (text : String) : Option RequestMetadata := do
  let j ← loads text
  some {
    tenant := ← (j.get? "tenant").bind Json.str?
    feature := ← (j.get? "feature").bind Json.str?
    requestId := ← (j.get? "request_id").bind Json.str?
    requestClass := ← (j.get? "request_class").bind Json.str? }

def parsePayload (text : String) : Option (List (String × Json)) :=
  match loads text with
  | some (.obj members) => some members
  | _ => none

def parseResult (text : String) : Option (Option Json) :=
  if text = "" then some none else (loads text).map some

def parseError (text : String) : Option (Option String) :=
  some (if text = "" then none else some text)

/-- `raw[name]`, read as a value. -/
def required {α : Type} (raw : List (String × String)) (name : String)
    (parse : String → Option α) : Except Exn α :=
  match raw.lookup name with
  | none => .error (.keyError name)
  | some text =>
    match parse text with
    | some a => .ok a
    | none => .error (.valueError text)

def readJob (raw : List (String × String)) : Except Exn Job := do
  let id ← required raw "id" some
  let status ← required raw "status" Status.ofValue?
  let metadata ← required raw "meta" parseMeta
  let payload ← required raw "payload" parsePayload
  let attempts ← required raw "attempts" parseInt
  let createdAtMs ← required raw "created_at_ms" parseInt
  let updatedAtMs ← required raw "updated_at_ms" parseInt
  let result ← required raw "result" parseResult
  let error ← required raw "error" parseError
  return { id, status, metadata, payload, attempts, createdAtMs, updatedAtMs, result, error }

/-- Full jitter: uniform over `0` to `min(base_s * 2**attempt, cap_s)`. The power is an integer
that no float holds from `2**1024` on. -/
def retryDelayS (attempt : ℤ) (baseS capS : Decimal) : Gateway ℚ :=
  if 1024 ≤ attempt then throw (.overflowError "int too large to convert to float")
  else ask (Cmd.uniform 0 (min (baseS.toRat * 2 ^ attempt) capS.toRat))

theorem only_retryDelayS {allowed : Cmd → Prop} (h : ∀ low high, allowed (.uniform low high))
    (attempt : ℤ) (baseS capS : Decimal) : (retryDelayS attempt baseS capS).Only allowed := by
  unfold retryDelayS
  split
  · trivial
  · exact only_ask (h _ _)

def newRecord (jobId : String) (metadata : RequestMetadata) (payload : List (String × Json))
    (now : ℤ) : List (String × String) :=
  [("id", jobId),
    ("status", Status.queued.value),
    ("meta", metaText metadata),
    ("payload", dumps (.obj payload)),
    ("attempts", "0"),
    ("created_at_ms", intString now),
    ("updated_at_ms", intString now),
    ("result", ""),
    ("error", "")]

def enqueueWrites (config : GatewayConfig) (jobId : String) (metadata : RequestMetadata)
    (payload : List (String × Json)) (now : ℤ) : List Redis.Write :=
  [.hset (key jobId) (newRecord jobId metadata payload now),
    .expire (key jobId) config.queue.jobTtlS,
    .zadd ready jobId now]

/-- Accept work for later, ready immediately. -/
def enqueue (config : GatewayConfig) (metadata : RequestMetadata)
    (payload : List (String × Json)) : Gateway String := do
  let now ← nowMs
  let u ← ask Cmd.uuid4
  redis (.pipeline (enqueueWrites config u.hex metadata payload now))
  return u.hex

def get (jobId : String) : Gateway (Option Job) := do
  let raw ← redis (.hgetall (key jobId))
  match raw with
  | [] => return none
  | raw => do
    let job ← ofExcept (readJob raw)
    return some job

/-- `_update`: the fields written always end with the instant. -/
def update (jobId : String) (now : ℤ) (fields : List (String × String)) : Gateway Unit :=
  redis (.write (.hset (key jobId) (fields ++ [("updated_at_ms", intString now)])))

def claim (jobId : String) (readyAtMs now : ℤ) : Gateway (Option Job) :=
  if now < readyAtMs then do
    redis (.write (.zadd ready jobId readyAtMs))
    return none
  else do
    let job ← get jobId
    match job with
    | none => return none
    | some job => do
      update jobId now [("status", Status.running.value)]
      return some job

def popDue : Gateway (Option Job) := do
  let now ← nowMs
  let popped ← redis (.zpopmin ready)
  match popped with
  | none => return none
  | some (jobId, readyAtMs) => claim jobId readyAtMs now

def retry (job : Job) (delayS : ℚ) (error : String) (count : Bool) : Gateway ℤ := do
  let now ← nowMs
  let readyAtMs := now + truncate (delayS * 1000)
  update job.id now [("status", Status.queued.value),
    ("attempts", intString (if count then job.attempts + 1 else job.attempts)), ("error", error)]
  redis (.write (.zadd ready job.id readyAtMs))
  return readyAtMs

def complete (job : Job) (result : Json) : Gateway Unit := do
  let now ← nowMs
  update job.id now [("status", Status.done.value), ("result", dumps result), ("error", "")]

def fail (job : Job) (error : String) : Gateway Unit := do
  let now ← nowMs
  update job.id now [("status", Status.failed.value), ("error", error)]

def deadLetter (job : Job) (error : String) : Gateway Unit := do
  let now ← nowMs
  update job.id now [("status", Status.dead.value), ("error", error)]
  redis (.write (.zadd dlq job.id now))

def depth : Gateway ℕ := redis (.zcard ready)

def getAll : List String → Gateway (List (Option Job))
  | [] => return []
  | jobId :: ids => do
    let job ← get jobId
    let jobs ← getAll ids
    return job :: jobs

def dead (limit : ℤ) : Gateway (List Job) := do
  let ids ← redis (.zrange dlq (limit - 1))
  let jobs ← getAll ids
  return jobs.filterMap id

end HealingGateway.Queue
