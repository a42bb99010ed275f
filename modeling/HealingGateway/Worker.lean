import HealingGateway.Queue
import HealingGateway.Router
import HealingGateway.Schemas

namespace HealingGateway.Worker

open Programs Programs.Prog Numerals JsonText Queue

/-- `str(error)` of a text that may be missing. -/
def errorText (error : Option String) : String := error.getD "None"

def observeDepth : Gateway Unit := do
  let depth ← Queue.depth
  metric (.queueDepth depth)

def observeAge (job : Job) (status : Status) : Gateway Unit := do
  let t : ℚ ← ask Cmd.time
  metric (.jobAge status (max 0 (t - job.createdAtMs / 1000)))

def finish (job : Job) (status : Status) (reason : String) : Gateway Unit := do
  Queue.fail job reason
  observeAge job status

def defer (config : GatewayConfig) (job : Job) : Gateway Unit := do
  let delayS ← retryDelayS 0 config.queue.baseDelayS config.queue.maxDelayS
  let _ ← Queue.retry job delayS "waiting for capacity" false

def retryOrBury (config : GatewayConfig) (job : Job) (reason : String) : Gateway Unit :=
  let triesUsed := job.attempts + 1
  if config.queue.maxAttempts ≤ triesUsed then do
    deadLetter job reason
    metric .dlq
    observeAge job .dead
  else do
    let delayS ← retryDelayS job.attempts config.queue.baseDelayS config.queue.maxDelayS
    let _ ← Queue.retry job delayS reason true
    metric (.queueRetry (intString triesUsed))

def exhausted (config : GatewayConfig) (job : Job) (routed : Router.RouteOutcome) :
    Gateway Unit :=
  match routed.lastFailure with
  | none => defer config job
  | some last => retryOrBury config job (last.outcome ++ ": " ++ errorText last.error)

def conclude (config : GatewayConfig) (job : Job) (routed : Router.RouteOutcome) : Gateway Unit :=
  match routed.result with
  | none => exhausted config job routed
  | some result =>
    if result.outcome.isOk then do
      let body ← Schemas.toOpenaiResponse result job.metadata routed.attempts
      complete job body.asJson
      observeAge job .done
    else if !result.outcome.trippable then
      finish job .failed (result.outcome.value ++ ": " ++ errorText result.error)
    else exhausted config job routed

section Tick

variable (env : Environ) (config : GatewayConfig) (schedule : Router.RaceSchedule)

def ladder (job : Job) : List String := config.ladderFor env job.metadata.requestClass

def run (job : Job) : Gateway Unit :=
  if ladder env config job = [] then
    finish job .failed ("no available provider for " ++ job.metadata.requestClass)
  else do
    let routed ← Router.route env config job.metadata job.payload (ladder env config job) schedule
    conclude config job routed

def take : Gateway (Option Job) := do
  observeDepth
  popDue

def runOnce : Gateway Bool := do
  let taken ← take
  match taken with
  | none => return false
  | some job => do
    tryFinally (run env config schedule job) observeDepth
    return true

end Tick

/-- Rounds of the loop that drains the queue, each with how its races go. -/
def drain (env : Environ) (config : GatewayConfig) : List Router.RaceSchedule → Gateway Unit
  | [] => return ()
  | schedule :: schedules => do
    let worked ← exceptException (runOnce env config schedule) (fun _ ↦ return false)
    if worked then drain env config schedules
    else do
      let slept ← ask (Cmd.sleep config.queue.pollIntervalS.toRat)
      ofExcept slept
      drain env config schedules

end HealingGateway.Worker
