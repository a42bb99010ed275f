import HealingGateway.Breaker
import HealingGateway.Library.Turns
import HealingGateway.Providers

namespace HealingGateway.Router

open Programs Programs.Prog Numerals JsonText

def skippedOutcome : String := "skipped"

structure RouteOutcome where
  result : Option ProviderResult
  attempts : List ProviderCallLog := []

def RouteOutcome.lastFailure (routed : RouteOutcome) : Option ProviderCallLog :=
  routed.attempts.reverse.find? (fun a ↦ a.outcome ≠ skippedOutcome)

/-- Whether this result ends the walk: a success, or a failure every rung would repeat. -/
def isFinal (result : ProviderResult) : Bool := result.outcome.isOk || !result.outcome.trippable

def skipped (provider reason : String) : ProviderCallLog where
  provider
  outcome := skippedOutcome
  latencyMs := ⟨0, 0⟩
  error := some reason

def logged (result : ProviderResult) : ProviderCallLog where
  provider := result.provider
  outcome := result.outcome.value
  latencyMs := roundTenth result.latencyMs
  error := result.error

def countFailover (provider : String) (ladder : List String) (i : ℕ) (metadata : RequestMetadata)
    (result : ProviderResult) : Gateway Unit :=
  metric (.failover provider ((ladder[i + 1]?).getD "none") metadata.requestClass
    result.outcome.value)

/-- What `metrics.observe` raises where a counter refuses an amount. -/
def counted (result : ProviderResult) : Except Exn Unit :=
  if result.Billable then .ok ()
  else .error (.valueError "Counters can only be incremented by non-negative amounts.")

/-- Record the call to every store. No failure of a store reaches the caller. -/
def observe (config : GatewayConfig) (result : ProviderResult) (metadata : RequestMetadata) :
    Gateway Unit := do
  metric (.observe result metadata)
  ofExcept (counted result)
  exceptException
    (do
      Health.record config result.provider result.outcome result.latencyMs none none
      Breaker.record config result.provider result.outcome none)
    (fun _ ↦ return ())

def attempt (env : Environ) (config : GatewayConfig) (metadata : RequestMetadata)
    (payload : List (String × Json)) (provider : String) : Gateway ProviderResult := do
  let p ← orRaise (.keyError provider) (config.providers.lookup provider)
  let chaos ← Chaos.get provider
  let result ← Providers.callProvider env provider p payload chaos
  observe config result metadata
  return result

def admissible (config : GatewayConfig) : (limit i : ℕ) → List String →
    Gateway (List (ℕ × String))
  | 0, _, _ => return []
  | _ + 1, _, [] => return []
  | limit + 1, i, provider :: ladder => do
    let answer ← Breaker.allows config provider none
    match answer.1 with
    | true => do
      let others ← admissible config limit (i + 1) ladder
      return (i, provider) :: others
    | false => admissible config (limit + 1) (i + 1) ladder

/-- How the calls of a race are timed: how many commands the first rung's call issues inside
the budget, whose turn it is from then on (the primary's or not), and how many commands the
slower call still issues before the end of the faster one is noticed. -/
structure RaceSchedule where
  beforeHedge : ℕ
  turns : List Bool
  afterFirst : ℕ

/-- Who won a race and with what, and what became of the loser unless it was cancelled. -/
structure Settled where
  wonByHedge : Bool
  result : ProviderResult
  loser : Option (Except Exn ProviderResult)

def landedTogether (primary hedge : Except Exn ProviderResult) : Except Exn Settled := do
  let result ← primary
  if isFinal result then return ⟨false, result, some hedge⟩
  else do
    let result ← hedge
    return ⟨true, result, some primary⟩

/-- One call ended first. It wins if it has something worth having, and the other is
cancelled; else the other is awaited. -/
def landedFirst (firstIsHedge : Bool) (ended : Except Exn ProviderResult)
    (other : Gateway ProviderResult) : Gateway Settled := do
  let first ← ofExcept ended
  if isFinal first then return ⟨firstIsHedge, first, none⟩
  else do
    let second ← other
    return if isFinal second then ⟨!firstIsHedge, second, some (.ok first)⟩
      else ⟨firstIsHedge, first, some (.ok second)⟩

def firstUsable (schedule : RaceSchedule) (primary hedge : Gateway ProviderResult) :
    Gateway Settled := do
  let landing ← race schedule.turns primary hedge
  match landing with
  | .left ended other => do
    let rest ← other.advance schedule.afterFirst
    match rest.ended? with
    | some ended' => ofExcept (landedTogether ended ended')
    | none => landedFirst false ended rest
  | .right ended other => do
    let rest ← other.advance schedule.afterFirst
    match rest.ended? with
    | some ended' => ofExcept (landedTogether ended' ended)
    | none => landedFirst true ended rest

def loserLog : Option (Except Exn ProviderResult) → Except Exn (List ProviderCallLog)
  | none => .ok []
  | some ended => ended.map (fun result ↦ [logged result])

section Walk

variable (env : Environ) (config : GatewayConfig) (metadata : RequestMetadata)
  (payload : List (String × Json)) (ladder : List String)

def unhedged (first : String) (firstI : ℕ) (ended : Except Exn ProviderResult) :
    Gateway (RouteOutcome × ℕ) := do
  let result ← ofExcept ended
  if isFinal result then return (⟨some result, [logged result]⟩, 0)
  else do
    countFailover first ladder firstI metadata result
    return (⟨none, [logged result]⟩, firstI + 1)

def hedged (schedule : RaceSchedule) (primary hedge : Gateway ProviderResult) (secondI : ℕ) :
    Gateway (RouteOutcome × ℕ) := do
  metric (.hedge metadata.requestClass .fired)
  let settled ← firstUsable schedule primary hedge
  let served := isFinal settled.result
  metric (.hedge metadata.requestClass
    (if settled.wonByHedge && served then .wonByHedge else .wasted))
  let others ← ofExcept (loserLog settled.loser)
  if served then return (⟨some settled.result, logged settled.result :: others⟩, 0)
  else do
    countFailover settled.result.provider ladder secondI metadata settled.result
    return (⟨none, logged settled.result :: others⟩, secondI + 1)

def hedgedStart (schedule : RaceSchedule) : Gateway (RouteOutcome × ℕ) := do
  let admitted ← admissible config 2 0 ladder
  match admitted with
  | (firstI, first) :: (secondI, second) :: _ => do
    let primary ← (attempt env config metadata payload first).advance schedule.beforeHedge
    match primary.ended? with
    | some ended => unhedged metadata ladder first firstI ended
    | none =>
      hedged metadata ladder schedule primary (attempt env config metadata payload second) secondI
  | _ => return (⟨none, []⟩, 0)

def walk : (i : ℕ) → List String → List ProviderCallLog → Gateway RouteOutcome
  | _, [], attempts => return ⟨none, attempts⟩
  | i, provider :: rest, attempts => do
    let answer ← Breaker.allows config provider none
    match answer with
    | (false, reason) => walk (i + 1) rest (attempts ++ [skipped provider reason])
    | (true, _) => do
      let result ← attempt env config metadata payload provider
      if isFinal result then return ⟨some result, attempts ++ [logged result]⟩
      else do
        countFailover provider ladder i metadata result
        walk (i + 1) rest (attempts ++ [logged result])

def hedges (c : ClassConfig) : Bool := c.hedgeAfterMs.any (· ≠ 0)

def resume (raced : RouteOutcome × ℕ) : Gateway RouteOutcome :=
  match raced.1.result with
  | some result => return ⟨some result, raced.1.attempts⟩
  | none => walk env config metadata payload ladder raced.2 (ladder.drop raced.2) raced.1.attempts

/-- Walk the ladder until something answers. -/
def route (schedule : RaceSchedule) : Gateway RouteOutcome := do
  let c ← orRaise (.keyError metadata.requestClass) (config.classes.lookup metadata.requestClass)
  if hedges c then do
    let raced ← hedgedStart env config metadata payload ladder schedule
    resume env config metadata payload ladder raced
  else walk env config metadata payload ladder 0 ladder []

end Walk

end HealingGateway.Router
