import HealingGateway.Library.Expansions
import HealingGateway.Router

namespace HealingGateway.Router

open Programs Programs.Prog Numerals JsonText

/-- How the start of a hedged walk came out: the first call answered inside the budget, or
two calls raced. A loser without a result was cancelled. -/
inductive Raced
  | alone (result : ProviderResult)
  | settled (wonByHedge : Bool) (result : ProviderResult) (loser : Option ProviderResult)

/-- The steps of a walk over a ladder. -/
inductive Move
  | scan (i : ℕ) (provider : String)
  | allows (i : ℕ) (provider : String)
  | attempt (i : ℕ) (provider : String)
  | race (i : ℕ) (first : String) (j : ℕ) (second : String)
  | failover (i : ℕ) (provider : String) (result : ProviderResult)

@[reducible] def Move.Answer : Move → Type
  | scan .. => Bool × String
  | allows .. => Bool × String
  | attempt .. => ProviderResult
  | race .. => Raced
  | failover .. => Unit

abbrev Itinerary := Plan Move Move.Answer Exn

section Units

variable (env : Environ) (config : GatewayConfig) (metadata : RequestMetadata)
  (payload : List (String × Json)) (ladder : List String) (schedule : RaceSchedule)

def loserResult : Option (Except Exn ProviderResult) → Except Exn (Option ProviderResult)
  | none => .ok none
  | some ended => ended.map some

def settle (primary hedge : Gateway ProviderResult) : Gateway Raced := do
  metric (.hedge metadata.requestClass .fired)
  let settled ← firstUsable schedule primary hedge
  metric (.hedge metadata.requestClass
    (if settled.wonByHedge && isFinal settled.result then .wonByHedge else .wasted))
  let loser ← ofExcept (loserResult settled.loser)
  return .settled settled.wonByHedge settled.result loser

def race (first second : String) : Gateway Raced := do
  let primary ← (attempt env config metadata payload first).advance schedule.beforeHedge
  match primary.ended? with
  | some ended => do
    let result ← ofExcept ended
    return .alone result
  | none => settle metadata schedule primary (attempt env config metadata payload second)

/-- How each step is carried out. -/
def unit : (m : Move) → Gateway m.Answer
  | .scan _ provider => Breaker.allows config provider none
  | .allows _ provider => Breaker.allows config provider none
  | .attempt _ provider => attempt env config metadata payload provider
  | .race _ first _ second => race env config metadata payload schedule first second
  | .failover i provider result => countFailover provider ladder i metadata result

end Units

namespace Itinerary

def admissible : (limit i : ℕ) → List String → Itinerary (List (ℕ × String))
  | 0, _, _ => return []
  | _ + 1, _, [] => return []
  | limit + 1, i, provider :: ladder => do
    let answer ← Plan.perform (Move.scan i provider)
    match answer.1 with
    | true => do
      let others ← admissible limit (i + 1) ladder
      return (i, provider) :: others
    | false => admissible (limit + 1) (i + 1) ladder

def finish (i : ℕ) (provider : String) (result : ProviderResult) (others : List ProviderCallLog) :
    Itinerary (RouteOutcome × ℕ) :=
  if isFinal result then return (⟨some result, logged result :: others⟩, 0)
  else do
    Plan.perform (Move.failover i provider result)
    return (⟨none, logged result :: others⟩, i + 1)

def land (i : ℕ) (first : String) (j : ℕ) : Raced → Itinerary (RouteOutcome × ℕ)
  | .alone result => finish i first result []
  | .settled _ result loser => finish j result.provider result (loser.toList.map logged)

def hedgedStart (ladder : List String) : Itinerary (RouteOutcome × ℕ) := do
  let admitted ← admissible 2 0 ladder
  match admitted with
  | (i, first) :: (j, second) :: _ => do
    let raced ← Plan.perform (Move.race i first j second)
    land i first j raced
  | _ => return (⟨none, []⟩, 0)

def walk : (i : ℕ) → List String → List ProviderCallLog → Itinerary RouteOutcome
  | _, [], attempts => return ⟨none, attempts⟩
  | i, provider :: rest, attempts => do
    let answer ← Plan.perform (Move.allows i provider)
    match answer with
    | (false, reason) => walk (i + 1) rest (attempts ++ [skipped provider reason])
    | (true, _) => do
      let result ← Plan.perform (Move.attempt i provider)
      if isFinal result then return ⟨some result, attempts ++ [logged result]⟩
      else do
        Plan.perform (Move.failover i provider result)
        walk (i + 1) rest (attempts ++ [logged result])

def resume (ladder : List String) (raced : RouteOutcome × ℕ) : Itinerary RouteOutcome :=
  match raced.1.result with
  | some result => return ⟨some result, raced.1.attempts⟩
  | none => walk raced.2 (ladder.drop raced.2) raced.1.attempts

def route (hedges : Bool) (ladder : List String) : Itinerary RouteOutcome :=
  if hedges then do
    let raced ← hedgedStart ladder
    resume ladder raced
  else walk 0 ladder []

end Itinerary

section Expand

variable {env : Environ} {config : GatewayConfig} {metadata : RequestMetadata}
  {payload : List (String × Json)} {ladder : List String} {schedule : RaceSchedule}

theorem expand_admissible (limit i : ℕ) (rungs : List String) :
    (Itinerary.admissible limit i rungs).expand (unit env config metadata payload ladder schedule) =
      admissible config limit i rungs := by
  induction rungs generalizing limit i with
  | nil => cases limit <;> rfl
  | cons provider rungs ih =>
    cases limit with
    | zero => rfl
    | succ limit =>
      rw [Itinerary.admissible, admissible, expand_bind, expand_perform]
      refine congrArg _ (funext fun answer ↦ ?_)
      obtain ⟨admits, reason⟩ := answer
      cases admits with
      | true =>
        simp only [expand_bind, ih]
        rfl
      | false => exact ih (limit + 1) (i + 1)

theorem expand_walk (i : ℕ) (rungs : List String) (attempts : List ProviderCallLog) :
    (Itinerary.walk i rungs attempts).expand (unit env config metadata payload ladder schedule) =
      walk env config metadata payload ladder i rungs attempts := by
  induction rungs generalizing i attempts with
  | nil => rfl
  | cons provider rungs ih =>
    rw [Itinerary.walk, walk, expand_bind, expand_perform]
    refine congrArg _ (funext fun answer ↦ ?_)
    obtain ⟨admits, reason⟩ := answer
    cases admits with
    | false => exact ih _ _
    | true =>
      simp only [expand_bind, expand_perform]
      refine congrArg _ (funext fun result ↦ ?_)
      split
      · rfl
      · simp only [expand_bind, expand_perform, ih]
        rfl

theorem loserLog_bind {α : Type} (loser : Option (Except Exn ProviderResult))
    (f : List ProviderCallLog → Gateway α) :
    (ofExcept (loserLog loser) >>= f) =
      (ofExcept (loserResult loser) >>= fun loser ↦ f (loser.toList.map logged)) := by
  rcases loser with _ | e | result
  all_goals rfl

theorem expand_finish (i : ℕ) (provider : String) (result : ProviderResult)
    (others : List ProviderCallLog) :
    (Itinerary.finish i provider result others).expand
        (unit env config metadata payload ladder schedule) =
      if isFinal result then done (⟨some result, logged result :: others⟩, 0)
      else do
        countFailover provider ladder i metadata result
        return (⟨none, logged result :: others⟩, i + 1) := by
  unfold Itinerary.finish
  split
  · rfl
  · rw [expand_bind, expand_perform]
    rfl

theorem settle_bind (primary hedge : Gateway ProviderResult) (j : ℕ)
    {f : Raced → Gateway (RouteOutcome × ℕ)}
    (hf : ∀ won result loser, f (.settled won result loser) =
      (Itinerary.finish j result.provider result (loser.toList.map logged)).expand
        (unit env config metadata payload ladder schedule)) :
    settle metadata schedule primary hedge >>= f =
      hedged metadata ladder schedule primary hedge j := by
  simp only [settle, hedged, LawfulMonad.bind_assoc, loserLog_bind, pure_eq, done_bind, hf,
    expand_finish]

theorem expand_hedgedStart :
    (Itinerary.hedgedStart ladder).expand (unit env config metadata payload ladder schedule) =
      hedgedStart env config metadata payload ladder schedule := by
  rw [Itinerary.hedgedStart, hedgedStart, expand_bind, expand_admissible]
  refine congrArg _ (funext fun admitted ↦ ?_)
  rcases admitted with _ | ⟨⟨i, first⟩, _ | ⟨⟨j, second⟩, others⟩⟩
  · rfl
  · rfl
  · rw [expand_bind, expand_perform]
    simp only [unit, race, LawfulMonad.bind_assoc]
    refine congrArg _ (funext fun primary ↦ ?_)
    cases primary.ended? with
    | some ended =>
      simp only [unhedged, LawfulMonad.bind_assoc]
      refine congrArg _ (funext fun result ↦ ?_)
      simp only [pure_eq, done_bind, Itinerary.land, expand_finish]
    | none => exact settle_bind _ _ j (fun _ _ _ ↦ rfl)

/-- A walk is its itinerary with every step carried out. -/
theorem expand_route (c : ClassConfig) (hclass : config.classes.lookup metadata.requestClass = some c) :
    (Itinerary.route (hedges c) ladder).expand (unit env config metadata payload ladder schedule) =
      route env config metadata payload ladder schedule := by
  rw [route, hclass, orRaise_some, done_bind, Itinerary.route]
  split
  · rw [expand_bind, expand_hedgedStart]
    refine congrArg _ (funext fun raced ↦ ?_)
    rw [Itinerary.resume, resume]
    cases raced.1.result with
    | some result => rfl
    | none => exact expand_walk _ _ _
  · exact expand_walk _ _ _

end Expand

end HealingGateway.Router
