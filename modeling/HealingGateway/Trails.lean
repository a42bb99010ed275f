import HealingGateway.Completions
import HealingGateway.Journals
import Mathlib.Data.List.Induction

namespace HealingGateway.Router

open Programs Programs.Prog Numerals JsonText

def Fact.dispatched? : Fact → Option ℕ
  | answered i _ _ => some i
  | cancelled i _ => some i
  | lost i _ => some i
  | _ => none

/-- The positions that were called, in order. -/
def dispatches (facts : List Fact) : List ℕ := facts.filterMap Fact.dispatched?

def Fact.result? : Fact → Option ProviderResult
  | answered _ _ result => some result
  | _ => none

/-- What the calls answered, in order. -/
def results (facts : List Fact) : List ProviderResult := facts.filterMap Fact.result?

section Lists

variable (i : ℕ) (provider : String) (facts : List Fact)

@[simp] theorem dispatches_nil : dispatches [] = [] := rfl

@[simp] theorem dispatches_append (facts' : List Fact) :
    dispatches (facts ++ facts') = dispatches facts ++ dispatches facts' := List.filterMap_append

@[simp] theorem dispatches_scanned (admits : Bool) :
    dispatches (.scanned i provider admits :: facts) = dispatches facts := rfl

@[simp] theorem dispatches_asked (admits : Bool) (reason : String) :
    dispatches (.asked i provider admits reason :: facts) = dispatches facts := rfl

@[simp] theorem dispatches_answered (result : ProviderResult) :
    dispatches (.answered i provider result :: facts) = i :: dispatches facts := rfl

@[simp] theorem dispatches_lost :
    dispatches (.lost i provider :: facts) = i :: dispatches facts := rfl

@[simp] theorem dispatches_raced (j : ℕ) (raced : Raced) :
    dispatches (.raced i j raced :: facts) = dispatches facts := rfl

@[simp] theorem dispatches_loserFact (loser : Option ProviderResult) :
    dispatches (loserFact i provider loser :: facts) = i :: dispatches facts := by
  cases loser <;> rfl

@[simp] theorem results_nil : results [] = [] := rfl

@[simp] theorem results_append (facts' : List Fact) :
    results (facts ++ facts') = results facts ++ results facts' := List.filterMap_append

@[simp] theorem results_scanned (admits : Bool) :
    results (.scanned i provider admits :: facts) = results facts := rfl

@[simp] theorem results_asked (admits : Bool) (reason : String) :
    results (.asked i provider admits reason :: facts) = results facts := rfl

@[simp] theorem results_answered (result : ProviderResult) :
    results (.answered i provider result :: facts) = result :: results facts := rfl

@[simp] theorem results_cancelled : results (.cancelled i provider :: facts) = results facts := rfl

@[simp] theorem results_lost : results (.lost i provider :: facts) = results facts := rfl

@[simp] theorem results_raced (j : ℕ) (raced : Raced) :
    results (.raced i j raced :: facts) = results facts := rfl

end Lists

theorem mem_results {facts : List Fact} {result : ProviderResult} :
    result ∈ results facts ↔ ∃ i provider, .answered i provider result ∈ facts := by
  rw [results, List.mem_filterMap]
  constructor
  · rintro ⟨fact, hmem, hresult⟩
    cases fact with
    | answered i provider _ =>
      obtain rfl := Option.some.inj hresult
      exact ⟨i, provider, hmem⟩
    | scanned | asked | raced | cancelled | lost => cases hresult
  · rintro ⟨i, provider, hmem⟩
    exact ⟨_, hmem, rfl⟩

theorem isFinal_eq_true {result : ProviderResult} :
    isFinal result = true ↔ result.outcome.isOk = true ∨ result.outcome.trippable = false := by
  simp [isFinal]

theorem isFinal_eq_false {result : ProviderResult} :
    isFinal result = false ↔ result.outcome.trippable = true := by
  have hok := Outcome.trippable_of_isOk (o := result.outcome)
  cases htrip : result.outcome.trippable
  · simp [isFinal, htrip]
  · cases hisOk : result.outcome.isOk
    · simp [isFinal, htrip, hisOk]
    · rw [hok hisOk] at htrip
      cases htrip

theorem value_ne_skippedOutcome (o : Outcome) : o.value ≠ skippedOutcome := by
  cases o <;> decide

theorem lastFailure_trailOf (ended : Option ProviderResult) (facts : List Fact) :
    RouteOutcome.lastFailure ⟨ended, trailOf facts⟩ = (results facts).getLast?.map logged := by
  rw [RouteOutcome.lastFailure]
  induction facts using List.reverseRecOn with
  | nil => rfl
  | append_singleton facts fact ih =>
    rw [trailOf_append, results_append, List.reverse_append, List.find?_append]
    cases fact with
    | scanned i provider admits => simpa using ih
    | cancelled i provider | lost i provider | raced i j raced => simpa using ih
    | answered i provider result =>
      have hvalue : (logged result).outcome ≠ skippedOutcome := value_ne_skippedOutcome _
      simp [hvalue]
    | asked i provider admits reason =>
      cases admits with
      | true => simpa using ih
      | false => simpa [skipped] using ih

theorem exhaustedStatus_trailOf (ended : Option ProviderResult) (facts : List Fact) :
    Main.exhaustedStatus ⟨ended, trailOf facts⟩ =
      match (results facts).getLast? with
      | none => .ok 503
      | some last => Main.statusOf last.outcome := by
  rw [Main.exhaustedStatus, lastFailure_trailOf]
  cases (results facts).getLast? with
  | none => rfl
  | some last => simp [logged]

theorem statusOf_of_trippable {o : Outcome} (h : o.trippable = true) :
    ∃ status, Main.statusOf o = .ok status ∧ (status = 429 ∨ status = 502 ∨ status = 504) := by
  cases o with
  | rateLimit => exact ⟨429, rfl, by decide⟩
  | timeout => exact ⟨504, rfl, by decide⟩
  | serverError | auth | modelNotFound => exact ⟨502, rfl, by decide⟩
  | ok | contentFilter | badRequest => cases h

def Fact.Failed : Fact → Prop
  | answered _ _ result => isFinal result = false
  | cancelled .. | lost .. => False
  | _ => True

instance : DecidablePred Fact.Failed
  | .answered _ _ result => inferInstanceAs (Decidable (isFinal result = false))
  | .cancelled .. | .lost .. => inferInstanceAs (Decidable False)
  | .scanned .. | .asked .. | .raced .. => inferInstanceAs (Decidable True)

theorem answered_of_failed {facts : List Fact} (h : ∀ fact ∈ facts, fact.Failed) {i : ℕ}
    (hi : i ∈ dispatches facts) :
    ∃ provider result, .answered i provider result ∈ facts ∧ result.outcome.trippable = true := by
  obtain ⟨fact, hmem, hfact⟩ := List.mem_filterMap.mp hi
  have hfailed := h fact hmem
  cases fact with
  | answered _ provider result =>
    obtain rfl := Option.some.inj hfact
    exact ⟨provider, result, hmem, isFinal_eq_false.mp hfailed⟩
  | cancelled | lost => cases hfailed
  | scanned | asked | raced => cases hfact

theorem results_eq_nil_iff {facts : List Fact} (h : ∀ fact ∈ facts, fact.Failed) :
    results facts = [] ↔ dispatches facts = [] := by
  constructor
  · intro hnil
    refine List.eq_nil_iff_forall_not_mem.mpr (fun i hi ↦ ?_)
    obtain ⟨provider, result, hmem, -⟩ := answered_of_failed h hi
    have hresult := mem_results.mpr ⟨i, provider, hmem⟩
    rw [hnil] at hresult
    cases hresult
  · intro hnil
    refine List.eq_nil_iff_forall_not_mem.mpr (fun result hresult ↦ ?_)
    obtain ⟨i, provider, hmem⟩ := mem_results.mp hresult
    have hi : i ∈ dispatches facts := List.mem_filterMap.mpr ⟨_, hmem, rfl⟩
    rw [hnil] at hi
    cases hi

theorem status_of_failed {facts : List Fact} (h : ∀ fact ∈ facts, fact.Failed)
    (ended : Option ProviderResult) :
    ∃ status, Main.exhaustedStatus ⟨ended, trailOf facts⟩ = .ok status ∧ 400 ≤ status ∧
      (status = 503 ↔ dispatches facts = []) := by
  rw [exhaustedStatus_trailOf]
  cases hlast : (results facts).getLast? with
  | none =>
    refine ⟨503, rfl, by decide, iff_of_true rfl ((results_eq_nil_iff h).mp ?_)⟩
    exact List.getLast?_eq_none_iff.mp hlast
  | some last =>
    obtain ⟨i, provider, hmem⟩ := mem_results.mp (List.mem_of_getLast? hlast)
    have htrip : last.outcome.trippable = true := isFinal_eq_false.mp (h _ hmem)
    obtain ⟨status, hok, hstatus⟩ := statusOf_of_trippable htrip
    refine ⟨status, hok, by omega, iff_of_false (by omega) (fun hnil ↦ ?_)⟩
    rw [(results_eq_nil_iff h).mpr hnil] at hlast
    cases hlast

end HealingGateway.Router
