import Mathlib.Data.List.Induction

namespace Budgets

variable {V : Type}

/-- How a round came out: nothing was tried, what was tried failed, or the matter was settled. -/
inductive Round (V : Type)
  | waits
  | fails
  | settles (v : V)
  deriving DecidableEq

/-- Where a matter stands after some rounds. -/
inductive Stage (V : Type)
  | pending (failures : ℕ)
  | settled (v : V)
  | exhausted
  deriving DecidableEq

def Stage.next (budget : ℕ) : Stage V → Round V → Stage V
  | pending n, .waits => pending n
  | pending n, .fails => if n + 1 < budget then pending (n + 1) else exhausted
  | pending _, .settles v => settled v
  | stage, _ => stage

def after (budget : ℕ) (rounds : List (Round V)) : Stage V := rounds.foldl (Stage.next budget) (.pending 0)

def Round.failed : Round V → Bool
  | fails => true
  | _ => false

def failures (rounds : List (Round V)) : ℕ := rounds.countP Round.failed

def Round.tried : Round V → Bool
  | waits => false
  | _ => true

variable {budget n : ℕ} {rounds : List (Round V)} {round : Round V}

@[simp] theorem after_snoc (budget : ℕ) (rounds : List (Round V)) (round : Round V) :
    after budget (rounds ++ [round]) = (after budget rounds).next budget round := by
  simp [after]

@[simp] theorem failures_snoc (rounds : List (Round V)) (round : Round V) :
    failures (rounds ++ [round]) = failures rounds + if round.failed then 1 else 0 := by
  simp [failures, List.countP_append, List.countP_cons]

theorem pending_of_next {stage : Stage V} (h : stage.next budget round = .pending n) :
    (stage = .pending n ∧ round = .waits) ∨
      ∃ m, stage = .pending m ∧ round = .fails ∧ n = m + 1 ∧ n < budget := by
  cases stage with
  | settled | exhausted => cases h
  | pending m =>
    cases round with
    | waits => exact .inl ⟨h, rfl⟩
    | settles => cases h
    | fails =>
      simp only [Stage.next] at h
      split at h
      · next hlt =>
        obtain rfl := Stage.pending.inj h
        exact .inr ⟨m, rfl, rfl, rfl, hlt⟩
      · cases h

theorem pending_iff_failures (h : after budget rounds = .pending n) :
    failures rounds = n ∧ n < max 1 budget ∧ rounds.countP Round.tried = n := by
  induction rounds using List.reverseRec generalizing n with
  | nil =>
    obtain rfl : 0 = n := Stage.pending.inj h
    exact ⟨rfl, by omega, rfl⟩
  | append_singleton rounds round ih =>
    rw [after_snoc] at h
    rcases pending_of_next h with ⟨hpending, rfl⟩ | ⟨m, hpending, rfl, rfl, hlt⟩
    · obtain ⟨hfailures, hlt, htried⟩ := ih hpending
      exact ⟨by simpa [Round.failed] using hfailures, hlt,
        by simpa [List.countP_append, Round.tried] using htried⟩
    · obtain ⟨hfailures, -, htried⟩ := ih hpending
      exact ⟨by simpa [Round.failed] using hfailures, by omega,
        by simpa [List.countP_append, Round.tried] using htried⟩

/-- The budget is exhausted by the failure that reaches it, and by nothing else. -/
theorem exhausted_iff (h : after budget rounds = .pending n) :
    after budget (rounds ++ [round]) = .exhausted ↔
      round = .fails ∧ failures (rounds ++ [round]) = max 1 budget := by
  obtain ⟨hfailures, hlt, -⟩ := pending_iff_failures h
  rw [after_snoc, h, failures_snoc, hfailures]
  cases round with
  | waits | settles =>
    refine iff_of_false ?_ ?_
    · rintro ⟨⟩
    · rintro ⟨⟨⟩, -⟩
  | fails =>
    simp only [Stage.next, Round.failed, if_true, true_and]
    split
    · next hnext =>
      refine iff_of_false ?_ (by omega)
      rintro ⟨⟩
    · exact iff_of_true rfl (by omega)

theorem settled_iff (h : after budget rounds = .pending n) {v : V} :
    after budget (rounds ++ [round]) = .settled v ↔ round = .settles v := by
  rw [after_snoc, h]
  cases round with
  | waits =>
    refine iff_of_false ?_ ?_
    all_goals rintro ⟨⟩
  | settles w => simp [Stage.next]
  | fails =>
    refine iff_of_false ?_ ?_
    · simp only [Stage.next]
      split
      all_goals rintro ⟨⟩
    · rintro ⟨⟩

/-- While every round begins with the matter pending, no more rounds try than the budget has. -/
theorem tried_le (h : ∀ before round later, rounds = before ++ round :: later →
    ∃ n, after budget before = .pending n) : rounds.countP Round.tried ≤ max 1 budget := by
  rcases List.eq_nil_or_concat rounds with rfl | ⟨before, round, rfl⟩
  · exact Nat.zero_le _
  · obtain ⟨n, hn⟩ := h before round [] (by simp)
    obtain ⟨-, hlt, htried⟩ := pending_iff_failures hn
    rw [List.concat_eq_append, List.countP_append, htried]
    have hlast : [round].countP Round.tried ≤ 1 := List.countP_le_length
    omega

end Budgets
