import HealingGateway.Library.Pools
import Mathlib.Data.Nat.Find

namespace Programs.Pool

section Turns

variable {ι O : Type}

/-- The first turns of an endless schedule. -/
def upTo (schedule : ℕ → ι × O) (n : ℕ) : List (ι × O) := (List.range n).map schedule

@[simp] theorem upTo_succ (schedule : ℕ → ι × O) (n : ℕ) :
    upTo schedule (n + 1) = upTo schedule n ++ [schedule n] := by
  simp [upTo, List.range_succ]

/-- Every thread has its turn again and again. -/
def Fair (schedule : ℕ → ι × O) : Prop := ∀ i n, ∃ m, n ≤ m ∧ (schedule m).1 = i

end Turns

variable {ι C O ε α V σ : Type} {R : C → Type} {schedule : ℕ → ι × O} {i : ι}

variable [DecidableEq ι] {π : Protocol C R V} {h : Handler C R σ} {answers : O → Handler C R σ}
  {p : Pool ι C R ε α V σ}

theorem rest_upTo_of_idle {n m : ℕ} (hnm : n ≤ m)
    (hidle : ∀ k, n ≤ k → k < m → (schedule k).1 ≠ i) :
    (p.run π answers (upTo schedule m)).rest i = (p.run π answers (upTo schedule n)).rest i := by
  induction hnm with
  | refl => rfl
  | @step m hnm ih =>
    rw [upTo_succ, run_append_singleton, rest_step_of_ne (hidle m hnm (by omega)).symm]
    exact ih (fun k hn hk ↦ hidle k hn (by omega))

theorem rest_upTo_of_ended {n m : ℕ} (hnm : n ≤ m) {r : Except ε α}
    (hn : (p.run π answers (upTo schedule n)).rest i = Prog.ofExcept r) :
    (p.run π answers (upTo schedule m)).rest i = Prog.ofExcept r := by
  induction hnm with
  | refl => exact hn
  | @step m hnm ih =>
    rw [upTo_succ, run_append_singleton]
    exact rest_step_of_ended ih

/-- Where every thread has its turn again and again, every thread ends. -/
theorem Fair.ends (hfair : Fair schedule) (i : ι) :
    ∃ n r, ∀ m, n ≤ m → (p.run π answers (upTo schedule m)).rest i = Prog.ofExcept r := by
  have hends : ∀ (q : Prog C R ε α) n, (p.run π answers (upTo schedule n)).rest i = q →
      ∃ m r, (p.run π answers (upTo schedule m)).rest i = Prog.ofExcept r := by
    intro q
    induction q with
    | done a => exact fun n hn ↦ ⟨n, .ok a, hn⟩
    | throw e => exact fun n hn ↦ ⟨n, .error e, hn⟩
    | call g c k ih =>
      intro n hn
      classical obtain ⟨m, ⟨hnm, hm⟩, hfirst⟩ := Nat.findX (hfair i n)
      have hwaits : (p.run π answers (upTo schedule m)).rest (schedule m).1 = .call g c k := by
        rw [hm, rest_upTo_of_idle hnm (fun k hn hk hi ↦ hfirst k hk ⟨hn, hi⟩), hn]
      refine ih (answers (schedule m).2 c (p.run π answers (upTo schedule m)).store).1 (m + 1) ?_
      rw [upTo_succ, run_append_singleton, step_call hwaits, hm]
      exact Function.update_self ..
  obtain ⟨n, r, hn⟩ := hends _ 0 rfl
  exact ⟨n, r, fun m hnm ↦ rest_upTo_of_ended hnm hn⟩

end Programs.Pool
