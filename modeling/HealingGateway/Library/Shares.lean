import HealingGateway.Library.Pools
import HealingGateway.Library.Tallies
import Mathlib.Algebra.BigOperators.Group.Finset.Piecewise

namespace Programs

variable {ι C O ε α V σ M : Type} {R : C → Type}

def Act.event (a : Act ι O C R) : Event C R := ⟨a.guarded, a.cmd, a.reply⟩

namespace Pool

theorem after_append (π : Protocol C R V) (v : V) (events events' : List (Event C R)) :
    π.after v (events ++ events') = π.after (π.after v events) events' :=
  List.foldl_append

section Protocols

variable [DecidableEq ι]

/-- What one thread did. -/
def share (i : ι) (acts : List (Act ι O C R)) : List (Event C R) :=
  (acts.filter (·.thread = i)).map Act.event

theorem share_append (i : ι) (acts acts' : List (Act ι O C R)) :
    share i (acts ++ acts') = share i acts ++ share i acts' := by
  simp [share]

theorem share_singleton_self (a : Act ι O C R) : share a.thread [a] = [a.event] := by
  simp [share]

theorem share_singleton_of_ne {i : ι} {a : Act ι O C R} (h : a.thread ≠ i) : share i [a] = [] := by
  simp [share, h]

variable {V' : Type} {π : Protocol C R V} {π' : Protocol C R V'} {answers : O → Handler C R σ}
  {p : Pool ι C R ε α V σ} {i : ι} {v : V'} {Q : V' → Except ε α → Prop}

theorem obeys_rest (hi : (p.rest i).Obeys π' v Q) (hpossible : ∀ v c r, π'.possible v c r)
    (turns : List (ι × O)) : ((p.run π answers turns).rest i).Obeys π'
      (π'.after v (share i (p.acts π answers turns))) Q := by
  induction turns using List.reverseRec with
  | nil => exact hi
  | append_singleton turns turn ih =>
    rw [run_append_singleton, acts_append_singleton, share_append, after_append]
    cases hturn : (p.run π answers turns).rest turn.1 with
    | done a => simpa [step, act, hturn, share, Protocol.after] using ih
    | throw e => simpa [step, act, hturn, share, Protocol.after] using ih
    | call g c k =>
      rw [step_call hturn, act_call hturn]
      by_cases hj : i = turn.1
      · subst hj
        rw [hturn] at ih
        have hrest := ih.2 _ (hpossible _ c (answers turn.2 c (p.run π answers turns).store).1)
        simpa [share, Act.event, Protocol.after] using hrest
      · simpa [share, hj, Ne.symm hj, Protocol.after] using ih

/-- What such a thread did, it was allowed to from what it had seen. -/
theorem allowed_of_acts {turns : List (ι × O)} {before later : List (Act ι O C R)} {a : Act ι O C R}
    (h : p.acts π answers turns = before ++ a :: later) (ha : (p.rest a.thread).Obeys π' v Q)
    (hpossible : ∀ v c r, π'.possible v c r) : π'.allowed (π'.after v (share a.thread before)) a.cmd := by
  obtain ⟨turns₁, turn, turns₂, -, rfl, hact⟩ := exists_turn_of_acts h
  obtain ⟨g, c, k, hi, rfl⟩ := act_eq_some hact
  have hobeys : ((p.run π answers turns₁).rest turn.1).Obeys π'
      (π'.after v (share turn.1 (p.acts π answers turns₁))) Q := obeys_rest ha hpossible turns₁
  rw [hi] at hobeys
  exact hobeys.1

end Protocols

section Accounts

variable [DecidableEq ι] [AddCommMonoid M]

/-- What all did is what each did. -/
theorem sum_acts [Fintype ι] (weight : ι → Event C R → M) (acts : List (Act ι O C R)) :
    (acts.map (fun a ↦ weight a.thread a.event)).sum = ∑ i, ((share i acts).map (weight i)).sum := by
  induction acts with
  | nil => simp [share]
  | cons a acts ih =>
    have hshare : ∀ i, ((share i (a :: acts)).map (weight i)).sum =
        (if a.thread = i then weight i a.event else 0) + ((share i acts).map (weight i)).sum := by
      intro i
      by_cases hi : a.thread = i <;> simp [share, hi]
    rw [List.map_cons, List.sum_cons, ih, Finset.sum_congr rfl (fun i _ ↦ hshare i), Finset.sum_add_distrib,
      Finset.sum_ite_eq, if_pos (Finset.mem_univ _)]

end Accounts

end Pool

end Programs
