import HealingGateway.Library.Expansions
import HealingGateway.Library.Failures
import Mathlib.Algebra.BigOperators.Group.List.Basic

namespace Programs

/-- Which replies commands may get, and what each command adds to an account. -/
structure Tariff (C : Type) (R : C → Type) (M : Type) where
  possible : (c : C) → R c → Prop
  cost : (guarded : Bool) → (c : C) → R c → M

variable {C : Type} {R : C → Type} {ε α β σ M : Type} [AddCommMonoid M]

namespace Tariff

variable (T : Tariff C R M)

/-- Adding up, where every command is issued with an account as `keeps` says. -/
def tallying (keeps : M → Prop) : Protocol C R M where
  allowed := fun m _ ↦ keeps m
  possible := fun _ ↦ T.possible
  watch := fun m guarded c r ↦ m + T.cost guarded c r

theorem tallying_watch (keeps : M → Prop) (m : M) (guarded : Bool) (c : C) (r : R c) :
    (T.tallying keeps).watch m guarded c r = m + T.cost guarded c r := rfl

/-- What a run adds. -/
def total (events : List (Event C R)) : M := (events.map (fun e ↦ T.cost e.guarded e.cmd e.reply)).sum

@[simp] theorem total_nil : T.total [] = 0 := rfl

theorem total_cons (e : Event C R) (events : List (Event C R)) :
    T.total (e :: events) = T.cost e.guarded e.cmd e.reply + T.total events := by
  rw [total, List.map_cons, List.sum_cons, total]

theorem total_append (events events' : List (Event C R)) :
    T.total (events ++ events') = T.total events + T.total events' := by
  rw [total, List.map_append, List.sum_append, total, total]

theorem after_tallying (keeps : M → Prop) (m : M) (events : List (Event C R)) :
    (T.tallying keeps).after m events = m + T.total events := by
  induction events generalizing m with
  | nil => simp [Protocol.after]
  | cons e events ih =>
    rw [Protocol.after, List.foldl_cons, ← Protocol.after, ih, total_cons, ← add_assoc]
    rfl

end Tariff

namespace Prog

section Shares

variable {T : Tariff C R M} {keeps keeps' : M → Prop} {p q : Prog C R ε α} {m m' : M}
  {Q Q' : M → Except ε α → Prop}

theorem Obeys.share (hp : p.Obeys (T.tallying keeps) m Q) (m' : M) :
    p.Obeys (T.tallying fun _ ↦ True) (m' + m) (fun total r ↦ ∃ m, total = m' + m ∧ Q m r) := by
  induction p generalizing m with
  | done a => exact ⟨m, rfl, hp⟩
  | throw e => exact ⟨m, rfl, hp⟩
  | call g c k ih =>
    refine ⟨trivial, fun r hr ↦ ?_⟩
    have hshare := ih r (hp.2 r hr)
    rw [Tariff.tallying_watch, ← add_assoc] at hshare
    exact hshare

theorem Obeys.kept (hp : p.Obeys (T.tallying keeps) m Q) (h : p.ended? = none) : keeps m := by
  cases p with
  | done a => cases h
  | throw e => cases h
  | call g c k => exact hp.1

theorem Obeys.ended (hp : p.Obeys (T.tallying keeps) m Q) {r : Except ε α} (h : p.ended? = some r) :
    Q m r := by
  cases p with
  | done a =>
    cases h
    exact hp
  | throw e =>
    cases h
    exact hp
  | call g c k => cases h

theorem Obeys.advance (hp : p.Obeys (T.tallying keeps) m Q) (m' : M) (n : ℕ) :
    (p.advance n).Obeys (T.tallying fun _ ↦ True) (m' + m) (fun total r ↦ ∃ rest m,
      r = .ok rest ∧ total = m' + m ∧ rest.Obeys (T.tallying keeps) m Q) := by
  induction n generalizing p m with
  | zero => cases p <;> exact ⟨_, m, rfl, rfl, hp⟩
  | succ n ih =>
    cases p with
    | done a => exact ⟨_, m, rfl, rfl, hp⟩
    | throw e => exact ⟨_, m, rfl, rfl, hp⟩
    | call g c k =>
      refine ⟨trivial, fun r hr ↦ ?_⟩
      have hrest := ih (hp.2 r hr)
      rw [Tariff.tallying_watch, ← add_assoc] at hrest
      exact hrest

/-- Two accounts when the first of two programs has ended: its own is closed, and the other's
is as its program left it. -/
def Landing.Spent (T : Tariff C R M) (keeps keeps' : M → Prop) (Q Q' : M → Except ε α → Prop)
    (total : M) : Landing C R ε α → Prop
  | .left ended other => ∃ m m', total = m + m' ∧ Q m ended ∧ other.Obeys (T.tallying keeps') m' Q'
  | .right ended other => ∃ m m', total = m + m' ∧ Q' m' ended ∧ other.Obeys (T.tallying keeps) m Q

/-- The account of two programs that take turns is the sum of theirs. -/
theorem Obeys.race (hp : p.Obeys (T.tallying keeps) m Q) (hq : q.Obeys (T.tallying keeps') m' Q')
    (turns : List Bool) :
    (race turns p q).Obeys (T.tallying fun _ ↦ True) (m + m') (fun total r ↦ ∃ landing,
      r = .ok landing ∧ Landing.Spent T keeps keeps' Q Q' total landing) := by
  induction turns generalizing p q m m' with
  | nil =>
    cases p with
    | done a => exact ⟨_, rfl, m, m', rfl, hp, hq⟩
    | throw e => exact ⟨_, rfl, m, m', rfl, hp, hq⟩
    | call g c k =>
      cases q with
      | done b => exact ⟨_, rfl, m, m', rfl, hq, hp⟩
      | throw e => exact ⟨_, rfl, m, m', rfl, hq, hp⟩
      | call g' c' k' =>
        rw [race_nil, obeys_bind, obeys_outcome, add_comm]
        apply (hp.share m').mono
        intro total ended h
        obtain ⟨m, rfl, hended⟩ := h
        exact ⟨_, rfl, m, m', add_comm _ _, hended, hq⟩
  | cons turn turns ih =>
    cases p with
    | done a => exact ⟨_, rfl, m, m', rfl, hp, hq⟩
    | throw e => exact ⟨_, rfl, m, m', rfl, hp, hq⟩
    | call g c k =>
      cases q with
      | done b => exact ⟨_, rfl, m, m', rfl, hq, hp⟩
      | throw e => exact ⟨_, rfl, m, m', rfl, hq, hp⟩
      | call g' c' k' =>
        cases turn with
        | true =>
          refine ⟨trivial, fun r hr ↦ ?_⟩
          have hturn := ih (hp.2 r hr) hq
          rw [Tariff.tallying_watch, add_right_comm] at hturn
          exact hturn
        | false =>
          refine ⟨trivial, fun r hr ↦ ?_⟩
          have hturn := ih hp (hq.2 r hr)
          rw [Tariff.tallying_watch, ← add_assoc] at hturn
          exact hturn

end Shares

theorem Obeys.run_trace {V : Type} {π : Protocol C R V} {p : Prog C R ε α} {v : V}
    {Q : V → Except ε α → Prop} (hp : p.Obeys π v Q) {h : Handler C R σ} {s : σ}
    (hh : ∀ e ∈ p.trace h s, ∀ v, π.possible v e.cmd e.reply) :
    Q (π.after v (p.trace h s)) (p.run h s).1 := by
  induction p generalizing v s with
  | done a => exact hp
  | throw e => exact hp
  | call g c k ih =>
    refine ih _ (hp.2 _ (hh _ (List.mem_cons_self ..) v)) ?_
    exact fun e he ↦ hh e (List.mem_cons_of_mem _ he)

/-- The account of a plan is what its steps add, each as `Owed` says of its answer. -/
theorem total_expand {D : Type} {A : D → Type} {unit : (d : D) → Prog C R ε (A d)}
    {T : Tariff C R M} {assumed : Event C R → Prop} {Owed : (d : D) → Except ε (A d) → M → Prop}
    {h : Handler C R σ}
    (hunit : ∀ d s, (∀ e ∈ (unit d).trace h s, assumed e) →
      Owed d ((unit d).run h s).1 (T.total ((unit d).trace h s)))
    (p : Plan D A ε α) (s : σ) (hp : ∀ e ∈ (p.expand unit).trace h s, assumed e) :
    ∃ costs, List.Forall₂ (fun e cost ↦ Owed e.cmd e.reply cost) (p.trace (h.through unit) s) costs ∧
      T.total ((p.expand unit).trace h s) = costs.sum := by
  induction p generalizing s with
  | done a => exact ⟨[], .nil, rfl⟩
  | throw e => exact ⟨[], .nil, rfl⟩
  | call g d k ih =>
    rw [expand, trace_bind_ok h (run_outcome h (unit d) s), trace_outcome] at hp ⊢
    obtain ⟨costs, hcosts, htotal⟩ := ih ((unit d).run h s).1 ((unit d).run h s).2
      (fun e he ↦ hp e (List.mem_append_right _ he))
    refine ⟨_ :: costs, .cons (hunit d s (fun e he ↦ hp e (List.mem_append_left _ he))) hcosts, ?_⟩
    rw [T.total_append, htotal, List.sum_cons]

end Prog

end Programs
