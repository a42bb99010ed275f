import Mathlib.Data.Set.Lattice
import Mathlib.Order.CompletePartialOrder

namespace Tokens

variable {P T : Type}

/-- Which tokens stand at each place, and which were ever made. -/
structure Board (P T : Type) where
  tokens : P → Set T
  made : Set T

/-- One move on a board: tokens are lost, one goes from a place to another, or a new one is made. -/
inductive Step (b b' : Board P T) : Prop
  | lose (hsub : ∀ p, b'.tokens p ⊆ b.tokens p) (hmade : b'.made = b.made)
  | move {p q : P} {t : T} (ht : t ∈ b.tokens p) (hleft : t ∉ b'.tokens p)
      (hq : b'.tokens q ⊆ insert t (b.tokens q)) (hother : ∀ r, r ≠ q → b'.tokens r ⊆ b.tokens r)
      (hmade : b'.made = b.made)
  | make {q : P} {t : T} (hnew : t ∉ b.made) (hq : b'.tokens q ⊆ insert t (b.tokens q))
      (hother : ∀ r, r ≠ q → b'.tokens r ⊆ b.tokens r) (hmade : b'.made = insert t b.made)

/-- A token stands at one place at most, and was made. -/
structure Sound (b : Board P T) : Prop where
  apart : Pairwise (Function.onFun Disjoint b.tokens)
  known : ∀ p, b.tokens p ⊆ b.made

def Retired (b : Board P T) (t : T) : Prop := t ∈ b.made ∧ ∀ p, t ∉ b.tokens p

variable {b b' : Board P T} {t : T}

theorem sound_empty (hb : ∀ p, b.tokens p = ∅) : Sound b := by
  constructor
  · intro p q _
    change Disjoint (b.tokens p) (b.tokens q)
    rw [hb p]
    exact Set.empty_disjoint _
  · intro p
    rw [hb p]
    exact Set.empty_subset _

theorem Sound.eq (h : Sound b) {p q : P} (hp : t ∈ b.tokens p) (hq : t ∈ b.tokens q) : p = q := by
  by_contra hpq
  exact Set.disjoint_left.mp (h.apart hpq) hp hq

theorem Step.made_subset (h : Step b b') : b.made ⊆ b'.made := by
  cases h with
  | lose _ hmade | move _ _ _ _ hmade => rw [hmade]
  | make _ _ _ hmade =>
    rw [hmade]
    exact Set.subset_insert _ _

theorem Step.arrives (h : Step b b') {p : P} (hp : t ∈ b'.tokens p) :
    t ∈ b.tokens p ∨ (∃ q, t ∈ b.tokens q ∧ t ∉ b'.tokens q) ∨ t ∉ b.made ∧ t ∈ b'.made := by
  cases h with
  | lose hsub => exact .inl (hsub p hp)
  | @move p' q t' ht hleft hq hother =>
    by_cases hpq : p = q
    · subst hpq
      rcases hq hp with rfl | hmem
      · exact .inr (.inl ⟨p', ht, hleft⟩)
      · exact .inl hmem
    · exact .inl (hother p hpq hp)
  | @make q t' hnew hq hother hmade =>
    by_cases hpq : p = q
    · subst hpq
      rcases hq hp with rfl | hmem
      · exact .inr (.inr ⟨hnew, hmade ▸ Set.mem_insert _ _⟩)
      · exact .inl hmem
    · exact .inl (hother p hpq hp)

theorem Step.unique (h : Step b b') {p q : P} (hp : t ∈ b'.tokens p) (hq : t ∈ b'.tokens q)
    (hpq : p ≠ q) : t ∈ b.tokens p ∨ t ∈ b.tokens q := by
  cases h with
  | lose hsub => exact .inl (hsub p hp)
  | @move _ q' _ _ _ _ hother | @make q' _ _ _ hother =>
    by_cases hp' : p = q'
    · subst hp'
      exact .inr (hother q hpq.symm hq)
    · exact .inl (hother p hp' hp)

theorem Sound.step (h : Sound b) (hstep : Step b b') : Sound b' := by
  constructor
  · intro p q hpq
    refine Set.disjoint_left.mpr (fun t hp hq ↦ ?_)
    have hkey : ∀ {p q : P}, p ≠ q → t ∈ b'.tokens p → t ∈ b'.tokens q → t ∉ b.tokens p := by
      intro p q hpq hp hq hold
      rcases hstep.arrives hq with hq' | ⟨r, hr, hr'⟩ | ⟨hnew, -⟩
      · exact hpq (h.eq hold hq')
      · obtain rfl := h.eq hold hr
        exact hr' hp
      · exact hnew (h.known p hold)
    rcases hstep.unique hp hq hpq with hold | hold
    · exact hkey hpq hp hq hold
    · exact hkey hpq.symm hq hp hold
  · intro p t hp
    rcases hstep.arrives hp with hold | ⟨q, hq, -⟩ | ⟨-, hmade⟩
    · exact hstep.made_subset (h.known p hold)
    · exact hstep.made_subset (h.known q hq)
    · exact hmade

theorem Retired.step (h : Retired b t) (hstep : Step b b') : Retired b' t := by
  refine ⟨hstep.made_subset h.1, fun p hp ↦ ?_⟩
  rcases hstep.arrives hp with hold | ⟨q, hq, -⟩ | ⟨hnew, -⟩
  · exact h.2 p hold
  · exact h.2 q hq
  · exact hnew h.1

/-- A token that leaves its place for nowhere is retired. -/
theorem Sound.retired (h : Sound b) (hstep : Step b b') {p : P} (hp : t ∈ b.tokens p)
    (hleft : t ∉ b'.tokens p) (hsub : ∀ q, q ≠ p → b'.tokens q ⊆ b.tokens q) : Retired b' t := by
  refine ⟨hstep.made_subset (h.known p hp), fun q hq ↦ ?_⟩
  by_cases hqp : q = p
  · subst hqp
    exact hleft hq
  · exact hqp (h.eq (hsub q hqp hq) hp)

end Tokens
