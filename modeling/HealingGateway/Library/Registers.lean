import Mathlib.Data.List.Basic
import Mathlib.Data.List.Induction
import Mathlib.Order.Basic

namespace Registers

/-- A register is given a value until some instant, or is cleared. -/
structure Edit (K V T : Type) where
  key : K
  entry : Option (V × T)

variable {K V T : Type} [DecidableEq K]

def latest (k : K) (edits : List (Edit K V T)) : Option (V × T) :=
  edits.foldl (fun held e ↦ if e.key = k then e.entry else held) none

@[simp] theorem latest_nil (k : K) : latest k ([] : List (Edit K V T)) = none := rfl

@[simp] theorem latest_append_singleton (k : K) (edits : List (Edit K V T)) (e : Edit K V T) :
    latest k (edits ++ [e]) = if e.key = k then e.entry else latest k edits := by
  simp [latest]

theorem latest_append_of_forall_ne {k : K} {later : List (Edit K V T)}
    (h : ∀ e ∈ later, e.key ≠ k) (edits : List (Edit K V T)) :
    latest k (edits ++ later) = latest k edits := by
  induction later using List.reverseRec with
  | nil => rw [List.append_nil]
  | append_singleton later e ih =>
    rw [← List.append_assoc, latest_append_singleton, if_neg (h e (by simp))]
    exact ih (fun e' he' ↦ h e' (List.mem_append_left _ he'))

/-- What a register holds was given to it by an edit that none has followed. -/
theorem latest_eq_some {k : K} {edits : List (Edit K V T)} {held : V × T} :
    latest k edits = some held ↔
      ∃ before later, edits = before ++ ⟨k, some held⟩ :: later ∧ ∀ e ∈ later, e.key ≠ k := by
  constructor
  · intro h
    induction edits using List.reverseRec with
    | nil => cases h
    | append_singleton edits e ih =>
      rw [latest_append_singleton] at h
      split at h
      · next hk =>
        subst hk
        exact ⟨edits, [], by rw [← h], fun e' he' ↦ by cases he'⟩
      · next hk =>
        obtain ⟨before, later, rfl, hlater⟩ := ih h
        refine ⟨before, later ++ [e], by simp, fun e' he' ↦ ?_⟩
        rcases List.mem_append.mp he' with he' | he'
        · exact hlater e' he'
        · rwa [List.mem_singleton.mp he']
  · rintro ⟨before, later, rfl, hlater⟩
    rw [← List.singleton_append, ← List.append_assoc, latest_append_of_forall_ne hlater,
      latest_append_singleton, if_pos rfl]

variable [LE T] [DecidableLE T]

/-- What a register still holds at an instant. -/
def held (now : T) (k : K) (edits : List (Edit K V T)) : Option V :=
  ((latest k edits).filter (fun e ↦ decide (now ≤ e.2))).map Prod.fst

theorem held_eq_some {now : T} {k : K} {edits : List (Edit K V T)} {v : V} :
    held now k edits = some v ↔ ∃ t, latest k edits = some (v, t) ∧ now ≤ t := by
  simp only [held, Option.map_eq_some_iff, Option.filter_eq_some_iff, decide_eq_true_eq]
  constructor
  · rintro ⟨⟨v', t⟩, ⟨h, ht⟩, rfl⟩
    exact ⟨t, h, ht⟩
  · rintro ⟨t, h, ht⟩
    exact ⟨(v, t), ⟨h, ht⟩, rfl⟩

end Registers
