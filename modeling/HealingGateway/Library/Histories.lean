import Mathlib.Data.List.Basic

namespace Histories

variable {α : Type}

/-- What holds at every split of a history at one of its events holds at every index. -/
theorem forall_split_iff {l : List α} {P : List α → α → Prop} :
    (∀ before a after, l = before ++ a :: after → P before a) ↔
      ∀ n (hn : n < l.length), P (l.take n) l[n] := by
  constructor
  · intro h n hn
    apply h _ _ (l.drop (n + 1))
    rw [← List.drop_eq_getElem_cons hn, List.take_append_drop]
  · rintro h before a after rfl
    have hlt : before.length < (before ++ a :: after).length := by simp
    simpa using h before.length hlt

instance decidableSplit {l : List α} {P : List α → α → Prop} [∀ before a, Decidable (P before a)] :
    Decidable (∀ before a after, l = before ++ a :: after → P before a) :=
  decidable_of_iff _ forall_split_iff.symm

def Along (P : List α → α → Prop) : List α → List α → Prop
  | _, [] => True
  | before, a :: l => P before a ∧ Along P (before ++ [a]) l

theorem along_append (P : List α → α → Prop) (before l l' : List α) :
    Along P before (l ++ l') ↔ Along P before l ∧ Along P (before ++ l) l' := by
  induction l generalizing before with
  | nil => simp [Along]
  | cons a l ih => simp [Along, ih, and_assoc]

theorem along_iff (P : List α → α → Prop) (l : List α) :
    Along P [] l ↔ ∀ before a after, l = before ++ a :: after → P before a := by
  constructor
  · rintro h before a after rfl
    exact ((along_append P [] before (a :: after)).mp h).2.1
  · intro h
    have hstep : ∀ before l', l = before ++ l' → Along P before l' := by
      intro before l'
      induction l' generalizing before with
      | nil => exact fun _ ↦ trivial
      | cons a l' ih => exact fun hl ↦ ⟨h before a l' hl, ih (before ++ [a]) (by simp [hl])⟩
    exact hstep [] l rfl

end Histories
