import Mathlib.Data.List.Forall2
import Mathlib.Data.List.GetD
import Mathlib.Data.List.Sort

namespace OrderStatistics

variable {α : Type} [LinearOrder α] {data data' : List α} {k : ℕ}

/-- The entry at position `k` of the sorted data. -/
def kth (data : List α) (k : ℕ) (d : α) : α := (data.insertionSort (· ≤ ·)).getD k d

/-- An entry of a sorted list is at most `x` exactly when more entries than it has before
it are. -/
theorem getElem_le_iff (h : data.Pairwise (· ≤ ·)) (hk : k < data.length) (x : α) :
    data[k] ≤ x ↔ k < data.countP (· ≤ x) := by
  induction data generalizing k with
  | nil => cases hk
  | cons a l ih =>
    obtain ⟨hhead, htail⟩ := List.pairwise_cons.mp h
    by_cases ha : a ≤ x
    · have hcount : (a :: l).countP (· ≤ x) = l.countP (· ≤ x) + 1 :=
        List.countP_cons_of_pos (decide_eq_true ha)
      cases k with
      | zero => exact iff_of_true ha (by omega)
      | succ k =>
        rw [List.getElem_cons_succ, ih htail, hcount]
        omega
    · have hnone : ∀ b ∈ a :: l, ¬ b ≤ x := by
        intro b hb hle
        rcases List.mem_cons.mp hb with rfl | hb
        · exact ha hle
        · exact ha ((hhead b hb).trans hle)
      have hcount : (a :: l).countP (· ≤ x) = 0 :=
        List.countP_eq_zero.mpr (fun b hb ↦ by simpa using hnone b hb)
      exact iff_of_false (hnone _ (List.getElem_mem hk)) (by omega)

theorem kth_le_iff (hk : k < data.length) (d x : α) :
    kth data k d ≤ x ↔ k < data.countP (· ≤ x) := by
  have hk' : k < (data.insertionSort (· ≤ ·)).length := by rwa [List.length_insertionSort]
  rw [kth, List.getD_eq_getElem _ _ hk', getElem_le_iff (List.pairwise_insertionSort _ _) hk',
    (List.perm_insertionSort _ _).countP_eq]

theorem lt_kth_iff (hk : k < data.length) (d x : α) :
    x < kth data k d ↔ data.countP (· ≤ x) ≤ k := by
  rw [← not_le, kth_le_iff hk, not_lt]

theorem kth_mem (hk : k < data.length) (d : α) : kth data k d ∈ data := by
  have hk' : k < (data.insertionSort (· ≤ ·)).length := by rwa [List.length_insertionSort]
  rw [kth, List.getD_eq_getElem _ _ hk']
  exact (List.perm_insertionSort _ _).subset (List.getElem_mem hk')

theorem kth_of_length_le (hk : data.length ≤ k) (d : α) : kth data k d = d :=
  List.getD_eq_default _ _ (by rwa [List.length_insertionSort])

theorem le_kth {d : α} (h : ∀ a ∈ data, d ≤ a) (k : ℕ) : d ≤ kth data k d := by
  rcases Nat.lt_or_ge k data.length with hk | hk
  · exact h _ (kth_mem hk d)
  · rw [kth_of_length_le hk]

theorem kth_mono {j : ℕ} (hjk : j ≤ k) (hk : k < data.length) (d : α) :
    kth data j d ≤ kth data k d := by
  have hcount := (kth_le_iff hk d _).mp le_rfl
  exact (kth_le_iff (by omega) d _).mpr (by omega)

theorem countP_le_of_forall₂ (h : List.Forall₂ (· ≤ ·) data data') (x : α) :
    data'.countP (· ≤ x) ≤ data.countP (· ≤ x) := by
  induction h with
  | nil => rfl
  | @cons a a' l l' ha _ ih =>
    rw [List.countP_cons, List.countP_cons]
    by_cases ha' : a' ≤ x
    · simp only [ha', ha.trans ha', decide_true, if_true]
      omega
    · simp only [ha', decide_false, Bool.false_eq_true, if_false]
      omega

theorem kth_le_kth (h : List.Forall₂ (· ≤ ·) data data') (k : ℕ) (d : α) :
    kth data k d ≤ kth data' k d := by
  have hlen := h.length_eq
  by_cases hk : k < data.length
  · have hk' : k < data'.length := by omega
    have hcount := (kth_le_iff hk' d _).mp le_rfl
    exact (kth_le_iff hk d _).mpr (hcount.trans_le (countP_le_of_forall₂ h _))
  · rw [kth_of_length_le (by omega), kth_of_length_le (by omega)]

theorem forall₂_set {i : ℕ} {x : α} (hi : i < data.length) (hx : data[i] ≤ x) :
    List.Forall₂ (· ≤ ·) data (data.set i x) := by
  refine List.forall₂_iff_get.mpr ⟨by simp, fun j hj hj' ↦ ?_⟩
  simp only [List.get_eq_getElem, List.getElem_set]
  by_cases h : i = j
  · subst h
    simpa using hx
  · rw [if_neg h]

end OrderStatistics
