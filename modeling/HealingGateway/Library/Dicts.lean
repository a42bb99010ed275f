import Mathlib.Data.List.Basic
import Mathlib.Data.List.Nodup
import Mathlib.Data.List.Induction
import Mathlib.Algebra.BigOperators.Group.List.Basic
import Mathlib.Algebra.Ring.Nat

namespace Dicts

variable {K V : Type} [DecidableEq K]

def set (k : K) (v : V) : List (K × V) → List (K × V)
  | [] => [(k, v)]
  | (k', v') :: d => if k' = k then (k, v) :: d else (k', v') :: set k v d

def merge (d updates : List (K × V)) : List (K × V) :=
  updates.foldl (fun d u ↦ set u.1 u.2 d) d

@[simp] theorem merge_nil (d : List (K × V)) : merge d [] = d := rfl

@[simp] theorem merge_cons (d : List (K × V)) (u : K × V) (updates : List (K × V)) :
    merge d (u :: updates) = merge (set u.1 u.2 d) updates := rfl

theorem lookup_set (k k' : K) (v : V) (d : List (K × V)) :
    (set k v d).lookup k' = if k' = k then some v else d.lookup k' := by
  induction d with
  | nil => by_cases h : k' = k <;> simp [set, h]
  | cons u d ih =>
    obtain ⟨k₀, v₀⟩ := u
    unfold set
    by_cases h₀ : k₀ = k
    · by_cases h : k' = k
      · simp [h₀, h]
      · have hne : (k' == k) = false := by simpa using h
        simp [h₀, h, hne, List.lookup_cons]
    · rw [if_neg h₀, List.lookup_cons, List.lookup_cons, ih]
      by_cases h : k' = k
      · have hne : (k == k₀) = false := by simpa using Ne.symm h₀
        simp [h, hne]
      · simp [h]

@[simp] theorem lookup_set_self (k : K) (v : V) (d : List (K × V)) :
    (set k v d).lookup k = some v := by
  simp [lookup_set]

theorem lookup_set_of_ne {k k' : K} (h : k' ≠ k) (v : V) (d : List (K × V)) :
    (set k v d).lookup k' = d.lookup k' := by
  simp [lookup_set, h]

theorem keys_set (k : K) (v : V) (d : List (K × V)) (k' : K) :
    k' ∈ (set k v d).map Prod.fst ↔ k' = k ∨ k' ∈ d.map Prod.fst := by
  induction d with
  | nil => simp [set]
  | cons u d ih =>
    obtain ⟨k₀, v₀⟩ := u
    unfold set
    split
    · next h => simp [h]
    · simp only [List.map_cons, List.mem_cons, ih]
      exact or_left_comm

theorem lookup_merge_of_notMem {k : K} {updates : List (K × V)}
    (h : k ∉ updates.map Prod.fst) (d : List (K × V)) :
    (merge d updates).lookup k = d.lookup k := by
  induction updates generalizing d with
  | nil => rfl
  | cons u updates ih =>
    simp only [List.map_cons, List.mem_cons, not_or] at h
    rw [merge_cons, ih h.2, lookup_set_of_ne h.1]

theorem lookup_merge_of_mem {k : K} {v : V} {updates : List (K × V)}
    (hu : (updates.map Prod.fst).Nodup) (h : (k, v) ∈ updates) (d : List (K × V)) :
    (merge d updates).lookup k = some v := by
  induction updates generalizing d with
  | nil => cases h
  | cons u updates ih =>
    rw [List.map_cons, List.nodup_cons] at hu
    rcases List.mem_cons.mp h with rfl | h
    · rw [merge_cons, lookup_merge_of_notMem hu.1, lookup_set_self]
    · exact ih hu.2 h _

theorem lookup_merge_cases (d updates : List (K × V)) (k : K) :
    (merge d updates).lookup k = d.lookup k ∨
      ∃ v, (k, v) ∈ updates ∧ (merge d updates).lookup k = some v := by
  induction updates generalizing d with
  | nil => exact .inl rfl
  | cons u updates ih =>
    rw [merge_cons]
    rcases ih (set u.1 u.2 d) with h | ⟨v, hv, h⟩
    · rw [h, lookup_set]
      split
      · next hk => exact .inr ⟨u.2, by simp [hk], rfl⟩
      · exact .inl rfl
    · exact .inr ⟨v, List.mem_cons_of_mem _ hv, h⟩

theorem keys_merge (d updates : List (K × V)) (k : K) :
    k ∈ (merge d updates).map Prod.fst ↔ k ∈ d.map Prod.fst ∨ k ∈ updates.map Prod.fst := by
  induction updates generalizing d with
  | nil => simp
  | cons u updates ih =>
    rw [merge_cons, ih, keys_set, List.map_cons, List.mem_cons, or_assoc, or_left_comm]

theorem merge_ne_nil {d updates : List (K × V)} (h : updates ≠ []) : merge d updates ≠ [] := by
  obtain ⟨u, us, rfl⟩ := List.exists_cons_of_ne_nil h
  intro hm
  have hk := (keys_merge d (u :: us) u.1).mpr (.inr (by simp))
  simp [hm] at hk

theorem nodup_set (k : K) (v : V) {d : List (K × V)} (h : (d.map Prod.fst).Nodup) :
    ((set k v d).map Prod.fst).Nodup := by
  induction d with
  | nil => simp [set]
  | cons u d ih =>
    obtain ⟨k₀, v₀⟩ := u
    rw [List.map_cons, List.nodup_cons] at h
    unfold set
    split
    · next hk => simpa [hk] using h
    · next hk =>
      rw [List.map_cons, List.nodup_cons, keys_set, not_or]
      exact ⟨⟨hk, h.1⟩, ih h.2⟩

theorem nodup_merge {d : List (K × V)} (h : (d.map Prod.fst).Nodup) (updates : List (K × V)) :
    ((merge d updates).map Prod.fst).Nodup := by
  induction updates generalizing d with
  | nil => exact h
  | cons u updates ih => exact ih (nodup_set u.1 u.2 h)

theorem mem_iff_lookup {d : List (K × V)} (h : (d.map Prod.fst).Nodup) {k : K} {v : V} :
    (k, v) ∈ d ↔ d.lookup k = some v := by
  induction d with
  | nil => simp
  | cons u d ih =>
    obtain ⟨k₀, v₀⟩ := u
    rw [List.map_cons, List.nodup_cons] at h
    rw [List.mem_cons, ih h.2, List.lookup_cons]
    by_cases hk : k = k₀
    · subst hk
      have hnot : d.lookup k ≠ some v := fun hl ↦ h.1 (List.mem_map.mpr ⟨(k, v), (ih h.2).mpr hl, rfl⟩)
      simp [hnot, eq_comm]
    · have hne : (k == k₀) = false := by simpa using hk
      simp [hk, hne]

theorem lookup_merge_map (value : K → V) (names : List K) (d : List (K × V)) (k : K) :
    (merge d (names.map (fun k ↦ (k, value k)))).lookup k =
      if k ∈ names then some (value k) else d.lookup k := by
  induction names generalizing d with
  | nil => simp
  | cons k' names ih =>
    rw [List.map_cons, merge_cons, ih, lookup_set]
    by_cases hk : k ∈ names
    · rw [if_pos hk, if_pos (List.mem_cons_of_mem _ hk)]
    · by_cases hk' : k = k'
      · simp [hk']
      · simp [hk, hk']

def bump (k : K) (d : List (K × ℕ)) : List (K × ℕ) := set k ((d.lookup k).getD 0 + 1) d

theorem lookup_bump (k k' : K) (d : List (K × ℕ)) :
    (bump k d).lookup k' = if k' = k then some ((d.lookup k).getD 0 + 1) else d.lookup k' :=
  lookup_set k k' _ d

theorem sum_bump (k : K) (d : List (K × ℕ)) :
    ((bump k d).map Prod.snd).sum = (d.map Prod.snd).sum + 1 := by
  unfold bump
  induction d with
  | nil => simp [set]
  | cons u d ih =>
    obtain ⟨k₀, v₀⟩ := u
    by_cases h : k₀ = k
    · subst h
      simp only [set, if_true, List.lookup_cons, beq_self_eq_true, List.map_cons, List.sum_cons,
        Option.getD_some]
      omega
    · have hne : (k == k₀) = false := by simpa using Ne.symm h
      simp only [set, if_neg h, List.lookup_cons, hne, List.map_cons, List.sum_cons, ih]
      omega

def tally (ks : List K) : List (K × ℕ) := ks.foldl (fun d k ↦ bump k d) []

theorem tally_append_singleton (ks : List K) (k : K) : tally (ks ++ [k]) = bump k (tally ks) := by
  simp [tally]

theorem lookup_tally (ks : List K) (k : K) :
    (tally ks).lookup k = if k ∈ ks then some (ks.count k) else none := by
  induction ks using List.reverseRec with
  | nil => simp [tally]
  | append_singleton ks k₀ ih =>
    rw [tally_append_singleton, lookup_bump, List.count_append]
    by_cases h : k = k₀
    · subst h
      rw [ih]
      by_cases hk : k ∈ ks
      · simp [hk]
      · simp [hk, List.count_eq_zero_of_not_mem hk]
    · simp [h, ih, Ne.symm h]

theorem sum_tally (ks : List K) : ((tally ks).map Prod.snd).sum = ks.length := by
  induction ks using List.reverseRec with
  | nil => rfl
  | append_singleton ks k ih => rw [tally_append_singleton, sum_bump, ih, List.length_append]; rfl

end Dicts
