import Mathlib.Data.Prod.Lex
import Mathlib.Data.List.Sort
import Mathlib.Order.Defs.LinearOrder

namespace SortedSets

variable {S M : Type}

def score (i : S ×ₗ M) : S := (ofLex i).1

def member (i : S ×ₗ M) : M := (ofLex i).2

@[simp] theorem score_toLex (s : S) (m : M) : score (toLex (s, m)) = s := rfl

@[simp] theorem member_toLex (s : S) (m : M) : member (toLex (s, m)) = m := rfl

variable [LinearOrder S] [LinearOrder M]

/-- Members with scores, in order of score and then of member, no member twice. -/
structure SortedSet (S M : Type) [LinearOrder S] [LinearOrder M] where
  items : List (S ×ₗ M)
  sorted : items.Pairwise (· ≤ ·)
  unique : (items.map member).Nodup

namespace SortedSet

def empty : SortedSet S M := ⟨[], .nil, .nil⟩

/-- Keep the members that satisfy a test. -/
def filter (keep : S ×ₗ M → Bool) (z : SortedSet S M) : SortedSet S M :=
  ⟨z.items.filter keep, z.sorted.filter _, z.unique.sublist (List.filter_sublist.map _)⟩

def add (m : M) (s : S) (z : SortedSet S M) : SortedSet S M where
  items := (z.items.filter (fun i ↦ member i ≠ m)).orderedInsert (· ≤ ·) (toLex (s, m))
  sorted := (z.sorted.filter _).orderedInsert _ _
  unique := by
    have hp := (List.perm_orderedInsert (· ≤ ·) (toLex (s, m))
      (z.items.filter (fun i ↦ member i ≠ m))).map member
    refine hp.nodup_iff.mpr (List.nodup_cons.mpr ⟨?_, ?_⟩)
    · simp only [List.mem_map, List.mem_filter, decide_eq_true_eq]
      rintro ⟨i, ⟨_, hne⟩, he⟩
      exact hne he
    · exact z.unique.sublist (List.filter_sublist.map _)

def popMin (z : SortedSet S M) : Option ((S ×ₗ M) × SortedSet S M) :=
  match hz : z.items with
  | [] => none
  | i :: rest => some (i, ⟨rest, (hz ▸ z.sorted).of_cons, (hz ▸ z.unique).of_cons⟩)

def Mem (m : M) (z : SortedSet S M) : Prop := m ∈ z.items.map member

@[simp] theorem items_empty : (empty : SortedSet S M).items = [] := rfl

@[simp] theorem items_filter (keep : S ×ₗ M → Bool) (z : SortedSet S M) :
    (z.filter keep).items = z.items.filter keep := rfl

theorem items_add_perm (m : M) (s : S) (z : SortedSet S M) :
    (z.add m s).items.Perm (toLex (s, m) :: z.items.filter (fun i ↦ member i ≠ m)) :=
  List.perm_orderedInsert _ _ _

theorem mem_add (m m' : M) (s : S) (z : SortedSet S M) :
    (z.add m s).Mem m' ↔ m' = m ∨ z.Mem m' := by
  have hp := (items_add_perm m s z).map (member (S := S))
  unfold Mem
  rw [hp.mem_iff]
  simp only [List.map_cons, member_toLex, List.mem_cons, List.mem_map, List.mem_filter, ne_eq,
    decide_not, Bool.not_eq_eq_eq_not, Bool.not_true, decide_eq_false_iff_not]
  constructor
  · rintro (h | ⟨i, ⟨hi, _⟩, he⟩)
    · exact .inl h
    · exact .inr ⟨i, hi, he⟩
  · rintro (h | ⟨i, hi, he⟩)
    · exact .inl h
    · by_cases hm : m' = m
      · exact .inl hm
      · exact .inr ⟨i, ⟨hi, fun h ↦ hm (he ▸ h)⟩, he⟩

theorem popMin_eq_none_iff (z : SortedSet S M) : z.popMin = none ↔ z.items = [] := by
  unfold popMin
  split <;> simp_all

theorem items_of_popMin {z z' : SortedSet S M} {i : S ×ₗ M} (h : z.popMin = some (i, z')) :
    z.items = i :: z'.items := by
  unfold popMin at h
  split at h
  · cases h
  · next hz => cases h; exact hz

theorem notMem_of_popMin {z z' : SortedSet S M} {i : S ×ₗ M} (h : z.popMin = some (i, z')) :
    ¬ z'.Mem (member i) := by
  have hu := z.unique
  rw [items_of_popMin h] at hu
  exact (List.nodup_cons.mp hu).1

theorem eq_of_items {z z' : SortedSet S M} (h : z.items = z'.items) : z = z' := by
  cases z
  cases z'
  cases h
  rfl

theorem eq_empty {z : SortedSet S M} (h : z.items = []) : z = .empty :=
  eq_of_items h

theorem add_of_popMin {z z' : SortedSet S M} {i : S ×ₗ M} (h : z.popMin = some (i, z')) :
    z'.add (member i) (score i) = z := by
  have hitems := items_of_popMin h
  have hf : z'.items.filter (fun j ↦ member j ≠ member i) = z'.items := by
    refine List.filter_eq_self.mpr (fun j hj ↦ decide_eq_true (fun he ↦ ?_))
    exact notMem_of_popMin h (List.mem_map.mpr ⟨j, hj, he⟩)
  have hsorted := z.sorted
  rw [hitems] at hsorted
  refine eq_of_items ?_
  rw [hitems]
  change (z'.items.filter (fun j ↦ member j ≠ member i)).orderedInsert (· ≤ ·)
    (toLex (score i, member i)) = i :: z'.items
  rw [hf]
  cases hrest : z'.items with
  | nil => rfl
  | cons j rest =>
    refine List.orderedInsert_cons_of_le _ _ ?_
    exact List.rel_of_pairwise_cons hsorted (by rw [hrest]; exact List.mem_cons_self)

end SortedSet

end SortedSets
