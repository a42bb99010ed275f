import HealingGateway.Library.Floats
import HealingGateway.Library.OrderStatistics
import Mathlib.Algebra.Order.Floor.Semifield
import Mathlib.Algebra.Order.Ring.Rat
import Mathlib.Data.Rat.Floor
import Mathlib.Tactic.FieldSimp
import Mathlib.Tactic.Linarith
import Mathlib.Tactic.Ring

namespace Quantiles

open Floats OrderStatistics

section Interpolation

variable {K : Type} [Field K] [LinearOrder K] [IsStrictOrderedRing K] {s s' : ℕ → K}
  {n k k' m : ℕ}

/-- The value at rank `k / n` between the values of a sequence. -/
def interpolated (s : ℕ → K) (n k : ℕ) : K :=
  (s (k / n) * (n - k % n : ℕ) + s (k / n + 1) * (k % n : ℕ)) / n

/-- The value at a rank that need not be whole, on the straight line between neighbours. -/
def valueAt [FloorSemiring K] (s : ℕ → K) (rank : K) : K :=
  s ⌊rank⌋₊ + (rank - ⌊rank⌋₊) * (s (⌊rank⌋₊ + 1) - s ⌊rank⌋₊)

theorem interpolated_eq_add (hn : 0 < n) (s : ℕ → K) (k : ℕ) :
    interpolated s n k = s (k / n) + (k % n : ℕ) / n * (s (k / n + 1) - s (k / n)) := by
  have hn' : (n : K) ≠ 0 := by exact_mod_cast hn.ne'
  rw [interpolated, Nat.cast_sub (Nat.mod_lt k hn).le]
  field_simp
  ring

theorem interpolated_eq_valueAt [FloorSemiring K] (hn : 0 < n) (s : ℕ → K) (k : ℕ) :
    interpolated s n k = valueAt s ((k : K) / n) := by
  have hn' : (n : K) ≠ 0 := by exact_mod_cast hn.ne'
  have hk : (k : K) = (n : K) * (k / n : ℕ) + (k % n : ℕ) := by
    exact_mod_cast (Nat.div_add_mod k n).symm
  have hrank : (k : K) / n - (k / n : ℕ) = (k % n : ℕ) / n := by
    rw [eq_div_iff hn', sub_mul, div_mul_cancel₀ _ hn']
    linarith
  rw [interpolated_eq_add hn, valueAt, Nat.floor_div_eq_div, hrank]

theorem interpolated_mul (hn : 0 < n) (s : ℕ → K) (m : ℕ) : interpolated s n (n * m) = s m := by
  rw [interpolated_eq_add hn, Nat.mul_div_cancel_left m hn, Nat.mul_mod_right]
  simp

theorem interpolated_succ (hn : 0 < n) (s : ℕ → K) (k : ℕ) :
    interpolated s n (k + 1) = interpolated s n k + (s (k / n + 1) - s (k / n)) / n := by
  have hn' : (n : K) ≠ 0 := by exact_mod_cast hn.ne'
  have hlt := Nat.mod_lt k hn
  have hk := Nat.div_add_mod k n
  rcases Nat.lt_or_ge (k % n + 1) n with h | h
  · obtain ⟨hdiv, hmod⟩ : (k + 1) / n = k / n ∧ (k + 1) % n = k % n + 1 :=
      (Nat.div_mod_unique hn).mpr ⟨by omega, h⟩
    rw [interpolated_eq_add hn, interpolated_eq_add hn, hdiv, hmod, Nat.cast_succ]
    ring
  · -- the next rank is whole
    have hwhole : k + 1 = n * (k / n + 1) := by
      rw [Nat.mul_succ]
      omega
    have hmod : ((k % n : ℕ) : K) = n - 1 := by
      have : k % n + 1 = n := by omega
      rw [eq_sub_iff_add_eq]
      exact_mod_cast this
    rw [hwhole, interpolated_mul hn, interpolated_eq_add hn, hmod]
    field_simp
    ring

theorem interpolated_mono (hn : 0 < n) (hs : ∀ j < m, s j ≤ s (j + 1)) (hkk : k ≤ k')
    (hk : k' ≤ n * m) : interpolated s n k ≤ interpolated s n k' := by
  induction k', hkk using Nat.le_induction with
  | base => rfl
  | succ k' _ ih =>
    have hdiv : k' / n < m := (Nat.div_lt_iff_lt_mul hn).mpr (by rw [Nat.mul_comm]; omega)
    have hstep : 0 ≤ (s (k' / n + 1) - s (k' / n)) / n :=
      div_nonneg (sub_nonneg.mpr (hs _ hdiv)) (Nat.cast_nonneg n)
    rw [interpolated_succ hn]
    linarith [ih (by omega)]

theorem interpolated_le_interpolated (hs : ∀ j, s j ≤ s' j) (n k : ℕ) :
    interpolated s n k ≤ interpolated s' n k := by
  have hl := mul_le_mul_of_nonneg_right (hs (k / n)) (Nat.cast_nonneg (α := K) (n - k % n))
  have hr := mul_le_mul_of_nonneg_right (hs (k / n + 1)) (Nat.cast_nonneg (α := K) (k % n))
  exact div_le_div_of_nonneg_right (add_le_add hl hr) (Nat.cast_nonneg n)

end Interpolation

def sorted (data : List ℚ) : List ℚ := data.insertionSort (· ≤ ·)

/-- The `i`-th of the `n - 1` cut points that divide the data into `n` parts, where the
least and the greatest value are the ends of the range. Every step of the arithmetic is rounded,
by `id` where it is exact. -/
def inclusiveCut (rnd : ℚ → ℚ) (n i : ℕ) (data : List ℚ) : ℚ :=
  let ordered := sorted data
  let rank := i * (data.length - 1)
  let low := ordered.getD (rank / n) 0
  let high := ordered.getD (rank / n + 1) 0
  rnd (rnd (rnd (low * (n - rank % n : ℕ)) + rnd (high * (rank % n : ℕ))) / n)

theorem sorted_perm {data data' : List ℚ} (h : data.Perm data') : sorted data = sorted data' :=
  List.Perm.eq_of_sortedLE List.sortedLE_insertionSort List.sortedLE_insertionSort
    ((List.perm_insertionSort _ _).trans (h.trans (List.perm_insertionSort _ _).symm))

theorem inclusiveCut_perm {data data' : List ℚ} (h : data.Perm data') (rnd : ℚ → ℚ) (n i : ℕ) :
    inclusiveCut rnd n i data = inclusiveCut rnd n i data' := by
  simp only [inclusiveCut, sorted_perm h, h.length_eq]

example : inclusiveCut id 100 95 [3, 1, 2] = 29 / 10 := by decide +kernel

section Cuts

variable {data data' : List ℚ} {n i j : ℕ}

theorem inclusiveCut_eq (n i : ℕ) (data : List ℚ) :
    inclusiveCut id n i data = interpolated (kth data · 0) n (i * (data.length - 1)) := rfl

theorem kth_succ_le {j : ℕ} (h : j < data.length - 1) : kth data j 0 ≤ kth data (j + 1) 0 :=
  kth_mono (Nat.le_succ j) (by omega) 0

theorem inclusiveCut_le_kth (hn : 0 < n) (hj : j ≤ data.length - 1)
    (h : i * (data.length - 1) ≤ n * j) : inclusiveCut id n i data ≤ kth data j 0 := by
  rw [inclusiveCut_eq, ← interpolated_mul hn (kth data · 0) j]
  exact interpolated_mono hn (fun _ ↦ kth_succ_le) h (Nat.mul_le_mul_left n hj)

theorem kth_le_inclusiveCut (hn : 0 < n) (hi : i ≤ n) (h : n * j ≤ i * (data.length - 1)) :
    kth data j 0 ≤ inclusiveCut id n i data := by
  rw [inclusiveCut_eq, ← interpolated_mul hn (kth data · 0) j]
  exact interpolated_mono hn (fun _ ↦ kth_succ_le) h (Nat.mul_le_mul_right _ hi)

theorem inclusiveCut_mono (hn : 0 < n) (hij : i ≤ j) (hj : j ≤ n) (data : List ℚ) :
    inclusiveCut id n i data ≤ inclusiveCut id n j data :=
  interpolated_mono hn (fun _ ↦ kth_succ_le) (Nat.mul_le_mul_right _ hij)
    (Nat.mul_le_mul_right _ hj)

theorem inclusiveCut_le_inclusiveCut (h : List.Forall₂ (· ≤ ·) data data') (n i : ℕ) :
    inclusiveCut id n i data ≤ inclusiveCut id n i data' := by
  rw [inclusiveCut_eq, inclusiveCut_eq, h.length_eq]
  exact interpolated_le_interpolated (fun j ↦ kth_le_kth h j 0) n _

theorem inclusiveCut_eq_valueAt (hn : 0 < n) (i : ℕ) (data : List ℚ) :
    inclusiveCut id n i data =
      valueAt (kth data · 0) ((i : ℚ) / n * (data.length - 1 : ℕ)) := by
  rw [inclusiveCut_eq, interpolated_eq_valueAt hn, Nat.cast_mul, mul_div_right_comm]

theorem min_le_inclusiveCut (hn : 0 < n) (hi : i ≤ n) (h : data ≠ []) :
    data.min h ≤ inclusiveCut id n i data := by
  have hlen := List.length_pos_iff.mpr h
  have hmin := (List.le_min_iff h).mp le_rfl _ (kth_mem hlen 0)
  exact hmin.trans (kth_le_inclusiveCut hn hi (by omega))

theorem inclusiveCut_le_max (hn : 0 < n) (hi : i ≤ n) (h : data ≠ []) :
    inclusiveCut id n i data ≤ data.max h := by
  have hlen := List.length_pos_iff.mpr h
  have hlast : data.length - 1 < data.length := by omega
  have hmax := (List.max_le_iff h).mp le_rfl _ (kth_mem hlast 0)
  exact (inclusiveCut_le_kth hn le_rfl (Nat.mul_le_mul_right _ hi)).trans hmax

theorem countP_lt_add (x : ℚ) (data : List ℚ) :
    data.countP (· ≤ x) + data.countP (x < ·) = data.length := by
  rw [List.length_eq_countP_add_countP (· ≤ x)]
  simp

/-- A rank that leaves so many values behind it lies among the others. -/
theorem rank_add_le {m c : ℕ} (hn : 0 < n) (hi : i ≤ n) (h : n * c ≤ (n - i) * m) :
    i * m / n + c ≤ m ∧ (0 < i * m % n → i * m / n + 1 + c ≤ m) := by
  have hdiv := Nat.div_add_mod (i * m) n
  have hi' := Nat.mul_le_mul_right m hi
  have hrank : n * (i * m / n + c) + i * m % n ≤ n * m := by
    rw [Nat.sub_mul] at h
    rw [Nat.mul_add]
    omega
  refine ⟨Nat.le_of_mul_le_mul_left (by omega) hn, fun hpos ↦ ?_⟩
  have hlt : i * m / n + c < m := Nat.lt_of_mul_lt_mul_left (a := n) (by omega)
  omega

/-- A rank that leaves fewer values behind it lies on one of these, or just before the first. -/
theorem lt_rank_add {m c : ℕ} (hn : 0 < n) (hi : i ≤ n) (h : (n - i) * m < n * c) :
    i * m / n ≤ m ∧ (m < i * m / n + c ∨ 0 < i * m % n ∧ i * m / n < m ∧ m ≤ i * m / n + c) := by
  have hdiv := Nat.div_add_mod (i * m) n
  have hmod := Nat.mod_lt (i * m) hn
  have hi' := Nat.mul_le_mul_right m hi
  have hrank : n * m < n * (i * m / n + c) + i * m % n := by
    rw [Nat.sub_mul] at h
    rw [Nat.mul_add]
    omega
  refine ⟨Nat.le_of_mul_le_mul_left (by omega) hn, ?_⟩
  rcases Nat.lt_or_ge m (i * m / n + c) with hlt | hge
  · exact .inl hlt
  · have hle := Nat.mul_le_mul_left n hge
    have hpos : 0 < i * m % n := by omega
    refine .inr ⟨hpos, Nat.lt_of_mul_lt_mul_left (a := n) (by omega), ?_⟩
    have hlt : m < i * m / n + c + 1 := by
      refine Nat.lt_of_mul_lt_mul_left (a := n) ?_
      rw [Nat.mul_succ]
      omega
    omega

/-- A cut is within a bound, however far beyond it some data are, if these are few enough and the
multiples of the bound are not rounded. -/
theorem inclusiveCut_le_of_countP {rnd : ℚ → ℚ} {x : ℚ} (hrnd : Monotone rnd) (hscales : Scales rnd n x)
    (hn : 0 < n) (hi : i ≤ n) (h : data ≠ [])
    (hx : n * data.countP (x < ·) ≤ (n - i) * (data.length - 1)) :
    inclusiveCut rnd n i data ≤ x := by
  have hlen := List.length_pos_iff.mpr h
  have hcount := countP_lt_add x data
  have hmod := Nat.mod_lt (i * (data.length - 1)) hn
  have hn' : (0 : ℚ) < n := by exact_mod_cast hn
  obtain ⟨hj, hj'⟩ := rank_add_le hn hi hx
  set j := i * (data.length - 1) / n
  set d := i * (data.length - 1) % n
  have hlow : rnd (kth data j 0 * (n - d : ℕ)) ≤ (n - d : ℕ) * x := by
    rw [← hscales (n - d) (Nat.sub_le n d), mul_comm]
    have hle : kth data j 0 ≤ x := (kth_le_iff (by omega) 0 x).mpr (by omega)
    exact hrnd (mul_le_mul_of_nonneg_left hle (Nat.cast_nonneg _))
  have hhigh : rnd (kth data (j + 1) 0 * d) ≤ d * x := by
    rw [← hscales d hmod.le, mul_comm]
    apply hrnd
    rcases Nat.eq_zero_or_pos d with h0 | hpos
    · rw [h0, Nat.cast_zero, zero_mul, zero_mul]
    · have hnext := hj' hpos
      have hle : kth data (j + 1) 0 ≤ x := (kth_le_iff (by omega) 0 x).mpr (by omega)
      exact mul_le_mul_of_nonneg_left hle (Nat.cast_nonneg _)
  have hsum : ((n - d : ℕ) : ℚ) * x + d * x = n * x := by
    rw [← add_mul, Nat.cast_sub hmod.le, sub_add_cancel]
  calc inclusiveCut rnd n i data
      = rnd (rnd (rnd (kth data j 0 * (n - d : ℕ)) + rnd (kth data (j + 1) 0 * d)) / n) := rfl
    _ ≤ rnd (rnd (n * x) / n) := hrnd (div_le_div_of_nonneg_right
        (hrnd ((add_le_add hlow hhigh).trans_eq hsum)) hn'.le)
    _ = rnd x := by rw [hscales n le_rfl, mul_div_cancel_left₀ _ hn'.ne']
    _ = x := by simpa using hscales 1 hn

/-- With more data than that beyond `2 * n` times the bound, the cut is beyond the bound: one of
them weighs in, and no rounding takes that weight away. -/
theorem lt_inclusiveCut_of_countP {rnd : ℚ → ℚ} {x : ℚ} (hrnd : Monotone rnd)
    (hscales : Scales rnd (2 * n) x) (hn : 0 < n) (hi : i ≤ n) (hx : 0 < x) (hdata : ∀ a ∈ data, 0 ≤ a)
    (h : (n - i) * (data.length - 1) < n * data.countP (2 * n * x < ·)) :
    x < inclusiveCut rnd n i data := by
  have hcount := countP_lt_add (2 * n * x) data
  have hlen : 0 < data.length := by
    refine Nat.pos_of_ne_zero (fun h0 ↦ ?_)
    rw [List.length_eq_zero_iff.mp h0] at h
    simp at h
  have hmod := Nat.mod_lt (i * (data.length - 1)) hn
  have hn' : (0 : ℚ) < n := by exact_mod_cast hn
  obtain ⟨hj, hranks⟩ := lt_rank_add hn hi h
  set j := i * (data.length - 1) / n
  set d := i * (data.length - 1) % n
  have hzero : rnd 0 = 0 := by simpa using hscales 0 (Nat.zero_le _)
  have htwo : rnd (2 * x) = 2 * x := hscales 2 (by omega)
  have hmul : rnd (2 * n * x) = 2 * n * x := by simpa using hscales (2 * n) le_rfl
  have hnonneg : ∀ k (w : ℕ), 0 ≤ rnd (kth data k 0 * w) := fun k w ↦
    hzero.symm.trans_le (hrnd (mul_nonneg (le_kth hdata k) (Nat.cast_nonneg w)))
  have hweighs : ∀ k (w : ℕ), data.length ≤ k + data.countP (2 * n * x < ·) → k < data.length → 0 < w →
      2 * n * x ≤ rnd (kth data k 0 * w) := by
    intro k w hk hk' hw
    have hslow : 2 * n * x < kth data k 0 := (lt_kth_iff hk' 0 _).mpr (by omega)
    have hw' : (1 : ℚ) ≤ w := by exact_mod_cast hw
    rw [← hmul]
    exact hrnd (hslow.le.trans (le_mul_of_one_le_right (le_kth hdata k) hw'))
  have hsum : 2 * n * x ≤ rnd (kth data j 0 * (n - d : ℕ)) + rnd (kth data (j + 1) 0 * d) := by
    obtain hslow | ⟨hd, hinside, hslow⟩ := hranks
    · have hweight := hweighs j (n - d) (by omega) (by omega) (by omega)
      linarith [hnonneg (j + 1) d]
    · have hweight := hweighs (j + 1) d (by omega) (by omega) hd
      linarith [hnonneg j (n - d)]
  calc x < 2 * x := by linarith
    _ = rnd (2 * n * x / n) := by rw [mul_right_comm, mul_div_cancel_right₀ _ hn'.ne', htwo]
    _ ≤ rnd (rnd (rnd (kth data j 0 * (n - d : ℕ)) + rnd (kth data (j + 1) 0 * d)) / n) :=
        hrnd (div_le_div_of_nonneg_right (hmul.symm.trans_le (hrnd hsum)) hn'.le)
    _ = inclusiveCut rnd n i data := rfl

end Cuts

def cut? (rnd : ℚ → ℚ) (n i : ℕ) (ordered : List ℚ) : Option ℚ := do
  let rank := i * (ordered.length - 1)
  let low ← ordered[rank / n]?
  let high ← ordered[rank / n + 1]?
  return rnd (rnd (rnd (low * (n - rank % n : ℕ)) + rnd (high * (rank % n : ℕ))) / n)

def inclusive? (rnd : ℚ → ℚ) (n : ℕ) (data : List ℚ) : Option (List ℚ) :=
  if data.length < 2 then none
  else (List.range' 1 (n - 1)).mapM (fun i ↦ cut? rnd n i (sorted data))

section Total

variable {rnd : ℚ → ℚ} {data : List ℚ} {n i : ℕ}

theorem cut?_eq (hi : i < n) (h : 2 ≤ data.length) :
    cut? rnd n i (sorted data) = some (inclusiveCut rnd n i data) := by
  have hlen : (sorted data).length = data.length := List.length_insertionSort _ _
  have hrank : i * (data.length - 1) / n < data.length - 1 :=
    (Nat.div_lt_iff_lt_mul (by omega)).mpr
      (by rw [Nat.mul_comm]; exact Nat.mul_lt_mul_of_pos_left hi (by omega))
  have hlow : i * (data.length - 1) / n < (sorted data).length := by omega
  have hhigh : i * (data.length - 1) / n + 1 < (sorted data).length := by omega
  simp only [cut?, inclusiveCut, hlen, List.getElem?_eq_getElem hlow,
    List.getElem?_eq_getElem hhigh, List.getD_eq_getElem _ _ hlow, List.getD_eq_getElem _ _ hhigh]
  rfl

theorem mapM_eq_some {α β : Type} {f : α → Option β} {g : α → β} {l : List α}
    (h : ∀ a ∈ l, f a = some (g a)) : l.mapM f = some (l.map g) := by
  induction l with
  | nil => rfl
  | cons a l ih =>
    rw [List.forall_mem_cons] at h
    rw [List.mapM_cons, h.1, ih h.2]
    rfl

theorem inclusive?_eq (h : 2 ≤ data.length) :
    inclusive? rnd n data = some ((List.range' 1 (n - 1)).map (inclusiveCut rnd n · data)) := by
  rw [inclusive?, if_neg (by omega)]
  refine mapM_eq_some (fun i hi ↦ cut?_eq ?_ h)
  have hrange := List.mem_range'_1.mp hi
  omega

end Total

end Quantiles
