import Mathlib.Algebra.BigOperators.Group.List.Basic
import Mathlib.Algebra.Order.Field.Rat
import Mathlib.Data.List.Nodup
import Mathlib.Data.List.Induction
import Mathlib.Data.List.Sort
import Mathlib.Tactic.Linarith

namespace Collectors

section Families

variable {L S X M : Type}

abbrev Family (L S : Type) := List (L × S)

abbrev Sample (L X : Type) := L × X

def note [DecidableEq L] (start : S) (add : X → S → S) (x : Sample L X) : Family L S → Family L S
  | [] => [(x.1, add x.2 start)]
  | (l, s) :: f => if l = x.1 then (l, add x.2 s) :: f else (l, s) :: note start add x f

def noteAll [DecidableEq L] (start : S) (add : X → S → S) (f : Family L S) (xs : List (Sample L X)) : Family L S :=
  xs.foldl (fun f x ↦ note start add x f) f

variable [AddCommMonoid M]

/-- A query: a measure of the series with such labels, added up. -/
def total (p : L → Bool) (measure : S → M) (f : Family L S) : M :=
  ((f.filter (fun s ↦ p s.1)).map (fun s ↦ measure s.2)).sum

theorem total_cons (p : L → Bool) (measure : S → M) (l : L) (s : S) (f : Family L S) :
    total p measure ((l, s) :: f) = (if p l then measure s else 0) + total p measure f := by
  cases hp : p l <;> simp [total, hp]

/-- A measure under which a sample adds its weight to a series. -/
structure Weighs (start : S) (add : X → S → S) (measure : S → M) (weight : X → M) : Prop where
  start : measure start = 0
  add : ∀ x s, measure (add x s) = measure s + weight x

variable [DecidableEq L] {start : S} {add : X → S → S} {measure : S → M} {weight : X → M}

theorem Weighs.total_note (h : Weighs start add measure weight) (p : L → Bool) (x : Sample L X)
    (f : Family L S) : total p measure (note start add x f) =
      total p measure f + if p x.1 then weight x.2 else 0 := by
  induction f with
  | nil => rw [note, total_cons, h.add, h.start, zero_add, add_comm]
  | cons series f ih =>
    obtain ⟨l, s⟩ := series
    unfold note
    split
    · next hl =>
      subst hl
      rw [total_cons, total_cons, h.add]
      split
      · rw [add_right_comm]
      · rw [add_zero]
    · rw [total_cons, total_cons, ih, add_assoc]

/-- A query over a collector adds up the weights of the samples with such labels. -/
theorem Weighs.total_noteAll (h : Weighs start add measure weight) (p : L → Bool) (f : Family L S)
    (xs : List (Sample L X)) : total p measure (noteAll start add f xs) =
      total p measure f + (xs.map (fun x ↦ if p x.1 then weight x.2 else 0)).sum := by
  induction xs generalizing f with
  | nil => simp [noteAll]
  | cons x xs ih =>
    rw [noteAll, List.foldl_cons, ← noteAll, ih, h.total_note, List.map_cons, List.sum_cons, add_assoc]

/-- What a series shows, where one that never sprang up shows nothing. -/
def value (measure : S → M) (f : Family L S) (l : L) : M := ((f.lookup l).map measure).getD 0

theorem value_eq_total {f : Family L S} (hf : (f.map Prod.fst).Nodup) (l : L) :
    value measure f l = total (· = l) measure f := by
  induction f with
  | nil => rfl
  | cons series f ih =>
    obtain ⟨l', s⟩ := series
    obtain ⟨hfresh, hf⟩ := List.nodup_cons.mp hf
    rw [total_cons, ← ih hf]
    unfold value
    rw [List.lookup_cons]
    by_cases hl : l' = l
    · subst hl
      have hnone : f.lookup l' = none := by
        rw [List.lookup_eq_none_iff]
        intro series hseries
        have hne : l' ≠ series.1 := fun h ↦ hfresh (List.mem_map.mpr ⟨series, hseries, h.symm⟩)
        simpa using hne
      simp [hnone]
    · have hne : (l == l') = false := by simpa using Ne.symm hl
      simp [hl, hne]

theorem keys_note (x : Sample L X) (f : Family L S) (l : L) :
    l ∈ (note start add x f).map Prod.fst ↔ l = x.1 ∨ l ∈ f.map Prod.fst := by
  induction f with
  | nil => simp [note]
  | cons series f ih =>
    obtain ⟨l', s⟩ := series
    unfold note
    split
    · next hl => simp [hl]
    · rw [List.map_cons, List.mem_cons, ih, List.map_cons, List.mem_cons, or_left_comm]

theorem keys_noteAll (f : Family L S) (xs : List (Sample L X)) (l : L) (h : l ∈ f.map Prod.fst) :
    l ∈ (noteAll start add f xs).map Prod.fst := by
  induction xs generalizing f with
  | nil => exact h
  | cons x xs ih => exact ih _ ((keys_note x f l).mpr (.inr h))

theorem nodup_note (x : Sample L X) {f : Family L S} (hf : (f.map Prod.fst).Nodup) :
    ((note start add x f).map Prod.fst).Nodup := by
  induction f with
  | nil => simp [note]
  | cons series f ih =>
    obtain ⟨l, s⟩ := series
    obtain ⟨hfresh, hf⟩ := List.nodup_cons.mp hf
    unfold note
    split
    · exact List.nodup_cons.mpr ⟨hfresh, hf⟩
    · next hl => exact List.nodup_cons.mpr ⟨fun h ↦ ((keys_note x f l).mp h).elim hl hfresh, ih hf⟩

theorem nodup_noteAll {f : Family L S} (hf : (f.map Prod.fst).Nodup) (xs : List (Sample L X)) :
    ((noteAll start add f xs).map Prod.fst).Nodup := by
  induction xs generalizing f with
  | nil => exact hf
  | cons x xs ih => exact ih (nodup_note x hf)

theorem Weighs.value_noteAll (h : Weighs start add measure weight) (xs : List (Sample L X)) (l : L) :
    value measure (noteAll start add [] xs) l =
      (xs.map (fun x ↦ if x.1 = l then weight x.2 else 0)).sum := by
  have hnodup : ((noteAll start add ([] : Family L S) xs).map Prod.fst).Nodup :=
    nodup_noteAll (by simp) xs
  rw [value_eq_total hnodup, h.total_noteAll]
  simp [total]

end Families

section Counters

variable {L : Type} [DecidableEq L]

abbrev Counter (L : Type) := Family L ℚ

def plus (x s : ℚ) : ℚ := s + x

def Counter.inc (l : L) (c : Counter L) : Counter L := note 0 plus (l, 1) c

def Counter.incBy (l : L) (x : ℚ) (c : Counter L) : Option (Counter L) :=
  if x < 0 then none else some (note 0 plus (l, x) c)

theorem weighs_plus : Weighs (0 : ℚ) plus id id := ⟨rfl, fun _ _ ↦ rfl⟩

theorem Counter.incBy_eq_some {l : L} {x : ℚ} {c c' : Counter L} :
    c.incBy l x = some c' ↔ 0 ≤ x ∧ c' = note 0 plus (l, x) c := by
  unfold Counter.incBy
  split
  · next hx => simp [not_le.mpr hx]
  · next hx => simp [not_lt.mp hx, eq_comm]

end Counters

section Registries

variable {A E L S X : Type} [DecidableEq L] {start : S} {add : X → S → S} {collect : E → A → Option A}
  {series : A → Family L S} {samples : E → List (Sample L X)}

def collectAll (collect : E → A → Option A) (a : A) (events : List E) : Option A :=
  events.foldlM (fun a e ↦ collect e a) a

/-- A collector of a registry has taken in the samples of all events. -/
theorem series_collectAll
    (hcollect : ∀ e a a', collect e a = some a' → series a' = noteAll start add (series a) (samples e))
    {a a' : A} {events : List E} (h : collectAll collect a events = some a') :
    series a' = noteAll start add (series a) (events.flatMap samples) := by
  induction events generalizing a with
  | nil =>
    cases h
    rfl
  | cons e events ih =>
    rw [collectAll, List.foldlM_cons] at h
    obtain ⟨b, hb, h⟩ := Option.bind_eq_some_iff.mp h
    rw [ih h, hcollect e a b hb, List.flatMap_cons, noteAll, noteAll, noteAll, List.foldl_append]

end Registries

/-- Observations counted by the first bound they do not exceed, or beyond all of them. -/
structure Histogram (bounds : List ℚ) where
  buckets : List (ℚ × ℕ)
  beyond : ℕ := 0
  sum : ℚ := 0
  bounds_eq : buckets.map Prod.fst = bounds

namespace Histogram

def put (x : ℚ) : List (ℚ × ℕ) → Option (List (ℚ × ℕ))
  | [] => none
  | (b, n) :: buckets => if x ≤ b then some ((b, n + 1) :: buckets) else (put x buckets).map ((b, n) :: ·)

theorem put_bounds {x : ℚ} {buckets buckets' : List (ℚ × ℕ)} (h : put x buckets = some buckets') :
    buckets'.map Prod.fst = buckets.map Prod.fst := by
  induction buckets generalizing buckets' with
  | nil => cases h
  | cons bucket buckets ih =>
    obtain ⟨b, n⟩ := bucket
    unfold put at h
    split at h
    · cases h
      rfl
    · obtain ⟨rest, hrest, rfl⟩ := Option.map_eq_some_iff.mp h
      rw [List.map_cons, ih hrest, List.map_cons]

theorem putD_bounds (x : ℚ) (buckets : List (ℚ × ℕ)) :
    ((put x buckets).getD buckets).map Prod.fst = buckets.map Prod.fst := by
  cases h : put x buckets with
  | none => rfl
  | some buckets' => exact put_bounds h

theorem put_sum {x : ℚ} {buckets buckets' : List (ℚ × ℕ)} (h : put x buckets = some buckets') :
    (buckets'.map Prod.snd).sum = (buckets.map Prod.snd).sum + 1 := by
  induction buckets generalizing buckets' with
  | nil => cases h
  | cons bucket buckets ih =>
    obtain ⟨b, n⟩ := bucket
    unfold put at h
    split at h
    · cases h
      simp only [List.map_cons, List.sum_cons]
      omega
    · obtain ⟨rest, hrest, rfl⟩ := Option.map_eq_some_iff.mp h
      rw [List.map_cons, List.sum_cons, ih hrest, List.map_cons, List.sum_cons, add_assoc]

variable {bounds : List ℚ}

def empty (bounds : List ℚ) : Histogram bounds where
  buckets := bounds.map (fun b ↦ (b, 0))
  bounds_eq := by simp [Function.comp_def]

def observe (x : ℚ) (h : Histogram bounds) : Histogram bounds where
  buckets := (put x h.buckets).getD h.buckets
  beyond := if (put x h.buckets).isSome then h.beyond else h.beyond + 1
  sum := h.sum + x
  bounds_eq := (putD_bounds x h.buckets).trans h.bounds_eq

def cumulative (acc : ℕ) : List (ℚ × ℕ) → List (ℚ × ℕ)
  | [] => []
  | (b, n) :: buckets => (b, acc + n) :: cumulative (acc + n) buckets

def count (h : Histogram bounds) : ℕ := (h.buckets.map Prod.snd).sum + h.beyond

/-- `le="b"`. -/
def upTo (b : ℚ) (h : Histogram bounds) : ℕ := ((cumulative 0 h.buckets).lookup b).getD 0

/-- What the buckets up to a bound hold. -/
def held (b : ℚ) (buckets : List (ℚ × ℕ)) : ℕ := ((buckets.filter (·.1 ≤ b)).map Prod.snd).sum

theorem held_cons (b b' : ℚ) (n : ℕ) (buckets : List (ℚ × ℕ)) :
    held b ((b', n) :: buckets) = (if b' ≤ b then n else 0) + held b buckets := by
  unfold held
  split <;> simp [*]

theorem held_of_lt {b : ℚ} {buckets : List (ℚ × ℕ)} (h : ∀ bucket ∈ buckets, b < bucket.1) :
    held b buckets = 0 := by
  have hnone : buckets.filter (·.1 ≤ b) = [] := by simpa using h
  rw [held, hnone]
  rfl

theorem cumulative_eq_held {buckets : List (ℚ × ℕ)} (hsorted : (buckets.map Prod.fst).Pairwise (· < ·))
    {b : ℚ} (hb : b ∈ buckets.map Prod.fst) (acc : ℕ) :
    (cumulative acc buckets).lookup b = some (acc + held b buckets) := by
  induction buckets generalizing acc with
  | nil => cases hb
  | cons bucket buckets ih =>
    obtain ⟨b', n⟩ := bucket
    obtain ⟨hlt, hsorted⟩ := List.pairwise_cons.mp hsorted
    have hlt' : ∀ bucket ∈ buckets, b' < bucket.1 := fun bucket h ↦ hlt _ (List.mem_map_of_mem h)
    rw [cumulative, List.lookup_cons, held_cons]
    rcases List.mem_cons.mp hb with rfl | hb
    · simp [held_of_lt hlt']
    · have hb' : b' < b := hlt b hb
      have hne : (b == b') = false := by simpa using hb'.ne'
      rw [hne, ih hsorted hb, if_pos hb'.le, add_assoc]

theorem held_put {x b : ℚ} {buckets : List (ℚ × ℕ)} (hsorted : (buckets.map Prod.fst).Pairwise (· < ·))
    (hb : b ∈ buckets.map Prod.fst) :
    held b ((put x buckets).getD buckets) = held b buckets + if x ≤ b then 1 else 0 := by
  induction buckets with
  | nil => cases hb
  | cons bucket buckets ih =>
    obtain ⟨b', n⟩ := bucket
    obtain ⟨hlt, hsorted⟩ := List.pairwise_cons.mp hsorted
    have hle : b' ≤ b := (List.mem_cons.mp hb).elim (fun h ↦ h.ge) (fun h ↦ (hlt b h).le)
    unfold put
    split
    · next hx =>
      rw [Option.getD_some, held_cons, held_cons, if_pos hle, if_pos hle, if_pos (hx.trans hle)]
      omega
    · next hx =>
      have hrest : ((put x buckets).map ((b', n) :: ·)).getD ((b', n) :: buckets) =
          (b', n) :: (put x buckets).getD buckets := by cases put x buckets <;> rfl
      rw [hrest, held_cons, held_cons]
      rcases List.mem_cons.mp hb with rfl | hb
      · have hlt' : ∀ bucket ∈ (put x buckets).getD buckets, b < bucket.1 := by
          intro bucket hbucket
          refine hlt _ ?_
          rw [← putD_bounds x buckets]
          exact List.mem_map_of_mem hbucket
        have hbeyond : ∀ bucket ∈ buckets, b < bucket.1 := fun bucket h ↦ hlt _ (List.mem_map_of_mem h)
        rw [held_of_lt hlt', held_of_lt hbeyond, if_neg hx]
      · rw [ih hsorted hb, add_assoc]

theorem weighs_upTo (hsorted : bounds.Pairwise (· < ·)) {b : ℚ} (hb : b ∈ bounds) :
    Weighs (empty bounds) observe (upTo b) (fun x ↦ if x ≤ b then 1 else 0) := by
  have hascend : ∀ h : Histogram bounds, (h.buckets.map Prod.fst).Pairwise (· < ·) := fun h ↦ by
    rwa [h.bounds_eq]
  have hmem : ∀ h : Histogram bounds, b ∈ h.buckets.map Prod.fst := fun h ↦ by rwa [h.bounds_eq]
  have hexported : ∀ h : Histogram bounds, upTo b h = held b h.buckets := by
    intro h
    rw [upTo, cumulative_eq_held (hascend h) (hmem h), Option.getD_some, zero_add]
  constructor
  · rw [hexported]
    have hzero : ∀ n ∈ ((empty bounds).buckets.filter (·.1 ≤ b)).map Prod.snd, n = 0 := by
      simp only [empty, List.mem_map, List.mem_filter]
      rintro n ⟨_, ⟨⟨_, _, rfl⟩, -⟩, rfl⟩
      rfl
    exact List.sum_eq_zero hzero
  · intro x h
    rw [hexported, hexported]
    exact held_put (hascend h) (hmem h)

theorem weighs_count : Weighs (empty bounds) observe count (fun _ ↦ 1) := by
  constructor
  · have hzero : ∀ n ∈ (empty bounds).buckets.map Prod.snd, n = 0 := by simp [empty]
    rw [count, List.sum_eq_zero hzero]
    rfl
  · intro x h
    simp only [observe, count]
    cases hput : put x h.buckets with
    | some buckets =>
      have hsum := put_sum hput
      simp only [Option.getD_some, Option.isSome_some, if_true]
      omega
    | none => rfl

end Histogram

end Collectors
