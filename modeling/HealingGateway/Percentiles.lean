import HealingGateway.Summaries

namespace HealingGateway.Health

open Quantiles OrderStatistics

/-- `percentiles` with everything in it that could raise. -/
def percentilesBy? (rnd : ℚ → ℚ) (latencies : List ℚ) : Option (ℚ × ℚ × ℚ) :=
  match latencies with
  | [] => some (0, 0, 0)
  | [l] => some (l, l, l)
  | _ => do
    let cuts ← inclusive? rnd 100 latencies
    return (← cuts[49]?, ← cuts[94]?, ← cuts[98]?)

def percentiles? (latencies : List ℚ) : Option (ℚ × ℚ × ℚ) := percentilesBy? id latencies

/-- However the arithmetic rounds, none of the sizes is one that the quantiles refuse. -/
theorem percentilesBy?_eq (rnd : ℚ → ℚ) (latencies : List ℚ) :
    percentilesBy? rnd latencies = some (percentiles rnd latencies) := by
  match latencies with
  | [] => rfl
  | [l] => rfl
  | a :: b :: rest =>
    have hcuts : inclusive? rnd 100 (a :: b :: rest) = some _ := inclusive?_eq (by simp)
    simp only [percentilesBy?, percentiles, hcuts]
    rfl

theorem percentiles_exact (latencies : List ℚ) :
    percentiles id latencies = (inclusiveCut id 100 50 latencies, inclusiveCut id 100 95 latencies,
      inclusiveCut id 100 99 latencies) := by
  match latencies with
  | [] => simp [percentiles, inclusiveCut, sorted]
  | [l] => simp [percentiles, inclusiveCut, sorted]
  | _ :: _ :: _ => rfl

/-- What p50, p95 and p99 are to the latencies they summarise. -/
structure PercentileLaws (latencies : List ℚ) (p50 p95 p99 : ℚ) : Prop where
  perm : ∀ latencies', latencies'.Perm latencies → percentiles? latencies' = some (p50, p95, p99)
  ordered : ∀ h : latencies ≠ [],
    latencies.min h ≤ p50 ∧ p50 ≤ p95 ∧ p95 ≤ p99 ∧ p99 ≤ latencies.max h
  p50_at : p50 = valueAt (kth latencies · 0) (50 / 100 * (latencies.length - 1 : ℕ))
  p95_at : p95 = valueAt (kth latencies · 0) (95 / 100 * (latencies.length - 1 : ℕ))
  p99_at : p99 = valueAt (kth latencies · 0) (99 / 100 * (latencies.length - 1 : ℕ))
  increase : ∀ i x (h : i < latencies.length), latencies[i] ≤ x →
    ∃ q50 q95 q99, percentiles? (latencies.set i x) = some (q50, q95, q99) ∧
      p50 ≤ q50 ∧ p95 ≤ q95 ∧ p99 ≤ q99
  within : ∀ budget, latencies ≠ [] → (∀ l ∈ latencies, l ≤ budget) → p95 ≤ budget
  exceeding : ∀ budget, latencies ≠ [] → (∀ l ∈ latencies, budget < l) → budget < p95

theorem percentile_laws (latencies : List ℚ) : ∃ p50 p95 p99,
    percentiles? latencies = some (p50, p95, p99) ∧ PercentileLaws latencies p50 p95 p99 := by
  have heq : ∀ latencies : List ℚ, percentiles? latencies = some (inclusiveCut id 100 50 latencies,
      inclusiveCut id 100 95 latencies, inclusiveCut id 100 99 latencies) := fun latencies ↦ by
    rw [percentiles?, percentilesBy?_eq, percentiles_exact]
  have hmin : ∀ i ≤ 100, ∀ h : latencies ≠ [], latencies.min h ≤ inclusiveCut id 100 i latencies :=
    fun i hi ↦ min_le_inclusiveCut (by omega) hi
  have hmax : ∀ i ≤ 100, ∀ h : latencies ≠ [], inclusiveCut id 100 i latencies ≤ latencies.max h :=
    fun i hi ↦ inclusiveCut_le_max (by omega) hi
  refine ⟨_, _, _, heq latencies, ?_⟩
  constructor
  · intro latencies' hp
    rw [heq, inclusiveCut_perm hp, inclusiveCut_perm hp, inclusiveCut_perm hp]
  · intro h
    exact ⟨hmin 50 (by omega) h, inclusiveCut_mono (by omega) (by omega) (by omega) _,
      inclusiveCut_mono (by omega) (by omega) (by omega) _, hmax 99 (by omega) h⟩
  · exact inclusiveCut_eq_valueAt (by omega) 50 latencies
  · exact inclusiveCut_eq_valueAt (by omega) 95 latencies
  · exact inclusiveCut_eq_valueAt (by omega) 99 latencies
  · intro i x hi hx
    have hle := fun j ↦ inclusiveCut_le_inclusiveCut (forall₂_set hi hx) 100 j
    exact ⟨_, _, _, heq _, hle 50, hle 95, hle 99⟩
  · intro budget h hall
    exact (hmax 95 (by omega) h).trans ((List.max_le_iff h).mpr hall)
  · intro budget h hall
    exact (hall _ (List.min_mem h)).trans_le (hmin 95 (by omega) h)

end HealingGateway.Health
