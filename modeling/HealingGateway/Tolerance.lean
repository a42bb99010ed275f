import HealingGateway.Sequential

namespace HealingGateway.Breaker

open Programs Programs.Prog Numerals Health Redis Floats

def windowMembers (config : GatewayConfig) (provider : String) (now : ℤ) (db : Db) :
    Except Redis.Error (List String) :=
  (asZset (live now db (Health.key provider))).map (fun z ↦
    members (z.filter (fun i ↦ decide (now - windowMs config none < SortedSets.score i))))

/-- The calls among some members that say something about the provider. -/
def healthReadings (ms : List String) : List Reading := (readings ms).filter Reading.counts

def errorRate (rs : List Reading) : ℚ := rs.countP (·.1.trippable) / rs.length

def readingsP95 (rs : List Reading) : ℚ := (percentiles binary64 (rs.map Reading.latency)).2.1

def slowFailures (ms : ℚ) (rs : List Reading) : ℕ :=
  rs.countP (fun r ↦ !r.1.isOk && decide (ms < r.latency))

/-- Enough calls, failures within the tolerated rate, and successes within the budget, as floats
tell it. -/
structure Tolerable (cfg : BreakerConfig) (budgetMs : ℚ) (rs : List Reading) : Prop where
  enough : cfg.minSamples ≤ rs.length
  rate : binary64 (errorRate rs) ≤ cfg.errorThreshold.toFloat
  successes : ∀ r ∈ rs, r.1.isOk = true → r.latency ≤ budgetMs

theorem countP_trippable_healthReadings (ms : List String) :
    (healthReadings ms).countP (·.1.trippable) = (readings ms).countP (·.1.trippable) := by
  rw [healthReadings, List.countP_filter]
  exact List.countP_congr (fun r _ ↦ by simp +contextual [Reading.counts])

section Store

variable {config : GatewayConfig} {provider : String} {p : ProviderConfig} {o : Outside} {db : Db}
  {ms : List String}

theorem dueAt_windowMembers (hw : windowMembers config provider o.now db = .ok ms)
    (hr : Readable ms) (budgetMs : Decimal) :
    dueAt config provider budgetMs o db =
      decide (config.breaker.minSamples ≤ (healthReadings ms).length ∧
        (config.breaker.errorThreshold.toFloat < binary64 (errorRate (healthReadings ms)) ∨
          budgetMs.toFloat < readingsP95 (healthReadings ms))) := by
  obtain ⟨snap, hsnap, hsum⟩ := summarise_readings provider hr
  rw [dueAt, snapshot_now, run_snapshot_eq]
  unfold windowMembers at hw
  rcases hz : asZset (live o.now db (Health.key provider)) with e | z
  · rw [hz] at hw
    cases hw
  · rw [hz] at hw
    simp only [Except.map, Except.ok.injEq] at hw
    have hsamples : snap.healthSamples = (healthReadings ms).length := hsum.healthSamples
    have hrate : snap.trippableErrorRate = errorRate (healthReadings ms) := by
      rw [hsum.trippableErrorRate, errorRate, countP_trippable_healthReadings,
        ← hsum.trippableErrors, hsamples]
      split
      · next h => simp [h]
      · rfl
    have hp95 : snap.p95Ms = readingsP95 (healthReadings ms) := congrArg (·.2.1) hsum.percentiles
    simp only [Except.mapError, Except.bind, hw, hsnap, tripDue, hsamples, hrate, hp95]
    split
    · next hlt => simp [not_le.mpr hlt]
    · next hge => simp [not_lt.mp hge]

def afterRecord (config : GatewayConfig) (provider : String) (outcome : Outcome) (o : Outside)
    (db : Db) : Db := ((record config provider outcome none).run o.answers db).2

theorem persisted_afterRecord (hp : config.providers.lookup provider = some p)
    (hc : CircuitAt config provider .closed db)
    (hw : windowMembers config provider o.now db = .ok ms) (hr : Readable ms)
    (ht : Tolerable config.breaker p.latencyBudgetMs.toFloat (healthReadings ms))
    (outcome : Outcome) :
    persisted config provider o (afterRecord config provider outcome o db) =
      .ok (if p.latencyBudgetMs.toFloat < readingsP95 (healthReadings ms) then .opened
        else .closed) := by
  obtain ⟨r, db', hrun, hc', -⟩ := run_record_circuit (o := o) hc hp outcome
  rw [afterRecord, record_now, hrun, persisted_eq hc', dueAt_windowMembers hw hr]
  simp only [ht.enough, not_lt.mpr ht.rate, false_or, true_and]
  by_cases hslow : p.latencyBudgetMs.toFloat < readingsP95 (healthReadings ms)
  · rw [decide_eq_true hslow, if_pos hslow]
    rfl
  · rw [decide_eq_false hslow, if_neg hslow]
    rfl

end Store

section Latencies

variable {budget : ℚ} {rs : List Reading} {latencies : List ℚ}

theorem slowFailures_eq {x : ℚ} (h : ∀ r ∈ rs, r.1.isOk = true → r.latency ≤ x) :
    slowFailures x rs = (rs.map Reading.latency).countP (x < ·) := by
  rw [slowFailures, List.countP_map]
  refine List.countP_congr (fun r hr ↦ ?_)
  simp only [Bool.and_eq_true, Bool.not_eq_true', decide_eq_true_eq, Function.comp_apply]
  refine ⟨And.right, fun hlt ↦ ⟨?_, hlt⟩⟩
  by_contra hok
  exact absurd hlt (not_lt.mpr (h r hr (by simpa using hok)))

theorem p95_le (hscales : Scales binary64 100 budget)
    (h : 20 * latencies.countP (budget < ·) < latencies.length) :
    (percentiles binary64 latencies).2.1 ≤ budget := by
  match latencies with
  | [] => simp at h
  | [l] =>
    have hnone : [l].countP (budget < ·) = 0 := by simp only [List.length_singleton] at h; omega
    have hle : l ≤ budget := by simpa using hnone
    exact hle
  | a :: b :: rest =>
    rw [percentiles_of_two _ (by simp)]
    refine Quantiles.inclusiveCut_le_of_countP binary64_mono hscales (by decide) (by decide) (by simp) ?_
    omega

theorem lt_p95 (hscales : Scales binary64 200 budget) (hb : 0 < budget) (hpos : ∀ l ∈ latencies, 0 ≤ l)
    (hlen : 0 < latencies.length) (h : latencies.length ≤ 20 * latencies.countP (200 * budget < ·)) :
    budget < (percentiles binary64 latencies).2.1 := by
  match latencies with
  | [] => cases hlen
  | [l] =>
    have hslow : 200 * budget < l := by
      by_contra hle
      simp [hle] at h
    exact lt_trans (by linarith) hslow
  | a :: b :: rest =>
    rw [percentiles_of_two _ (by simp)]
    refine Quantiles.lt_inclusiveCut_of_countP binary64_mono hscales (by decide) (by decide) hb hpos ?_
    norm_num at h ⊢
    omega

end Latencies

/-- In a window of tolerated failures and quick successes the circuit stays closed exactly
when the p95 of all the calls, the failed ones among them, is within the budget. Where the
arithmetic is exact on the budget, failures slower than it leave the circuit closed, whatever their
latencies, as long as they are fewer than one call in twenty; one in twenty at two hundred times
the budget opens it. -/
theorem tolerated_failures {config : GatewayConfig} {provider : String} {p : ProviderConfig}
    {o : Outside} {db : Db} {ms : List String} (hp : config.providers.lookup provider = some p)
    (hc : CircuitAt config provider .closed db)
    (hw : windowMembers config provider o.now db = .ok ms) (hr : Readable ms)
    (ht : Tolerable config.breaker p.latencyBudgetMs.toFloat (healthReadings ms))
    (outcome : Outcome) :
    let rs := healthReadings ms
    let budget := p.latencyBudgetMs.toFloat
    let state := persisted config provider o (afterRecord config provider outcome o db)
    (state = .ok .closed ↔ readingsP95 rs ≤ budget) ∧
      (Scales binary64 100 budget → 20 * slowFailures budget rs < rs.length → state = .ok .closed) ∧
      (Scales binary64 200 budget → 0 < budget → (∀ r ∈ rs, 0 ≤ r.latency) → 0 < rs.length →
        rs.length ≤ 20 * slowFailures (200 * budget) rs → state = .ok .opened) := by
  intro rs budget state
  have hstate : state = .ok (if budget < readingsP95 rs then .opened else .closed) :=
    persisted_afterRecord hp hc hw hr ht outcome
  rw [hstate]
  refine ⟨?_, fun hscales hfew ↦ ?_, fun hscales hb hpos hlen hmany ↦ ?_⟩
  · by_cases hslow : budget < readingsP95 rs
    · rw [if_pos hslow]
      exact iff_of_false (by simp) (not_le.mpr hslow)
    · rw [if_neg hslow]
      exact iff_of_true rfl (not_lt.mp hslow)
  · rw [slowFailures_eq ht.successes, ← List.length_map (f := Reading.latency)] at hfew
    have hp95 : readingsP95 rs ≤ budget := p95_le hscales hfew
    rw [if_neg (not_lt.mpr hp95)]
  · have hle : budget ≤ 200 * budget := by linarith
    rw [slowFailures_eq (fun r hr hok ↦ (ht.successes r hr hok).trans hle),
      ← List.length_map (f := Reading.latency)] at hmany
    have hlatencies : ∀ l ∈ rs.map Reading.latency, 0 ≤ l := List.forall_mem_map.mpr hpos
    have hp95 : budget < readingsP95 rs := lt_p95 hscales hb hlatencies (by simpa using hlen) hmany
    rw [if_pos hp95]

def holding (provider : String) (calls : List Sample) : Db :=
  Function.update (fun _ ↦ none) (Health.key provider)
    (some ⟨.zset (calls.foldl (fun z s ↦ z.add s.text s.recordedAt) .empty), none⟩)

theorem circuitAt_holding (config : GatewayConfig) (provider : String) (calls : List Sample) :
    CircuitAt config provider .closed (holding provider calls) :=
  ⟨[], .inl ⟨Function.update_of_ne (key_ne_healthKey _ _) _ _, rfl⟩, rfl⟩

def quickAndSlow (n : ℕ) (slowMs : ℚ) : List Sample :=
  (List.range n).map (fun (i : ℕ) ↦ ⟨1000 + i, .numbered i, .ok, 100⟩) ++
    [⟨1000 + n, .numbered n, .timeout, slowMs⟩]

def oneTimeout : List Sample := quickAndSlow 7 30000

theorem windowMembers_oneTimeout :
    windowMembers .shipped "groq" 1007 (holding "groq" oneTimeout) =
      .ok (oneTimeout.map Sample.text) := by
  decide +kernel

theorem scales_groq : Scales binary64 200 (⟨50000, 0⟩ : Decimal).toFloat := by
  have hbudget : (⟨50000, 0⟩ : Decimal).toFloat = (5000 : ℕ) := by decide +kernel
  rw [hbudget]
  exact scales_natCast (by decide)

theorem tolerable_quickAndSlow {n : ℕ} {slowMs : ℚ}
    (h : Tolerable GatewayConfig.shipped.breaker (⟨50000, 0⟩ : Decimal).toFloat
      (((quickAndSlow n slowMs).map Sample.reading).filter Reading.counts)) :
    Tolerable GatewayConfig.shipped.breaker (⟨50000, 0⟩ : Decimal).toFloat
      (healthReadings ((quickAndSlow n slowMs).map Sample.text)) := by
  rwa [healthReadings, readings_texts]

/-- One failure in eight is tolerated, and its latency opens the circuit. -/
theorem one_timeout_opens :
    ∃ p, GatewayConfig.shipped.providers.lookup "groq" = some p ∧
      CircuitAt .shipped "groq" .closed (holding "groq" oneTimeout) ∧
      windowMembers .shipped "groq" 1007 (holding "groq" oneTimeout) =
        .ok (oneTimeout.map Sample.text) ∧
      Tolerable GatewayConfig.shipped.breaker p.latencyBudgetMs.toFloat
        (healthReadings (oneTimeout.map Sample.text)) ∧
      persisted .shipped "groq" { now := 1007 }
        (afterRecord .shipped "groq" .timeout { now := 1007 } (holding "groq" oneTimeout)) =
          .ok .opened :=
  ⟨_, rfl, circuitAt_holding _ _ _, windowMembers_oneTimeout,
    tolerable_quickAndSlow ⟨by decide +kernel, by decide +kernel, by decide +kernel⟩, by decide +kernel⟩

/-- A timeout of thirty seconds among twenty quick successes is let pass, and one of more than a
quarter of an hour among nineteen is not. -/
theorem tolerated_failures_quickAndSlow :
    persisted .shipped "groq" { now := 1020 } (afterRecord .shipped "groq" .timeout { now := 1020 }
        (holding "groq" (quickAndSlow 20 30000))) = .ok .closed ∧
      persisted .shipped "groq" { now := 1019 } (afterRecord .shipped "groq" .timeout { now := 1019 }
        (holding "groq" (quickAndSlow 19 1000001))) = .ok .opened := by
  have hwindow : windowMembers .shipped "groq" 1020 (holding "groq" (quickAndSlow 20 30000)) =
      .ok ((quickAndSlow 20 30000).map Sample.text) := by decide +kernel
  have hwindow' : windowMembers .shipped "groq" 1019 (holding "groq" (quickAndSlow 19 1000001)) =
      .ok ((quickAndSlow 19 1000001).map Sample.text) := by decide +kernel
  constructor
  · refine (@tolerated_failures .shipped "groq" _ { now := 1020 } _ _ rfl
      (circuitAt_holding .shipped "groq" _) hwindow (readable_texts _)
      (tolerable_quickAndSlow ⟨by decide +kernel, by decide +kernel, by decide +kernel⟩) .timeout).2.1 ?_ ?_
    · exact fun k hk ↦ scales_groq k (hk.trans (by decide))
    · rw [healthReadings, readings_texts]
      decide +kernel
  · have hopens := (@tolerated_failures .shipped "groq" _ { now := 1019 } _ _ rfl
      (circuitAt_holding .shipped "groq" _) hwindow' (readable_texts _)
      (tolerable_quickAndSlow ⟨by decide +kernel, by decide +kernel, by decide +kernel⟩) .timeout).2.2
    rw [healthReadings, readings_texts] at hopens
    exact hopens scales_groq (by decide +kernel) (by decide +kernel) (by decide +kernel) (by decide +kernel)

end HealingGateway.Breaker
