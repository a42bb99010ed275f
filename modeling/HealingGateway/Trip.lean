import HealingGateway.Sequential

namespace HealingGateway.Breaker

open Health Redis

variable {config : GatewayConfig} {provider : String} {p : ProviderConfig}

theorem evidence_append_later {window now : ℤ} {calls : List Sample} {s : Sample}
    (hs : s.counts = false) : evidence window now (calls ++ [s]) = evidence window now calls := by
  simp [evidence, List.filter_append, hs]

theorem record_of_closed {m : Monitor} (hc : m.circuit = .closed) (budgetMs : Numerals.Decimal)
    (now : ℤ) (outcome : Outcome) :
    m.record config budgetMs now outcome =
      ⟨if m.tripsAt config budgetMs now then .opened now config.breaker.cooldownS else .closed,
        m.calls⟩ := by
  obtain ⟨c, calls⟩ := m
  obtain rfl : c = .closed := hc
  simp [Monitor.record, Monitor.read, Circuit.record, Circuit.advance, Circuit.cooled]

theorem closed_of_advance {c : Circuit} {now : ℤ} (h : (c.advance config now).state = .closed) :
    c = .closed := by
  unfold Circuit.advance at h
  split at h
  · cases h
  · cases c with
    | closed => rfl
    | opened => cases h
    | halfOpen => cases h

/-- Recording a call on a closed circuit opens it exactly when the calls recorded since the
last probing phase, as far as the window still covers them and they count, are enough and
bad enough, as floats tell it. -/
theorem opens_iff_tripCondition (hp : config.providers.lookup provider = some p)
    (history : List Op) (o o' : Outside) (outcome : Outcome) (latencyMs : ℚ)
    (hchron : Chronological (history ++ [.observe o o' outcome latencyMs]))
    (htok : (tokens (history ++ [.observe o o' outcome latencyMs])).Nodup)
    (hclosed : reported config provider o' (run config provider history).db = .ok .closed) :
    persisted config provider o'
        (run config provider (history ++ [.observe o o' outcome latencyMs])).db = .ok .opened ↔
      TripCondition Floats.binary64 config.breaker p.latencyBudgetMs (evidence (windowMs config none) o'.now
        (run config provider (history ++ [.observe o o' outcome latencyMs])).calls) := by
  obtain ⟨hcalls, hrep⟩ := represents_run hp hchron htok
  obtain ⟨hchron₀, _, hlater⟩ := chronological_append.mp hchron
  rw [tokens_append, List.nodup_append] at htok
  have hbefore := (represents_run hp hchron₀ htok.1).2 o'.now
    (fun u hu ↦ hlater u hu _ (by simp [Op.times]))
  have hafter := hrep o'.now (times_le_last hchron)
  rw [reported_eq hbefore.circuit] at hclosed
  have hc := closed_of_advance (Except.ok.inj hclosed)
  rw [persisted_eq hafter.circuit, hcalls, monitor_append_singleton, Monitor.step,
    record_of_closed (m := (monitor config p.latencyBudgetMs history).note _) hc]
  by_cases ht : ((monitor config p.latencyBudgetMs history).note
      ⟨o.now, o.uuid, outcome, latencyMs⟩).tripsAt config p.latencyBudgetMs o'.now
  · rw [if_pos ht]
    exact iff_of_true rfl ht
  · rw [if_neg ht]
    exact iff_of_false (by simp [Circuit.state]) ht

def eightTimeouts : List Op :=
  (List.range 8).map (fun (n : ℕ) ↦
    .observe { now := 1000 + n, uuid := .numbered n } { now := 1000 + n } .timeout 100)

theorem opens_iff_tripCondition_eightTimeouts :
    persisted .shipped "groq" { now := 1007 } (run .shipped "groq" eightTimeouts).db = .ok .opened :=
  (@opens_iff_tripCondition .shipped "groq" _ rfl
    (eightTimeouts.take 7) { now := 1007, uuid := .numbered 7 } { now := 1007 } .timeout 100
    (by decide +kernel) (by decide +kernel) (by decide +kernel)).mpr (by decide +kernel)

/-- Seventeen successes just under groq's budget of five seconds, and a timeout just over it. -/
def nearBudget : List Op :=
  (List.range 17).map (fun (n : ℕ) ↦
    .observe { now := 1000 + n, uuid := .numbered n } { now := 1000 + n } .ok (49991 / 10)) ++
    [.observe { now := 1017, uuid := .numbered 17 } { now := 1017 } .timeout (50051 / 10)]

/-- The p95 of these calls is the budget, and the floats make more of it. -/
theorem nearBudget_opens :
    ∃ p, GatewayConfig.shipped.providers.lookup "groq" = some p ∧ Chronological nearBudget ∧
      (tokens nearBudget).Nodup ∧
      reported .shipped "groq" { now := 1017 } (run .shipped "groq" (nearBudget.take 17)).db =
        .ok .closed ∧
      persisted .shipped "groq" { now := 1017 } (run .shipped "groq" nearBudget).db = .ok .opened ∧
      p95 id (evidence (windowMs .shipped none) 1017 (run .shipped "groq" nearBudget).calls) =
        p.latencyBudgetMs.toRat ∧
      ¬ TripCondition id GatewayConfig.shipped.breaker p.latencyBudgetMs
        (evidence (windowMs .shipped none) 1017 (run .shipped "groq" nearBudget).calls) :=
  ⟨_, rfl, by decide +kernel, by decide +kernel, by decide +kernel, by decide +kernel,
    by decide +kernel, by decide +kernel⟩

end HealingGateway.Breaker
