import HealingGateway.Sequential

namespace HealingGateway.Health

open Programs Programs.Prog Redis

/-- One call on some provider's window, with what the outside answers to it. -/
inductive Traffic
  | record (provider : String) (o : Outside) (outcome : Outcome) (latencyMs : ℚ)
  | snapshot (provider : String) (o : Outside)

namespace Traffic

variable (config : GatewayConfig) (windowS : Option ℤ)

def outside : Traffic → Outside
  | record _ o _ _ => o
  | snapshot _ o => o

def sample? (provider : String) : Traffic → Option Sample
  | record p o outcome latencyMs =>
    if p = provider then some ⟨o.now, o.uuid, outcome, latencyMs⟩ else none
  | snapshot .. => none

def exec : Traffic → Db → Db
  | record p o outcome latencyMs, db =>
    ((Health.record config p outcome latencyMs windowS none).run o.answers db).2
  | snapshot p o, db => ((Health.snapshot config p windowS none).run o.answers db).2

end Traffic

variable (config : GatewayConfig) (windowS : Option ℤ)

def trafficStore (history : List Traffic) : Db :=
  history.foldl (fun db a ↦ a.exec config windowS db) (fun _ ↦ none)

def callLog (provider : String) (history : List Traffic) : List Sample :=
  history.filterMap (Traffic.sample? provider)

def covered (now : ℤ) (log : List Sample) : List Sample :=
  log.filter (fun s ↦ now - windowMs config windowS < s.recordedAt ∧ s.recordedAt ≤ now)

/-- No call is earlier than the one before it. -/
def InOrder (history : List Traffic) : Prop :=
  (history.map (·.outside.now)).Pairwise (· ≤ ·)

instance (history : List Traffic) : Decidable (InOrder history) :=
  inferInstanceAs (Decidable (List.Pairwise _ _))

def tokensOf (log : List Sample) : List String := log.map (·.uuid.token)

theorem trafficStore_append_singleton (history : List Traffic) (a : Traffic) :
    trafficStore config windowS (history ++ [a]) =
      a.exec config windowS (trafficStore config windowS history) := by
  simp [trafficStore]

theorem callLog_append_singleton (provider : String) (history : List Traffic) (a : Traffic) :
    callLog provider (history ++ [a]) =
      callLog provider history ++ (a.sample? provider).toList := by
  simp [callLog, List.filterMap_append, List.filterMap_cons]
  cases a.sample? provider <;> rfl

theorem key_injective : Function.Injective key := by
  intro p q h
  simpa [key] using h

section Steps

variable {config windowS} {provider : String} {o : Outside} {db : Db} {log : List Sample} {now : ℤ}

theorem only_record (outcome : Outcome) (latencyMs : ℚ) (now? : Option ℤ) :
    (record config provider outcome latencyMs windowS now?).Only
      (fun c ↦ ∀ k ∈ c.keys, k = key provider) := by
  refine Only.bind (only_nowOr (fun k hk ↦ by cases hk) now?) (fun now ↦ ?_)
  refine Only.bind (only_ask (fun k hk ↦ by cases hk)) (fun uuid ↦ only_redis ?_)
  simp [Cmd.keys, Command.keys, recordWrites, Write.key]

theorem record_frame {p : String} (hne : p ≠ provider) (outcome : Outcome) (latencyMs : ℚ) :
    ((record config p outcome latencyMs windowS none).run o.answers db).2 (key provider) =
      db (key provider) := by
  refine (only_record outcome latencyMs none).run_frame (f := fun db ↦ db (key provider)) ?_ db
  intro c db' hc
  exact o.answers_frame (fun hk ↦ hne (key_injective (hc _ hk).symm)) db'

theorem snapshot_store :
    ((snapshot config provider windowS none).run o.answers db).2 = db := by
  rw [Breaker.snapshot_now, Breaker.run_snapshot_eq]

/-- What is in a provider's window and what was recorded for it, seen from `now` on. -/
structure Logged (config : GatewayConfig) (windowS : Option ℤ) (now : ℤ) (provider : String)
    (log : List Sample) (db : Db) : Prop where
  window : WindowHolds (windowMs config windowS) now provider log db
  past : ∀ s ∈ log, s.recordedAt ≤ now

theorem Logged.later {now' : ℤ} (h : Logged config windowS now provider log db) (hn : now ≤ now') :
    Logged config windowS now' provider log db :=
  ⟨h.window.mono hn, fun s hs ↦ (h.past s hs).trans hn⟩

theorem Logged.record (h : Logged config windowS o.now provider log db) (outcome : Outcome)
    (latencyMs : ℚ) (hnew : ∀ s ∈ log, s.uuid.token ≠ o.uuid.token) :
    Logged config windowS o.now provider (log ++ [⟨o.now, o.uuid, outcome, latencyMs⟩])
      ((Health.record config provider outcome latencyMs windowS none).run o.answers db).2 := by
  obtain ⟨z, hz, hperm⟩ := h.window o.now le_rfl
  obtain ⟨db', hrun, hentry, -⟩ := Breaker.run_healthRecord config windowS
    ⟨o.now, o.uuid, outcome, latencyMs⟩ rfl rfl hz
  rw [Breaker.healthRecord_now, hrun]
  refine ⟨?_, fun s hs ↦ ?_⟩
  · exact WindowHolds.record (Breaker.windowMs_whole _ _) h.past hperm hnew hentry
  · rcases List.mem_append.mp hs with hs | hs
    · exact h.past s hs
    · rw [List.mem_singleton.mp hs]

theorem Logged.exec (h : Logged config windowS now provider log db) {a : Traffic}
    (hn : now ≤ a.outside.now)
    (hnew : ∀ s ∈ log, ∀ s' ∈ a.sample? provider, s.uuid.token ≠ s'.uuid.token) :
    Logged config windowS a.outside.now provider (log ++ (a.sample? provider).toList)
      (a.exec config windowS db) := by
  cases a with
  | snapshot p o =>
    have hstore : Traffic.exec config windowS (.snapshot p o) db = db := snapshot_store
    rw [hstore]
    simpa [Traffic.sample?] using h.later hn
  | record p o outcome latencyMs =>
    by_cases hp : p = provider
    · subst hp
      simp only [Traffic.sample?, if_true, Option.toList_some] at hnew ⊢
      exact (h.later hn).record outcome latencyMs (fun s hs ↦ hnew s hs _ rfl)
    · simp only [Traffic.sample?, if_neg hp, Option.toList_none, List.append_nil]
      have h' := h.later hn
      exact ⟨h'.window.congr (record_frame hp outcome latencyMs), h'.past⟩

end Steps

section Histories

variable {config : GatewayConfig} {windowS : Option ℤ} {provider : String}

theorem inOrder_append {history : List Traffic} {a : Traffic} (h : InOrder (history ++ [a])) :
    InOrder history ∧ ∀ b ∈ history, b.outside.now ≤ a.outside.now := by
  rw [InOrder, List.map_append, List.pairwise_append] at h
  exact ⟨h.1, fun b hb ↦ h.2.2 _ (List.mem_map_of_mem hb) _ (by simp)⟩

/-- After some traffic in order every provider's window shows what was recorded for it. -/
theorem logged_trafficStore {history : List Traffic} (horder : InOrder history)
    (htok : (tokensOf (callLog provider history)).Nodup) {now : ℤ}
    (hnow : ∀ a ∈ history, a.outside.now ≤ now) :
    Logged config windowS now provider (callLog provider history)
      (trafficStore config windowS history) := by
  induction history using List.reverseRec generalizing now with
  | nil => exact ⟨windowHolds_of_none rfl _ _, fun s hs ↦ by cases hs⟩
  | append_singleton history a ih =>
    obtain ⟨horder, hlater⟩ := inOrder_append horder
    rw [callLog_append_singleton, tokensOf, List.map_append, List.nodup_append] at htok
    rw [trafficStore_append_singleton, callLog_append_singleton]
    have hbefore := ih horder htok.1 hlater
    refine (hbefore.exec le_rfl (fun s hs s' hs' he ↦ ?_)).later (hnow a (by simp))
    exact htok.2.2 _ (List.mem_map_of_mem hs) _
      (List.mem_map_of_mem (Option.mem_toList.mpr hs')) he

theorem Summarises.perm {rs rs' : List Reading} {snap : HealthSnapshot}
    (h : Summarises provider rs snap) (hp : rs.Perm rs') : Summarises provider rs' snap := by
  have hcounts := hp.filter Reading.counts
  have hfail : (failures rs).Perm (failures rs') := (hp.filter _).map _
  refine ⟨h.provider, ?_, ?_, ?_, ?_, h.successRate, h.trippableErrorRate, fun name ↦ ?_, ?_, ?_⟩
  · rw [h.samples, hp.length_eq]
  · rw [h.successes, hp.countP_eq]
  · rw [h.trippableErrors, hp.countP_eq]
  · rw [h.healthSamples, hcounts.length_eq]
  · rw [h.errorsByType, hfail.count_eq]
    simp only [hfail.mem_iff]
  · rw [h.errors_sum, hfail.length_eq]
  · rw [h.percentiles, percentiles_perm (hcounts.map _)]

/-- A snapshot of a window that shows a log summarises the calls that it covers. -/
theorem Logged.snapshot {o : Outside} {db : Db} {log : List Sample}
    (h : Logged config windowS o.now provider log db) :
    ∃ snap, ((Health.snapshot config provider windowS none).run o.answers db).1 = .ok snap ∧
      Summarises provider ((covered config windowS o.now log).map Sample.reading) snap := by
  obtain ⟨z, hz, hperm⟩ := h.window o.now le_rfl
  obtain ⟨calls, hcalls, hperm'⟩ := perm_map_iff.mp hperm
  have hmembers : members (z.filter (fun i ↦ decide (o.now - windowMs config windowS <
      SortedSets.score i))) = calls.map Sample.text := by
    rw [members, SortedSets.SortedSet.items_filter, hcalls, List.map_map]
    rfl
  have hcovered : covered config windowS o.now log =
      log.filter (fun s ↦ decide (o.now - windowMs config windowS < s.recordedAt)) := by
    refine List.filter_congr (fun s hs ↦ ?_)
    simp only [h.past s hs, and_true]
  obtain ⟨snap, hsnap, hsum⟩ := summarise_readings provider (readable_texts calls)
  rw [readings_texts] at hsum
  refine ⟨snap, ?_, hsum.perm ?_⟩
  · rw [Breaker.snapshot_now, Breaker.run_snapshot_eq, hz]
    simp only [Except.mapError, Except.bind, hmembers, hsnap]
  · rw [hcovered]
    exact hperm'.map _

end Histories

/-- A snapshot after any traffic in order is the summary of the calls recorded for that
provider that its window covers, each of which is spelled by a member that reads back. -/
theorem snapshot_summarises_log (config : GatewayConfig) (windowS : Option ℤ)
    (provider : String) {history : List Traffic} (horder : InOrder history)
    (htok : (tokensOf (callLog provider history)).Nodup) {o : Outside}
    (ho : ∀ a ∈ history, a.outside.now ≤ o.now) :
    (∃ snap, ((snapshot config provider windowS none).run o.answers
        (trafficStore config windowS history)).1 = .ok snap ∧
      Summarises provider
        ((covered config windowS o.now (callLog provider history)).map Sample.reading) snap) ∧
      ∀ s ∈ callLog provider history,
        readMember s.text = .ok (s.outcome, Numerals.roundTenth s.latencyMs) :=
  ⟨(logged_trafficStore horder htok ho).snapshot, fun s _ ↦ readMember_text s⟩

def twoProviders : List Traffic :=
  [.record "groq" { now := 1000 } .timeout 100,
    .record "ollama" { now := 2000, uuid := .numbered 1 } .ok 200,
    .snapshot "ollama" { now := 2000 },
    .record "groq" { now := 3000, uuid := .numbered 2 } .ok 149.96]

theorem snapshot_summarises_log_twoProviders :
    ∃ snap, ((snapshot .shipped "groq" none none).run (Outside.answers { now := 61000 })
        (trafficStore .shipped none twoProviders)).1 = .ok snap ∧
      Summarises "groq" [(.ok, ⟨1500, 0⟩)] snap := by
  have hlog : (covered .shipped none 61000 (callLog "groq" twoProviders)).map Sample.reading =
      [(.ok, ⟨1500, 0⟩)] := by decide +kernel
  rw [← hlog]
  exact (@snapshot_summarises_log .shipped none "groq" twoProviders (by decide +kernel)
    (by decide +kernel) { now := 61000 } (by decide +kernel)).1

end HealingGateway.Health
