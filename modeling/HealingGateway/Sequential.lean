import HealingGateway.MonitorStore
import Mathlib.Data.List.Induction

namespace HealingGateway.Breaker

open Programs Programs.Prog Health Redis

/-- One operation on a provider's circuit, with what the outside answers to its parts.
Recording a call is `_observe`: the health window first and then the breaker. -/
inductive Op
  | read (o : Outside)
  | allows (o : Outside)
  | observe (o o' : Outside) (outcome : Outcome) (latencyMs : ℚ)

namespace Op

variable (config : GatewayConfig) (provider : String)

def last : Op → Outside
  | read o => o
  | allows o => o
  | observe _ o' _ _ => o'

def times : Op → List ℤ
  | read o => [o.now]
  | allows o => [o.now]
  | observe o o' _ _ => [o.now, o'.now]

def samples : Op → List Sample
  | observe o _ outcome latencyMs => [⟨o.now, o.uuid, outcome, latencyMs⟩]
  | _ => []

def exec : Op → Db → Db
  | read o, db => ((stateOf config provider none).run o.answers db).2
  | allows o, db => ((Breaker.allows config provider none).run o.answers db).2
  | observe o o' outcome latencyMs, db =>
    match (Health.record config provider outcome latencyMs none none).run o.answers db with
    | (.ok _, db) => ((Breaker.record config provider outcome none).run o'.answers db).2
    | (.error _, db) => db

end Op

variable (config : GatewayConfig) (provider : String)

def seen (o : Outside) (db : Db) : Except Exn CircuitState :=
  ((stateOf config provider none).run o.answers db).1

/-- What the breaker hash holds, before any lazy transition. -/
def stored (o : Outside) (db : Db) : Except Exn CircuitState :=
  ((asHash (live o.now db (key provider))).mapError errorExn).bind (readCircuit config provider)

/-- The state `state_of` reports. -/
def reported (o : Outside) (db : Db) : Except Exn State :=
  (seen config provider o db).map (·.state)

/-- The state the breaker hash holds. -/
def persisted (o : Outside) (db : Db) : Except Exn State :=
  (stored config provider o db).map (·.state)

def entersHalfOpen (op : Op) (db : Db) : Bool :=
  persisted config provider op.last db = .ok .opened ∧
    reported config provider op.last db = .ok .halfOpen

/-- A store together with the calls recorded since the circuit last entered half-open. -/
structure Run where
  db : Db
  calls : List Sample

def Run.start : Run := ⟨fun _ ↦ none, []⟩

def Run.step (r : Run) (op : Op) : Run where
  db := op.exec config provider r.db
  calls := if entersHalfOpen config provider op r.db then [] else r.calls ++ op.samples

def run (history : List Op) : Run := history.foldl (Run.step config provider) .start

/-- No operation is earlier than the one before it. -/
def Chronological (history : List Op) : Prop := (history.flatMap Op.times).Pairwise (· ≤ ·)

def tokens (history : List Op) : List String :=
  (history.flatMap Op.samples).map (·.uuid.token)

instance (history : List Op) : Decidable (Chronological history) :=
  inferInstanceAs (Decidable (List.Pairwise _ _))

@[simp] theorem run_append_singleton (history : List Op) (op : Op) :
    run config provider (history ++ [op]) =
      (run config provider history).step config provider op := by
  simp [run]

def Monitor.step (budgetMs : Numerals.Decimal) (m : Monitor) : Op → Monitor
  | .read o => m.read config o.now
  | .allows o => m.read config o.now
  | .observe o o' outcome latencyMs =>
    (m.note ⟨o.now, o.uuid, outcome, latencyMs⟩).record config budgetMs o'.now outcome

def monitor (budgetMs : Numerals.Decimal) (history : List Op) : Monitor :=
  history.foldl (Monitor.step config budgetMs) .start

@[simp] theorem monitor_append_singleton (budgetMs : Numerals.Decimal) (history : List Op)
    (op : Op) : monitor config budgetMs (history ++ [op]) =
      (monitor config budgetMs history).step config budgetMs op := by
  simp [monitor]

section Steps

variable {config provider} {o o' : Outside} {db : Db} {c : Circuit} {p : ProviderConfig}

theorem stateOf_now :
    (stateOf config provider none).run o.answers db =
      (stateOf config provider (some o.now)).run o.answers db := by
  rw [stateOf, stateOf, o.run_nowOr_none, nowOr_some, done_bind]

theorem record_now (outcome : Outcome) :
    (record config provider outcome none).run o.answers db =
      (record config provider outcome (some o.now)).run o.answers db := by
  rw [record, record, o.run_nowOr_none, nowOr_some, done_bind]

theorem healthRecord_now {windowS : Option ℤ} (outcome : Outcome) (latencyMs : ℚ) :
    (Health.record config provider outcome latencyMs windowS none).run o.answers db =
      (Health.record config provider outcome latencyMs windowS (some o.now)).run o.answers db := by
  rw [Health.record, Health.record, o.run_nowOr_none, nowOr_some, done_bind]

theorem allows_store :
    ((allows config provider none).run o.answers db).2 =
      ((stateOf config provider none).run o.answers db).2 := by
  rw [allows, run_bind]
  rcases (stateOf config provider none).run o.answers db with ⟨_ | s, db'⟩
  · rfl
  · simp only
    cases s.state <;> rfl

theorem stored_eq (h : CircuitAt config provider c db) :
    stored config provider o db = .ok (c.view config provider) := by
  obtain ⟨raw, hraw, hread⟩ := h
  simp only [stored, hraw.asHash, Except.mapError, Except.bind, hread]

theorem persisted_eq (h : CircuitAt config provider c db) :
    persisted config provider o db = .ok c.state := by
  rw [persisted, stored_eq h]
  rfl

theorem seen_eq (h : CircuitAt config provider c db) :
    ∃ s, seen config provider o db = .ok s ∧ Shows s config (c.advance config o.now) := by
  obtain ⟨s, db', hrun, hshows, -⟩ := run_stateOf_circuit (o := o) h
  exact ⟨s, by rw [seen, stateOf_now, hrun], hshows⟩

theorem reported_eq (h : CircuitAt config provider c db) :
    reported config provider o db = .ok (c.advance config o.now).state := by
  obtain ⟨s, hseen, hshows⟩ := seen_eq (o := o) h
  rw [reported, hseen]
  exact congrArg Except.ok hshows.1

theorem entersHalfOpen_eq (h : CircuitAt config provider c db) (op : Op) :
    entersHalfOpen config provider op db = c.cooled op.last.now := by
  rw [entersHalfOpen, persisted_eq h, reported_eq h, Circuit.advance]
  cases c with
  | closed => rfl
  | halfOpen cooldown n => rfl
  | opened t cooldown =>
    cases hc : (Circuit.opened t cooldown).cooled op.last.now <;> simp [Circuit.state]

def Circuit.step (config : GatewayConfig) (due : Bool) (c : Circuit) : Op → Circuit
  | .read o => c.advance config o.now
  | .allows o => c.advance config o.now
  | .observe _ o' outcome _ => c.record config o'.now outcome due

theorem zsetAt_recordedEntry {z : SortedSets.SortedSet ℤ String} {window : ℤ} {s : Sample}
    (h : db (Health.key provider) = recordedEntry window s z) :
    ZsetAt db (Health.key provider) := by
  simp only [recordedEntry] at h
  split at h
  · exact .inl h
  · exact .inr ⟨_, _, h⟩

/-- The store keeps this circuit, beside a window that can be written. -/
structure Kept (config : GatewayConfig) (provider : String) (c : Circuit) (db : Db) : Prop where
  circuit : CircuitAt config provider c db
  window : ZsetAt db (Health.key provider)

theorem Kept.stateOf (h : Kept config provider c db) :
    ∃ s db', (stateOf config provider none).run o.answers db = (.ok s, db') ∧
      Shows s config (c.advance config o.now) ∧
      Kept config provider (c.advance config o.now) db' := by
  obtain ⟨s, db', hrun, hshows, hc, hclear⟩ := run_stateOf_circuit (o := o) h.circuit
  exact ⟨s, db', by rw [stateOf_now, hrun], hshows, hc, h.window.cleared hclear⟩

theorem Kept.record (h : Kept config provider c db)
    (hp : config.providers.lookup provider = some p) (outcome : Outcome) :
    ∃ due, Kept config provider (c.record config o.now outcome due)
      ((Breaker.record config provider outcome none).run o.answers db).2 := by
  obtain ⟨r, db', hrun, hc, hclear⟩ := run_record_circuit (o := o) h.circuit hp outcome
  rw [record_now, hrun]
  exact ⟨_, hc, h.window.cleared hclear⟩

theorem Kept.note (h : Kept config provider c db) (outcome : Outcome) (latencyMs : ℚ) :
    ∃ r db', (Health.record config provider outcome latencyMs none none).run o.answers db =
      (.ok r, db') ∧ Kept config provider c db' := by
  obtain ⟨z, hz⟩ := h.window.asZset o.now
  obtain ⟨db', hrun, hentry, hframe⟩ :=
    run_healthRecord config none ⟨o.now, o.uuid, outcome, latencyMs⟩ rfl rfl hz
  obtain ⟨raw, hraw, hread⟩ := h.circuit
  refine ⟨(), db', by rw [healthRecord_now, hrun], ?_⟩
  exact ⟨⟨raw, hraw.congr (hframe _ (key_ne_healthKey _ _)), hread⟩, zsetAt_recordedEntry hentry⟩

/-- Every operation moves the kept circuit as the abstract one moves. -/
theorem Kept.step (h : Kept config provider c db)
    (hp : config.providers.lookup provider = some p) (op : Op) :
    ∃ due, Kept config provider (c.step config due op) (op.exec config provider db) := by
  cases op with
  | read o =>
    obtain ⟨s, db', hrun, -, hkept⟩ := h.stateOf (o := o)
    rw [Op.exec, hrun]
    exact ⟨false, hkept⟩
  | allows o =>
    obtain ⟨s, db', hrun, -, hkept⟩ := h.stateOf (o := o)
    rw [Op.exec, allows_store, hrun]
    exact ⟨false, hkept⟩
  | observe o o' outcome latencyMs =>
    obtain ⟨r, db', hrun, hkept⟩ := h.note (o := o) outcome latencyMs
    simp only [Op.exec, hrun]
    exact hkept.record hp outcome

theorem dueAt_eq {m : Monitor} (h : Represents config provider o.now m db)
    (budgetMs : Numerals.Decimal) :
    dueAt config provider budgetMs o db = decide (m.tripsAt config budgetMs o.now) := by
  obtain ⟨z, hz, hperm⟩ := h.window o.now le_rfl
  obtain ⟨calls, hcalls, hperm'⟩ := perm_map_iff.mp hperm
  obtain ⟨snap, hsnap, hsamples, hrate, hp95⟩ := summarise_texts provider calls
  have hmembers : members (z.filter (fun i ↦ decide (o.now - windowMs config none <
      SortedSets.score i))) = calls.map Sample.text := by
    rw [members, SortedSets.SortedSet.items_filter, hcalls, List.map_map]
    rfl
  have hev : (calls.filter Sample.counts).Perm
      (evidence (windowMs config none) o.now m.calls) := by
    refine (hperm'.filter _).trans ?_
    rw [List.filter_filter, evidence]
    refine List.Perm.of_eq (List.filter_congr (fun s hs ↦ ?_))
    rw [Bool.and_comm]
    simp only [h.past s hs, and_true]
  rw [dueAt, snapshot_now, run_snapshot_eq, hz]
  simp only [Except.mapError, Except.bind, hmembers, hsnap]
  simp only [tripDue, Monitor.tripsAt, TripCondition, hsamples, hrate, hp95, hev.length_eq,
    trippableRate_perm hev, p95_perm hev, Numerals.Decimal.toFloat]
  split
  · next hlt => simp [not_le.mpr hlt]
  · next hge => simp [not_lt.mp hge]

variable {m : Monitor} {now : ℤ}

theorem represents_advance (h : Represents config provider now m db) (hn : now ≤ o.now) {c : Circuit}
    {db' : Db} (hc : CircuitAt config provider c db')
    (hclear : db' (Health.key provider) =
      if m.circuit.cooled o.now then none else db (Health.key provider)) :
    Represents config provider o.now
      ⟨c, if m.circuit.cooled o.now then [] else m.calls⟩ db' := by
  split at hclear
  · next hcool =>
    rw [if_pos hcool]
    exact ⟨hc, windowHolds_of_none hclear _ _, by simp⟩
  · next hcool =>
    rw [if_neg hcool]
    exact ⟨hc, (h.later hn).window.congr hclear, (h.later hn).past⟩

theorem represents_read (h : Represents config provider now m db) (hn : now ≤ o.now) :
    Represents config provider o.now (m.read config o.now)
      ((stateOf config provider none).run o.answers db).2 := by
  obtain ⟨s, db', hrun, -, hc, hclear⟩ := run_stateOf_circuit (o := o) h.circuit
  rw [stateOf_now, hrun]
  exact represents_advance h hn hc hclear

theorem represents_note (h : Represents config provider now m db) (hn : now ≤ o.now)
    (outcome : Outcome) (latencyMs : ℚ) (hnew : ∀ s ∈ m.calls, s.uuid.token ≠ o.uuid.token) :
    ∃ db', (Health.record config provider outcome latencyMs none none).run o.answers db =
        (.ok (), db') ∧
      Represents config provider o.now (m.note ⟨o.now, o.uuid, outcome, latencyMs⟩) db' := by
  obtain ⟨z, hz, hperm⟩ := h.window o.now hn
  obtain ⟨db', hrun, hentry, hframe⟩ :=
    run_healthRecord config none ⟨o.now, o.uuid, outcome, latencyMs⟩ rfl rfl hz
  refine ⟨db', by rw [healthRecord_now]; exact hrun, ?_, ?_, ?_⟩
  · obtain ⟨raw, hraw, hread⟩ := h.circuit
    exact ⟨raw, hraw.congr (hframe _ (key_ne_healthKey _ _)), hread⟩
  · exact WindowHolds.record (windowMs_whole _ _) (fun c hc ↦ (h.past c hc).trans hn) hperm hnew
      hentry
  · intro s hs
    rcases List.mem_append.mp hs with hs | hs
    · exact (h.past s hs).trans hn
    · rw [List.mem_singleton.mp hs]

theorem represents_record (h : Represents config provider now m db) (hn : now ≤ o.now)
    (hp : config.providers.lookup provider = some p) (outcome : Outcome) :
    Represents config provider o.now (m.record config p.latencyBudgetMs o.now outcome)
      ((record config provider outcome none).run o.answers db).2 := by
  obtain ⟨r, db', hrun, hc, hclear⟩ := run_record_circuit (o := o) h.circuit hp outcome
  rw [record_now, hrun]
  rw [dueAt_eq (h.later hn)] at hc
  exact represents_advance h hn hc hclear

end Steps

section Histories

variable {config : GatewayConfig} {provider : String} {p : ProviderConfig}

theorem chronological_append {history : List Op} {op : Op} :
    Chronological (history ++ [op]) ↔ Chronological history ∧ op.times.Pairwise (· ≤ ·) ∧
      ∀ u ∈ history.flatMap Op.times, ∀ v ∈ op.times, u ≤ v := by
  simp [Chronological, List.flatMap_append, List.pairwise_append]

/-- No instant of a history is later than that of its last read of the circuit. -/
theorem times_le_last {history : List Op} {op : Op} (h : Chronological (history ++ [op])) :
    ∀ u ∈ (history ++ [op]).flatMap Op.times, u ≤ op.last.now := by
  obtain ⟨-, hsorted, hlater⟩ := chronological_append.mp h
  have hop : ∀ u ∈ op.times, u ≤ op.last.now := by
    cases op <;> simp_all [Op.times, Op.last]
  have hlast : op.last.now ∈ op.times := by cases op <;> simp [Op.last, Op.times]
  intro u hu
  rw [List.flatMap_append, List.mem_append] at hu
  rcases hu with hu | hu
  · exact hlater u hu _ hlast
  · exact hop u (by simpa using hu)

theorem tokens_append {history : List Op} {op : Op} :
    tokens (history ++ [op]) = tokens history ++ op.samples.map (·.uuid.token) := by
  simp [tokens, List.flatMap_append]

theorem calls_subset (config : GatewayConfig) (provider : String) (history : List Op) :
    ∀ s ∈ (run config provider history).calls, s.uuid.token ∈ tokens history := by
  induction history using List.reverseRec with
  | nil => simp [run, Run.start]
  | append_singleton history op ih =>
    intro s hs
    rw [tokens_append]
    simp only [run_append_singleton, Run.step] at hs
    split at hs
    · cases hs
    · rcases List.mem_append.mp hs with hs | hs
      · exact List.mem_append_left _ (ih s hs)
      · exact List.mem_append_right _ (List.mem_map_of_mem hs)

theorem represents_run (hp : config.providers.lookup provider = some p) {history : List Op}
    (hchron : Chronological history) (htok : (tokens history).Nodup) :
    (run config provider history).calls = (monitor config p.latencyBudgetMs history).calls ∧
      ∀ t, (∀ u ∈ history.flatMap Op.times, u ≤ t) → Represents config provider t
        (monitor config p.latencyBudgetMs history) (run config provider history).db := by
  induction history using List.reverseRec with
  | nil =>
    refine ⟨rfl, fun t _ ↦ ⟨⟨[], .inl ⟨rfl, rfl⟩, rfl⟩, windowHolds_of_none rfl _ _, ?_⟩⟩
    simp [monitor, Monitor.start]
  | append_singleton history op ih =>
    obtain ⟨hchron, hsorted, hlater⟩ := chronological_append.mp hchron
    rw [tokens_append, List.nodup_append] at htok
    obtain ⟨hcalls, hrep⟩ := ih hchron htok.1
    have hsub := calls_subset config provider history
    rw [hcalls] at hsub
    have henter : entersHalfOpen config provider op (run config provider history).db =
        (monitor config p.latencyBudgetMs history).circuit.cooled op.last.now := by
      have hlast : op.last.now ∈ op.times := by cases op <;> simp [Op.last, Op.times]
      exact entersHalfOpen_eq (hrep op.last.now (fun u hu ↦ hlater u hu _ hlast)).circuit op
    simp only [run_append_singleton, monitor_append_singleton, Run.step, henter, hcalls]
    generalize monitor config p.latencyBudgetMs history = m at hsub hrep henter
    cases op with
    | read o =>
      have h := represents_read (hrep o.now (fun u hu ↦ hlater u hu _ (by simp [Op.times]))) le_rfl
      refine ⟨by simp [Monitor.step, Monitor.read, Op.samples, Op.last], fun t ht ↦ h.later ?_⟩
      exact ht _ (by simp [Op.times])
    | allows o =>
      have h := represents_read (hrep o.now (fun u hu ↦ hlater u hu _ (by simp [Op.times]))) le_rfl
      refine ⟨by simp [Monitor.step, Monitor.read, Op.samples, Op.last], fun t ht ↦ ?_⟩
      simp only [Op.exec, allows_store]
      exact h.later (ht _ (by simp [Op.times]))
    | observe o o' outcome latencyMs =>
      have hnew : ∀ s ∈ m.calls, s.uuid.token ≠ o.uuid.token := fun s hs ↦
        htok.2.2 _ (hsub s hs) _ (by simp [Op.samples])
      obtain ⟨db₁, hrun, h₁⟩ := represents_note
        (hrep o.now (fun u hu ↦ hlater u hu _ (by simp [Op.times]))) le_rfl outcome latencyMs hnew
      have h := represents_record h₁ (by simpa [Op.times] using hsorted) hp outcome
      refine ⟨rfl, fun t ht ↦ ?_⟩
      simp only [Op.exec, hrun]
      exact h.later (ht _ (by simp [Op.times]))

end Histories

end HealingGateway.Breaker
