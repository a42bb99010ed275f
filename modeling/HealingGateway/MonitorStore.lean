import HealingGateway.Monitor
import HealingGateway.WindowStore

namespace HealingGateway.Breaker

open Programs Programs.Prog Numerals Health Redis

/-- The breaker hash spells this circuit. -/
def CircuitAt (config : GatewayConfig) (provider : String) (c : Circuit) (db : Db) : Prop :=
  ∃ raw, HashAt db (key provider) raw ∧
    readCircuit config provider raw = .ok (c.view config provider)

/-- The store, read at any instant from `now` on, shows this monitor. -/
structure Represents (config : GatewayConfig) (provider : String) (now : ℤ) (m : Monitor)
    (db : Db) : Prop where
  circuit : CircuitAt config provider m.circuit db
  window : WindowHolds (windowMs config none) now provider m.calls db
  past : ∀ s ∈ m.calls, s.recordedAt ≤ now

theorem key_ne_healthKey (p q : String) : key p ≠ Health.key q := by
  intro h
  have h' := congrArg String.toList h
  simp [key, Health.key] at h'

theorem fields_keys (state : State) (openedAtMs : Option ℤ) (cooldownS : Decimal) :
    ((fields state openedAtMs cooldownS).map Prod.fst).Nodup := by
  simp [fields]

theorem intString_ne_empty (n : ℤ) : intString n ≠ "" := by
  intro h
  exact intText_ne_nil n (by simpa [intString] using h)

theorem decimalString_ne_empty (d : Decimal) : decimalString d ≠ "" := by
  intro h
  exact decimalText_ne_nil d (by simpa [decimalString] using h)

theorem field_some {raw : List (String × String)} {name text : String}
    (hl : raw.lookup name = some text) (hne : text ≠ "") : field raw name = some text := by
  rw [field, hl, Option.filter_some, decide_eq_true hne, if_pos rfl]

theorem parsed_some {α : Type} {raw : List (String × String)} {name text : String} {absent a : α}
    {parse : String → Option α} (hl : raw.lookup name = some text) (hne : text ≠ "")
    (hp : parse text = some a) : parsed raw name absent parse = .ok a := by
  simp only [parsed, field_some hl hne, hp]

theorem parsed_empty {α : Type} {raw : List (String × String)} {name : String} {absent : α}
    {parse : String → Option α} (hl : raw.lookup name = some "") :
    parsed raw name absent parse = .ok absent := by
  have hf : field raw name = none := by
    rw [field, hl, Option.filter_some, decide_eq_false (by simp), if_neg (by simp)]
  simp only [parsed, hf]

theorem readCircuit_fields (config : GatewayConfig) (provider : String)
    (raw : List (String × String)) (state : State) (openedAtMs : Option ℤ) (cooldownS : Decimal) :
    readCircuit config provider (Dicts.merge raw (fields state openedAtMs cooldownS)) =
      .ok { provider, state, openedAtMs, cooldownS, probeSuccesses := 0 } := by
  have hl : ∀ name text, (name, text) ∈ fields state openedAtMs cooldownS →
      (Dicts.merge raw (fields state openedAtMs cooldownS)).lookup name = some text :=
    fun _ _ hm ↦ Dicts.lookup_merge_of_mem (fields_keys _ _ _) hm raw
  have hopened : parsed (Dicts.merge raw (fields state openedAtMs cooldownS)) "opened_at_ms" none
      (fun s ↦ (parseInt s).map some) = .ok openedAtMs := by
    cases openedAtMs with
    | none => exact parsed_empty (hl _ _ (by simp [fields]))
    | some t =>
      exact parsed_some (hl _ (intString t) (by simp [fields])) (intString_ne_empty t) (by simp)
  have hprobes : parsed (Dicts.merge raw (fields state openedAtMs cooldownS)) "probe_successes" 0
      parseInt = .ok 0 :=
    parsed_some (hl "probe_successes" "0" (by simp [fields])) (by decide) (by decide)
  simp only [readCircuit, hopened, hprobes,
    parsed_some (hl "state" _ (by simp [fields])) (State.value_ne_empty state)
      (State.ofValue?_value state),
    parsed_some (hl "cooldown_s" _ (by simp [fields])) (decimalString_ne_empty cooldownS)
      (parseDecimal_decimalString cooldownS)]
  rfl

theorem parsed_congr {α : Type} {raw raw' : List (String × String)} {name : String}
    (h : raw'.lookup name = raw.lookup name) (absent : α) (parse : String → Option α) :
    parsed raw' name absent parse = parsed raw name absent parse := by
  rw [parsed, field, h]
  rfl

theorem readCircuit_probes {config : GatewayConfig} {provider : String}
    {raw : List (String × String)} {c : CircuitState} (h : readCircuit config provider raw = .ok c)
    (n : ℤ) :
    readCircuit config provider (Dicts.merge raw [("probe_successes", intString n)]) =
      .ok { c with probeSuccesses := n } := by
  have hl : ∀ name ≠ "probe_successes",
      (Dicts.merge raw [("probe_successes", intString n)]).lookup name = raw.lookup name :=
    fun _ hne ↦ Dicts.lookup_merge_of_notMem (by simpa using hne) raw
  have hprobes : parsed (Dicts.merge raw [("probe_successes", intString n)]) "probe_successes" 0
      parseInt = .ok n :=
    parsed_some (Dicts.lookup_merge_of_mem (by simp) (by simp) raw) (intString_ne_empty n) (by simp)
  simp only [readCircuit, parsed_congr (hl "state" (by decide)),
    parsed_congr (hl "opened_at_ms" (by decide)), parsed_congr (hl "cooldown_s" (by decide)),
    hprobes] at h ⊢
  cases hs : parsed raw "state" State.closed State.ofValue? with
  | error e => rw [hs] at h; cases h
  | ok st =>
    cases ho : parsed raw "opened_at_ms" none (fun s ↦ (parseInt s).map some) with
    | error e => rw [hs, ho] at h; cases h
    | ok t =>
      cases hc : parsed raw "cooldown_s" config.breaker.cooldownS parseDecimal with
      | error e => rw [hs, ho, hc] at h; cases h
      | ok cd =>
        cases hp : parsed raw "probe_successes" 0 parseInt with
        | error e => rw [hs, ho, hc, hp] at h; cases h
        | ok k =>
          rw [hs, ho, hc, hp] at h
          cases h
          rfl

section Runs

variable {config : GatewayConfig} {provider : String} {now : ℤ} {m : Monitor} {db : Db}
  {o : Outside} {raw : List (String × String)}

theorem run_hset {α : Type} (h : HashAt db (key provider) raw) (new : List (String × String))
    (f : Unit → Gateway α) :
    (redis (.write (.hset (key provider) new)) >>= f).run o.answers db =
      (f ()).run o.answers
        (Function.update db (key provider) (some ⟨.hash (Dicts.merge raw new), none⟩)) :=
  run_redis_bind _ (Outside.answers_redis (h.hset o.now new)) f

theorem run_enterHalfOpen (h : HashAt db (key provider) raw) (cooldownS : Decimal) :
    (enterHalfOpen provider cooldownS).run o.answers db =
      (.ok (), Function.update (Function.update db (key provider)
        (some ⟨.hash (Dicts.merge raw (fields .halfOpen none cooldownS)), none⟩))
        (Health.key provider) none) := by
  rw [enterHalfOpen, run_hset h]
  exact run_redis_bind _ (Outside.answers_redis rfl) _

/-- What the code reads off the store is the circuit the store stands for. -/
def Shows (c : CircuitState) (config : GatewayConfig) (circuit : Circuit) : Prop :=
  c.state = circuit.state ∧ c.cooldownS = circuit.cooldown config ∧
    c.probeSuccesses = circuit.successes

theorem circuitAt_fields (raw : List (String × String)) {circuit : Circuit} (hn : circuit.successes = 0)
    (hdb : db (key provider) = some ⟨.hash (Dicts.merge raw
      (fields circuit.state circuit.openedAt (circuit.cooldown config))), none⟩) :
    CircuitAt config provider circuit db :=
  ⟨_, .inr hdb, by rw [readCircuit_fields, Circuit.view, hn]⟩

theorem Represents.later {now' : ℤ} (h : Represents config provider now m db) (hn : now ≤ now') :
    Represents config provider now' m db :=
  ⟨h.circuit, h.window.mono hn, fun s hs ↦ (h.past s hs).trans hn⟩

theorem run_stateOf_eq {c : CircuitState} (hraw : HashAt db (key provider) raw)
    (hread : readCircuit config provider raw = .ok c) :
    (stateOf config provider (some o.now)).run o.answers db =
      (applyCooldown provider o.now c).run o.answers db := by
  have hget : o.answers (.redis (.hgetall (key provider))) db = (.ok raw, db) :=
    Outside.answers_redis (by simp only [exec, hraw.asHash])
  rw [stateOf, nowOr_some, done_bind, run_redis_bind _ hget, hread, ofExcept_ok, done_bind]
  simp only [metric, ask_bind, pure_eq, run_bind, run_call, run_done, Outside.answers_metric]
  rcases (applyCooldown provider o.now c).run o.answers db with ⟨_ | _, _⟩ <;> rfl

def Moved (config : GatewayConfig) (provider : String) (c : Circuit) (db db' : Db) : Prop :=
  CircuitAt config provider c db' ∧ db' (Health.key provider) = db (Health.key provider)

theorem moved_fields (raw : List (String × String)) {c : Circuit} (hn : c.successes = 0) :
    Moved config provider c db (Function.update db (key provider) (some ⟨.hash (Dicts.merge raw
      (fields c.state c.openedAt (c.cooldown config))), none⟩)) :=
  ⟨circuitAt_fields raw hn (Function.update_self _ _ _),
    Function.update_of_ne (key_ne_healthKey _ _).symm _ _⟩

variable {c : Circuit}

/-- Reading the circuit shows what the circuit is after the read, and clears the window
on entering half-open. -/
theorem run_stateOf_circuit (h : CircuitAt config provider c db) :
    ∃ s db', (stateOf config provider (some o.now)).run o.answers db = (.ok s, db') ∧
      Shows s config (c.advance config o.now) ∧
      CircuitAt config provider (c.advance config o.now) db' ∧
      db' (Health.key provider) = if c.cooled o.now then none else db (Health.key provider) := by
  obtain ⟨raw, hraw, hread⟩ := h
  rw [run_stateOf_eq hraw hread]
  cases c with
  | closed => exact ⟨_, db, rfl, ⟨rfl, rfl, rfl⟩, ⟨raw, hraw, hread⟩, rfl⟩
  | halfOpen cooldown n => exact ⟨_, db, rfl, ⟨rfl, rfl, rfl⟩, ⟨raw, hraw, hread⟩, rfl⟩
  | opened t cooldown =>
    unfold Circuit.advance
    by_cases hcool : (Circuit.opened t cooldown).cooled o.now = true
    · have hc : cooldown.toRat ≤ elapsedS o.now t := of_decide_eq_true hcool
      rw [if_pos hcool, if_pos hcool, applyCooldown_cooled rfl rfl hc,
        run_bind_ok _ (run_enterHalfOpen hraw _)]
      refine ⟨_, _, rfl, ⟨rfl, rfl, rfl⟩, circuitAt_fields raw rfl ?_, Function.update_self _ _ _⟩
      rw [Function.update_of_ne (key_ne_healthKey _ _), Function.update_self]
      rfl
    · have hc : ¬ cooldown.toRat ≤ elapsedS o.now t := fun hc ↦ hcool (decide_eq_true hc)
      rw [if_neg hcool, if_neg hcool, applyCooldown_waiting rfl rfl hc]
      exact ⟨_, db, rfl, ⟨rfl, rfl, rfl⟩, ⟨raw, hraw, hread⟩, rfl⟩

theorem run_openCircuit (h : CircuitAt config provider c db) (cooldown : Decimal) :
    ∃ db', (openCircuit provider o.now cooldown).run o.answers db = (.ok (), db') ∧
      Moved config provider (.opened o.now cooldown) db db' := by
  obtain ⟨raw, hraw, _⟩ := h
  refine ⟨_, ?_, moved_fields raw rfl⟩
  rw [openCircuit, run_hset hraw]
  rfl

theorem run_recordProbe {cooldown : Decimal} {n : ℤ} {s : CircuitState}
    (h : CircuitAt config provider (.halfOpen cooldown n) db)
    (hs : Shows s config (.halfOpen cooldown n)) (outcome : Outcome) :
    ∃ db', (recordProbe config provider outcome s o.now).run o.answers db = (.ok (), db') ∧
      Moved config provider (Circuit.probe config o.now outcome cooldown n) db db' := by
  obtain ⟨raw, hraw, hread⟩ := id h
  obtain ⟨_, hcool, hsucc⟩ := hs
  simp only [Circuit.cooldown, Circuit.successes] at hcool hsucc
  unfold recordProbe Circuit.probe
  rw [hcool, hsucc]
  by_cases hok : outcome.isOk = true
  · rw [if_pos hok, if_pos hok]
    by_cases hreq : n + 1 < config.breaker.probeSuccessesRequired
    · simp only [if_pos hreq]
      refine ⟨_, ?_, ⟨_, hashAt_update _ _ _, readCircuit_probes hread (n + 1)⟩,
        Function.update_of_ne (key_ne_healthKey _ _).symm _ _⟩
      rw [run_redis]
      exact Outside.answers_redis (hraw.hset o.now _)
    · simp only [if_neg hreq]
      refine ⟨_, ?_, moved_fields raw rfl⟩
      rw [run_hset hraw]
      rfl
  · rw [if_neg hok, if_neg hok]
    by_cases ht : outcome.trippable = true
    · rw [if_neg (by simp [ht]), if_pos ht]
      exact run_openCircuit h _
    · rw [if_pos (by simp [ht]), if_neg ht]
      exact ⟨db, rfl, h, rfl⟩

theorem snapshot_now {windowS : Option ℤ} :
    (Health.snapshot config provider windowS none).run o.answers db =
      (Health.snapshot config provider windowS (some o.now)).run o.answers db := by
  rw [Health.snapshot, Health.snapshot, o.run_nowOr_none, nowOr_some, done_bind]

theorem run_snapshot_eq {windowS : Option ℤ} :
    (Health.snapshot config provider windowS (some o.now)).run o.answers db =
      (((asZset (live o.now db (Health.key provider))).mapError errorExn).bind (fun z ↦
        summarise provider (members (z.filter (fun i ↦ decide (o.now - windowMs config windowS <
          SortedSets.score i))))), db) := by
  rw [Health.snapshot, nowOr_some, done_bind, run_bind, run_redis]
  simp only [Outside.answers, exec]
  rcases asZset (live o.now db (Health.key provider)) with e | z
  · rfl
  · simp only [Except.map, Except.mapError, Except.bind, run_ofExcept]

/-- Whether the window, as it stands in the store, is due to open the circuit. -/
def dueAt (config : GatewayConfig) (provider : String) (budgetMs : Decimal) (o : Outside)
    (db : Db) : Bool :=
  match ((Health.snapshot config provider none none).run o.answers db).1 with
  | .ok snap => tripDue config.breaker budgetMs snap
  | .error _ => false

theorem dueAt_congr {db' : Db} (budgetMs : Decimal)
    (h : db' (Health.key provider) = db (Health.key provider)) :
    dueAt config provider budgetMs o db' = dueAt config provider budgetMs o db := by
  rw [dueAt, dueAt, snapshot_now, snapshot_now, run_snapshot_eq, run_snapshot_eq, live_congr h]

theorem run_maybeTrip {p : ProviderConfig} (h : CircuitAt config provider .closed db)
    (hp : config.providers.lookup provider = some p) :
    ∃ r db', (maybeTrip config provider o.now).run o.answers db = (r, db') ∧
      Moved config provider (if dueAt config provider p.latencyBudgetMs o db then
        .opened o.now config.breaker.cooldownS else .closed) db db' := by
  rw [maybeTrip, hp, orRaise_some, done_bind, run_bind, dueAt, snapshot_now, run_snapshot_eq]
  rcases ((asZset (live o.now db (Health.key provider))).mapError errorExn).bind _ with e | snap
  · exact ⟨_, _, rfl, h, rfl⟩
  · simp only
    by_cases ht : tripDue config.breaker p.latencyBudgetMs snap = true
    · obtain ⟨db', hrun, hmoved⟩ := run_openCircuit h config.breaker.cooldownS
      rw [if_pos ht, if_pos ht]
      exact ⟨_, db', hrun, hmoved⟩
    · rw [if_neg ht, if_neg ht]
      exact ⟨_, _, rfl, h, rfl⟩

theorem run_record_circuit {p : ProviderConfig} (h : CircuitAt config provider c db)
    (hp : config.providers.lookup provider = some p) (outcome : Outcome) :
    ∃ r db', (record config provider outcome (some o.now)).run o.answers db = (r, db') ∧
      CircuitAt config provider
        (c.record config o.now outcome (dueAt config provider p.latencyBudgetMs o db)) db' ∧
      db' (Health.key provider) = if c.cooled o.now then none else db (Health.key provider) := by
  obtain ⟨s, db₁, hstate, hshows, h₁, hclear⟩ := run_stateOf_circuit h
  rw [record, nowOr_some, done_bind, run_bind_ok _ hstate, hshows.1]
  unfold Circuit.record
  cases hc : c.advance config o.now with
  | closed =>
    rw [hc] at h₁
    have hcool : ¬ c.cooled o.now = true := by
      intro hcool
      rw [Circuit.advance, if_pos hcool] at hc
      cases hc
    rw [if_neg hcool] at hclear ⊢
    obtain ⟨r, db', hrun, hmoved⟩ := run_maybeTrip h₁ hp
    rw [dueAt_congr _ hclear] at hmoved
    exact ⟨r, db', hrun, hmoved.1, hmoved.2.trans hclear⟩
  | opened t cooldown =>
    rw [hc] at h₁
    exact ⟨_, db₁, rfl, h₁, hclear⟩
  | halfOpen cooldown n =>
    rw [hc] at h₁ hshows
    obtain ⟨db', hrun, hmoved⟩ := run_recordProbe h₁ hshows outcome
    exact ⟨_, db', hrun, hmoved.1, hmoved.2.trans hclear⟩

theorem windowMs_whole (config : GatewayConfig) (windowS : Option ℤ) :
    windowMs config windowS % 1000 = 0 := by
  simp [windowMs]

theorem run_healthRecord (config : GatewayConfig) (windowS : Option ℤ) (s : Sample)
    (hs : s.recordedAt = o.now) (hu : s.uuid = o.uuid) {z : SortedSets.SortedSet ℤ String}
    (hz : asZset (live o.now db (Health.key provider)) = .ok z) :
    ∃ db', (Health.record config provider s.outcome s.latencyMs windowS (some o.now)).run
        o.answers db = (.ok (), db') ∧
      db' (Health.key provider) = recordedEntry (windowMs config windowS) s z ∧
      ∀ k ≠ Health.key provider, db' k = db k := by
  obtain ⟨at', uuid, outcome, latencyMs⟩ := s
  obtain rfl : at' = o.now := hs
  obtain rfl : uuid = o.uuid := hu
  obtain ⟨db', hexec, hdb'⟩ := exec_recordWrites (s := ⟨o.now, o.uuid, outcome, latencyMs⟩)
    (windowMs config windowS) hz
  refine ⟨db', ?_, hdb', fun k hk ↦ ?_⟩
  · rw [Health.record, nowOr_some, done_bind, ask_bind, run_call, run_redis]
    exact Outside.answers_redis hexec
  · have hf := exec_frame (c := .pipeline (recordWrites provider
      (Sample.mk o.now o.uuid outcome latencyMs).text o.now (windowMs config windowS))) (k := k)
      (by simp [Command.keys, recordWrites, Write.key, hk]) o.now db
    rwa [hexec] at hf

end Runs

end HealingGateway.Breaker
