import HealingGateway.Library.Histories
import HealingGateway.Sequential

namespace HealingGateway.Breaker

open Programs Programs.Prog Health Redis

/-- What happens to overlapping calls: a call asks to be admitted, a call's outcome is
recorded, somebody reads the circuit. -/
inductive CallEvent
  | dispatch (i : ℕ) (o : Outside)
  | finish (i : ℕ) (o o' : Outside) (outcome : Outcome) (latencyMs : ℚ)
  | read (o : Outside)

def CallEvent.op : CallEvent → Op
  | dispatch _ o => .allows o
  | finish _ o o' outcome latencyMs => .observe o o' outcome latencyMs
  | read o => .read o

/-- How a call was admitted: the reported state, and how often the circuit had opened and
had entered half-open by then. -/
structure Admission where
  state : Except Exn State
  openings : ℕ
  trial : ℕ

structure Watch where
  db : Db
  openings : ℕ
  trials : ℕ
  admitted : ℕ → Option Admission

variable (config : GatewayConfig) (provider : String)

def opens (op : Op) (db : Db) : Bool :=
  reported config provider op.last db ≠ .ok .opened ∧
    persisted config provider op.last (op.exec config provider db) = .ok .opened

def admits (o : Outside) (db : Db) : Bool :=
  match ((allows config provider none).run o.answers db).1 with
  | .ok (admitted, _) => admitted
  | .error _ => false

def decides (op : Op) (db : Db) : Bool :=
  match seen config provider op.last db,
    stored config provider op.last (op.exec config provider db) with
  | .ok c, .ok c' => c.state = .halfOpen ∧
      (c'.state ≠ .halfOpen ∨ c'.probeSuccesses ≠ c.probeSuccesses)
  | _, _ => false

namespace Watch

def start : Watch := ⟨fun _ ↦ none, 0, 0, fun _ ↦ none⟩

def trialsAfter (w : Watch) (e : CallEvent) : ℕ :=
  if entersHalfOpen config provider e.op w.db then w.trials + 1 else w.trials

def step (w : Watch) (e : CallEvent) : Watch where
  db := e.op.exec config provider w.db
  openings := if opens config provider e.op w.db then w.openings + 1 else w.openings
  trials := w.trialsAfter config provider e
  admitted := match e with
    | .dispatch i o =>
      if admits config provider o w.db then Function.update w.admitted i
        (some ⟨reported config provider o w.db, w.openings, w.trialsAfter config provider e⟩)
      else w.admitted
    | _ => w.admitted

end Watch

def watch (events : List CallEvent) : Watch := events.foldl (Watch.step config provider) .start

/-- Every outcome that counts towards a half-open trial is that of a call admitted while the
circuit was half-open, in that same trial. -/
def ProbesDecide (events : List CallEvent) : Prop :=
  ∀ before i o o' outcome latencyMs after,
    events = before ++ .finish i o o' outcome latencyMs :: after →
    decides config provider (.observe o o' outcome latencyMs) (watch config provider before).db →
    ∃ a, (watch config provider before).admitted i = some a ∧ a.state = .ok .halfOpen ∧
      a.trial = (watch config provider before).trialsAfter config provider
        (.finish i o o' outcome latencyMs)

/-- Whenever an outcome that is not the caller's fault is recorded while the circuit reads
half-open, the circuit has not opened since that call was admitted. -/
def FinishesFresh (events : List CallEvent) : Prop :=
  ∀ before i o o' outcome latencyMs after,
    events = before ++ .finish i o o' outcome latencyMs :: after →
    outcome.callerFault = false →
    reported config provider o' (watch config provider before).db = .ok .halfOpen →
    ∃ a, (watch config provider before).admitted i = some a ∧
      a.openings = (watch config provider before).openings

/-- How an admission stands to the circuit later on. -/
structure Stands (c : Circuit) (openings trials : ℕ) (a : Admission) : Prop where
  openings_le : a.openings ≤ openings
  trial_le : a.trial ≤ trials
  fresh : a.openings = openings → c.state ≠ .opened ∧
    (c.state = .halfOpen → a.state = .ok .halfOpen ∧ a.trial = trials)
  stale : a.openings < openings → c.state = .halfOpen → a.trial < trials

variable {config provider} {c : Circuit} {openings trials : ℕ} {a : Admission}

theorem Stands.advance (h : Stands c openings trials a) (config : GatewayConfig) (now : ℤ) :
    Stands (c.advance config now) openings (if c.cooled now then trials + 1 else trials) a := by
  unfold Circuit.advance
  split
  · next hcool =>
    have hstate : c.state = .opened := by
      cases c with
      | opened => rfl
      | closed => cases hcool
      | halfOpen => cases hcool
    refine ⟨h.openings_le, h.trial_le.trans (Nat.le_succ _), fun he ↦ ?_, fun _ _ ↦ ?_⟩
    · exact absurd hstate (h.fresh he).1
    · exact Nat.lt_succ_of_le h.trial_le
  · exact h

theorem Stands.moves (h : Stands c openings trials a) (c' : Circuit)
    (hhalf : c'.state = .halfOpen → c.state = .halfOpen) :
    Stands c' (if c.state ≠ .opened ∧ c'.state = .opened then openings + 1 else openings)
      trials a := by
  split
  · next ho =>
    refine ⟨h.openings_le.trans (Nat.le_succ _), h.trial_le, fun he ↦ ?_, fun _ hc ↦ ?_⟩
    · exact absurd (he ▸ h.openings_le) (Nat.not_succ_le_self _)
    · rw [ho.2] at hc
      cases hc
  · next ho =>
    refine ⟨h.openings_le, h.trial_le, fun he ↦ ⟨fun hc ↦ ?_, fun hc ↦ ?_⟩, fun he hc ↦ ?_⟩
    · exact ho ⟨(h.fresh he).1, hc⟩
    · exact (h.fresh he).2 (hhalf hc)
    · exact h.stale he (hhalf hc)

theorem stands_new (hc : c.state ≠ .opened) (openings trials : ℕ) :
    Stands c openings trials ⟨.ok c.state, openings, trials⟩ :=
  ⟨le_rfl, le_rfl, fun _ ↦ ⟨hc, fun h ↦ ⟨by rw [h], rfl⟩⟩, fun h ↦ absurd h (lt_irrefl _)⟩

theorem halfOpen_of_step {due : Bool} {op : Op}
    (h : (c.step config due op).state = .halfOpen) :
    (c.advance config op.last.now).state = .halfOpen := by
  cases op with
  | read o => exact h
  | allows o => exact h
  | observe o o' outcome latencyMs =>
    simp only [Circuit.step, Circuit.record] at h
    cases hc : c.advance config o'.now with
    | halfOpen cooldown n => simp [Op.last, hc, Circuit.state]
    | opened t cooldown => rw [hc] at h; cases h
    | closed =>
      rw [hc] at h
      cases due <;> cases h

variable {db : Db} {p : ProviderConfig}

theorem admits_state {o : Outside} (h : CircuitAt config provider c db)
    (ha : admits config provider o db = true) : (c.advance config o.now).state ≠ .opened := by
  intro hopened
  obtain ⟨s, hseen, hshows⟩ := seen_eq (o := o) h
  have hs : s.state = .opened := hshows.1.trans hopened
  rw [admits, allows, run_bind] at ha
  rw [seen] at hseen
  rcases hrun : (stateOf config provider none).run o.answers db with ⟨r, db'⟩
  rw [hrun] at hseen ha
  obtain rfl : r = .ok s := hseen
  simp only [hs] at ha
  cases ha

theorem opens_eq {c' : Circuit} {op : Op} (h : CircuitAt config provider c db)
    (h' : CircuitAt config provider c' (op.exec config provider db)) :
    opens config provider op db =
      decide ((c.advance config op.last.now).state ≠ .opened ∧ c'.state = .opened) := by
  rw [opens, reported_eq h, persisted_eq h']
  simp

def Watched (config : GatewayConfig) (provider : String) (w : Watch) : Prop :=
  ∃ c, CircuitAt config provider c w.db ∧ ZsetAt w.db (Health.key provider) ∧
    ∀ i a, w.admitted i = some a → Stands c w.openings w.trials a

theorem watched_step (hp : config.providers.lookup provider = some p) {w : Watch}
    (h : Watched config provider w) (e : CallEvent) :
    Watched config provider (w.step config provider e) := by
  obtain ⟨c, hc, hz, hstands⟩ := h
  obtain ⟨due, hc', hz'⟩ := Kept.step ⟨hc, hz⟩ hp e.op
  have htrials : w.trialsAfter config provider e =
      if c.cooled e.op.last.now then w.trials + 1 else w.trials := by
    rw [Watch.trialsAfter, entersHalfOpen_eq hc]
  have hopens := opens_eq hc hc'
  have hold : ∀ a, Stands c w.openings w.trials a →
      Stands (c.step config due e.op) (w.step config provider e).openings
        (w.step config provider e).trials a := by
    intro a ha
    have hmoves := (ha.advance config e.op.last.now).moves (c.step config due e.op)
      halfOpen_of_step
    simpa only [Watch.step, hopens, htrials, decide_eq_true_eq] using hmoves
  refine ⟨_, hc', hz', fun i a ha ↦ ?_⟩
  cases e with
  | read o => exact hold a (hstands i a ha)
  | finish j o o' outcome latencyMs => exact hold a (hstands i a ha)
  | dispatch j o =>
    simp only [Watch.step] at ha
    split at ha
    · next hadmit =>
      by_cases hij : i = j
      · subst hij
        rw [Function.update_self] at ha
        cases ha
        have hne := admits_state hc hadmit
        have hopen : (w.step config provider (.dispatch i o)).openings = w.openings := by
          simp only [Watch.step, hopens]
          rw [if_neg]
          simp only [decide_eq_true_eq, not_and]
          exact fun _ hc ↦ hne hc
        rw [hopen, reported_eq hc]
        exact stands_new hne _ _
      · rw [Function.update_of_ne hij] at ha
        exact hold a (hstands i a ha)
    · exact hold a (hstands i a ha)

theorem watched_run (hp : config.providers.lookup provider = some p) (events : List CallEvent) :
    Watched config provider (watch config provider events) := by
  induction events using List.reverseRec with
  | nil => exact ⟨.closed, ⟨[], .inl ⟨rfl, rfl⟩, rfl⟩, .inl rfl, fun i a ha ↦ by cases ha⟩
  | append_singleton events e ih =>
    rw [watch, List.foldl_append]
    exact watched_step hp ih e

theorem decides_eq (h : CircuitAt config provider c db)
    (hz : ZsetAt db (Health.key provider)) (hp : config.providers.lookup provider = some p)
    (o o' : Outside) (outcome : Outcome) (latencyMs : ℚ) :
    decides config provider (.observe o o' outcome latencyMs) db = true ↔
      (c.advance config o'.now).state = .halfOpen ∧ outcome.callerFault = false := by
  obtain ⟨s, hseen, hstate, -, hsucc⟩ := seen_eq (o := o') h
  obtain ⟨due, hc', -⟩ := Kept.step ⟨h, hz⟩ hp (.observe o o' outcome latencyMs)
  simp only [decides, Op.last, hseen, stored_eq hc', hstate, hsucc, Circuit.view, Circuit.step,
    Circuit.record, decide_eq_true_eq]
  refine and_congr_right (fun hhalf ↦ ?_)
  cases hc : c.advance config o'.now with
  | closed => rw [hc] at hhalf; cases hhalf
  | opened => rw [hc] at hhalf; cases hhalf
  | halfOpen cooldown n =>
    simp only [Circuit.probe, Circuit.successes, Outcome.callerFault_eq]
    by_cases hok : outcome.isOk = true
    · rw [if_pos hok]
      split <;> simp [Circuit.state, hok]
    · by_cases ht : outcome.trippable = true <;>
        simp [Circuit.state, hok, ht]

/-- Only probes decide half-open trials exactly when no call outlives an opening of the
circuit to have its outcome recorded in a trial. -/
theorem probesDecide_iff_finishesFresh (hp : config.providers.lookup provider = some p)
    (events : List CallEvent) :
    ProbesDecide config provider events ↔ FinishesFresh config provider events := by
  constructor
  all_goals
    intro h before i o o' outcome latencyMs after he
    obtain ⟨c, hc, hz, hstands⟩ := watched_run hp before
  · intro hf hhalf
    rw [reported_eq hc] at hhalf
    have hstate := Except.ok.inj hhalf
    obtain ⟨a, ha, -, htrial⟩ := h before i o o' outcome latencyMs after he
      ((decides_eq hc hz hp o o' outcome latencyMs).mpr ⟨hstate, hf⟩)
    refine ⟨a, ha, ?_⟩
    have hadv := (hstands i a ha).advance config o'.now
    rw [Watch.trialsAfter, entersHalfOpen_eq hc] at htrial
    by_contra hne
    exact absurd htrial (hadv.stale (lt_of_le_of_ne hadv.openings_le hne) hstate).ne
  · intro hdec
    obtain ⟨hstate, hf⟩ := (decides_eq hc hz hp o o' outcome latencyMs).mp hdec
    obtain ⟨a, ha, hopen⟩ := h before i o o' outcome latencyMs after he hf
      (by rw [reported_eq hc, hstate])
    have hadv := (hstands i a ha).advance config o'.now
    obtain ⟨hadmitted, htrial⟩ := (hadv.fresh hopen).2 hstate
    exact ⟨a, ha, hadmitted, by rw [Watch.trialsAfter, entersHalfOpen_eq hc]; exact htrial⟩

/-- Eight calls time out and open the circuit, and a ninth is admitted and answered after the cooldown. -/
def probedCalls : List CallEvent :=
  (List.range 8).map (fun (n : ℕ) ↦ .dispatch n { now := 1000 + n }) ++
  (List.range 8).map (fun (n : ℕ) ↦
    .finish n { now := 1100 + n, uuid := .numbered n } { now := 1100 + n } .timeout 100) ++
  [.dispatch 8 { now := 32000 }, .finish 8 { now := 32100, uuid := .numbered 8 } { now := 32100 } .ok 100]

def freshAt (before : List CallEvent) : CallEvent → Bool
  | .finish i _ o' _ _ =>
    reported .shipped "groq" o' (watch .shipped "groq" before).db != .ok .halfOpen ||
      ((watch .shipped "groq" before).admitted i).any
        (fun a ↦ a.openings == (watch .shipped "groq" before).openings)
  | _ => true

theorem probesDecide_iff_finishesFresh_probedCalls :
    ProbesDecide .shipped "groq" probedCalls ∧
      reported .shipped "groq" { now := 32100 } (watch .shipped "groq" (probedCalls.take 17)).db =
        .ok .halfOpen := by
  refine ⟨(probesDecide_iff_finishesFresh rfl probedCalls).mpr ?_, by decide +kernel⟩
  have hfresh : ∀ before e after, probedCalls = before ++ e :: after → freshAt before e = true := by
    decide +kernel
  intro before i o o' outcome latencyMs after he _ hhalf
  have h := hfresh before _ after he
  simp only [freshAt, hhalf, bne_self_eq_false, Bool.false_or] at h
  obtain ⟨a, ha, hopenings⟩ := (Option.any_eq_true _ _).mp h
  exact ⟨a, ha, beq_iff_eq.mp hopenings⟩

/-- Call 8 is admitted first. Eight other calls time out and open the circuit, and call 8
times out only after the cooldown. -/
def staleCall : List CallEvent :=
  .dispatch 8 { now := 990 } ::
  (List.range 8).map (fun (n : ℕ) ↦ .dispatch n { now := 1000 + n }) ++
  (List.range 8).map (fun (n : ℕ) ↦
    .finish n { now := 1100 + n, uuid := .numbered n } { now := 1100 + n } .timeout 100) ++
  [.finish 8 { now := 31000, uuid := .numbered 8 } { now := 31000 } .timeout 30000]

theorem staleCall_decides :
    Chronological (staleCall.map CallEvent.op) ∧
      (∀ i < 9, ((watch .shipped "groq" (staleCall.take 9)).admitted i).map (·.state) =
        some (.ok .closed)) ∧
      (stored .shipped "groq" { now := 31000 } (watch .shipped "groq" staleCall).db).map
        (fun c ↦ (c.state, c.cooldownS)) = .ok (.opened, ⟨400, 0⟩) ∧
      ¬ ProbesDecide .shipped "groq" staleCall := by
  refine ⟨by decide +kernel, by decide +kernel, by decide +kernel, fun h ↦ ?_⟩
  obtain ⟨a, ha, hstate, -⟩ := h (staleCall.take 17) 8 { now := 31000, uuid := .numbered 8 }
    { now := 31000 } .timeout 30000 [] rfl (by decide +kernel)
  have hclosed : ((watch .shipped "groq" (staleCall.take 17)).admitted 8).map (·.state) =
      some (.ok .closed) := by decide +kernel
  rw [ha, Option.map_some, hstate] at hclosed
  cases hclosed

end HealingGateway.Breaker
