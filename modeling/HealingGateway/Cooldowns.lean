import HealingGateway.Actions
import Mathlib.Tactic.Linarith

namespace HealingGateway.Breaker

open Programs Programs.Prog Health Redis

variable (config : GatewayConfig) (provider : String)

/-- The cooldown in force once so many trials have failed since the trip. -/
def cooldownAfter (cfg : BreakerConfig) : Option ℕ → ℚ
  | some (k + 1) => min (cfg.cooldownS.toRat * 2 ^ (k + 1)) cfg.cooldownMaxS.toRat
  | _ => cfg.cooldownS.toRat

/-- How an action changes the number of failed trials, by the state its record sees and
the state it leaves. -/
def failuresAfter (a : Action) (db : Db) (failures : Option ℕ) : Option ℕ :=
  match a with
  | .record o _ =>
    match reported config provider o db,
      persisted config provider o (a.exec config provider db) with
    | .ok .closed, .ok .opened => some 0
    | .ok .halfOpen, .ok .opened => failures.map (· + 1)
    | _, .ok .closed => none
    | _, _ => failures
  | _ => failures

/-- How many trials have failed since the circuit tripped, and nothing while it is closed. -/
def failedTrials (history : List Action) : Option ℕ :=
  (history.foldl (fun (r : Db × Option ℕ) a ↦
    (a.exec config provider r.1, failuresAfter config provider a r.1 r.2))
    ((fun _ ↦ none), none)).2

def Opens (o : Outside) (outcome : Outcome) (db : Db) : Prop :=
  reported config provider o db ≠ .ok .opened ∧
    persisted config provider o (Action.exec config provider (.record o outcome) db) = .ok .opened

def deadline (openedAt : ℤ) (cooldownS : Numerals.Decimal) : ℚ :=
  openedAt + cooldownS.toRat * 1000

/-- The circuit is open to whoever asks, and an outcome changes nothing that is stored. -/
structure Refuses (o : Outside) (db : Db) : Prop where
  reads : reported config provider o db = .ok .opened
  refuses : ∃ reason, ((allows config provider none).run o.answers db).1 = .ok (false, reason)
  unmoved : ∀ outcome,
    stored config provider o ((record config provider outcome none).run o.answers db).2 =
      stored config provider o db

/-- Whichever call comes now finds the circuit half-open. -/
structure SeesHalfOpen (o : Outside) (db : Db) : Prop where
  reads : reported config provider o db = .ok .halfOpen
  draws : ((allows config provider none).run o.answers db).1 = .ok (probeDraw config o.draw)
  probes : ∃ s db', (stateOf config provider none).run o.answers db = (.ok s, db') ∧
    s.state = .halfOpen ∧ ∀ outcome, (record config provider outcome none).run o.answers db =
      (recordProbe config provider outcome s o.now).run o.answers db'

/-- How long a circuit stays open, after any history. -/
structure CooldownLaw (history : List Action) : Prop where
  backoff : ∀ o, ∃ s, stored config provider o (storeAfter config provider history) = .ok s ∧
    s.cooldownS.toRat = cooldownAfter config.breaker (failedTrials config provider history) ∧
    (failedTrials config provider history = none ↔ s.state = .closed)
  waits : ∀ before t outcome during cooldown, history = before ++ .record t outcome :: during →
    Opens config provider t outcome (storeAfter config provider before) →
    (stored config provider t (storeAfter config provider (before ++ [.record t outcome]))).map
      (·.cooldownS) = .ok cooldown →
    (∀ a ∈ during, (a.outside.now : ℚ) < deadline t.now cooldown) →
    ∀ o : Outside,
      if (o.now : ℚ) < deadline t.now cooldown then
        Refuses config provider o (storeAfter config provider history)
      else SeesHalfOpen config provider o (storeAfter config provider history)
  carried : ∀ o outcome s s', outcome.trippable = false →
    stored config provider o (storeAfter config provider history) = .ok s →
    stored config provider o (storeAfter config provider (history ++ [.record o outcome])) =
      .ok s' →
    outcome.isOk = false ∨ s'.state ≠ .closed → s'.cooldownS = s.cooldownS

theorem foldl_storeAfter (history : List Action) (db : Db) (k : Option ℕ) :
    (history.foldl (fun (r : Db × Option ℕ) a ↦
      (a.exec config provider r.1, failuresAfter config provider a r.1 r.2)) (db, k)).1 =
      execAll config provider history db := by
  induction history generalizing db k with
  | nil => rfl
  | cons a history ih => exact ih _ _

theorem failedTrials_append (history : List Action) (a : Action) :
    failedTrials config provider (history ++ [a]) = failuresAfter config provider a
      (storeAfter config provider history) (failedTrials config provider history) := by
  simp only [failedTrials, List.foldl_append, List.foldl_cons, List.foldl_nil, foldl_storeAfter]
  rfl

section Law

variable {config provider} {o : Outside} {db db' : Db} {c c' : Circuit} {p : ProviderConfig}
  {k : Option ℕ}

/-- The circuit's cooldown is the one in force after so many failed trials. -/
structure Lawful (config : GatewayConfig) (k : Option ℕ) (c : Circuit) : Prop where
  closed_iff : k = none ↔ c.state = .closed
  cooldown : (c.cooldown config).toRat = cooldownAfter config.breaker k

theorem cooldownAfter_succ {cfg : BreakerConfig} (hmax : 0 ≤ cfg.cooldownMaxS.toRat) (k : ℕ) :
    min (cooldownAfter cfg (some k) * 2) cfg.cooldownMaxS.toRat =
      cooldownAfter cfg (some (k + 1)) := by
  cases k with
  | zero => simp [cooldownAfter]
  | succ k =>
    have hle : cfg.cooldownMaxS.toRat ≤ cfg.cooldownMaxS.toRat * 2 := by linarith
    simp only [cooldownAfter, min_mul_of_nonneg _ _ (zero_le_two (α := ℚ)), min_assoc,
      min_eq_right hle, pow_succ _ (k + 1), mul_assoc]

theorem Lawful.advance (h : Lawful config k c) (now : ℤ) :
    Lawful config k (c.advance config now) := by
  refine ⟨h.closed_iff.trans ?_, by rw [Circuit.cooldown_advance, h.cooldown]⟩
  unfold Circuit.advance
  split
  · next hcool => cases c <;> simp [Circuit.cooled, Circuit.state] at hcool ⊢
  · rfl

theorem failuresAfter_record (h : CircuitAt config provider c db) (outcome : Outcome)
    (h' : CircuitAt config provider c' (Action.exec config provider (.record o outcome) db)) :
    failuresAfter config provider (.record o outcome) db k =
      match (c.advance config o.now).state, c'.state with
      | .closed, .opened => some 0
      | .halfOpen, .opened => k.map (· + 1)
      | _, .closed => none
      | _, _ => k := by
  simp only [failuresAfter, reported_eq h, persisted_eq h']
  cases (c.advance config o.now).state <;> cases c'.state <;> rfl

def probedFailures (k : Option ℕ) : State → Option ℕ
  | .opened => k.map (· + 1)
  | .closed => none
  | .halfOpen => k

theorem Lawful.probe (hmax : 0 ≤ config.breaker.cooldownMaxS.toRat) {cooldown : Numerals.Decimal}
    {n : ℤ} (h : Lawful config k (.halfOpen cooldown n)) (now : ℤ) (outcome : Outcome) :
    Lawful config (probedFailures k (Circuit.probe config now outcome cooldown n).state)
      (Circuit.probe config now outcome cooldown n) := by
  have hcd : cooldown.toRat = cooldownAfter config.breaker k := h.cooldown
  unfold Circuit.probe
  by_cases hok : outcome.isOk = true
  · rw [if_pos hok]
    by_cases hreq : n + 1 < config.breaker.probeSuccessesRequired
    · rw [if_pos hreq]
      exact ⟨h.closed_iff, h.cooldown⟩
    · rw [if_neg hreq]
      exact ⟨by simp [probedFailures, Circuit.state], rfl⟩
  · rw [if_neg hok]
    by_cases ht : outcome.trippable = true
    · rw [if_pos ht]
      cases k with
      | none => exact absurd (h.closed_iff.mp rfl) (by simp [Circuit.state])
      | some j =>
        refine ⟨by simp [probedFailures, Circuit.state], ?_⟩
        rw [Circuit.cooldown, Numerals.Decimal.toRat_min, Numerals.Decimal.toRat_double, hcd]
        exact cooldownAfter_succ hmax j
    · rw [if_neg ht]
      exact h

theorem Lawful.step (hmax : 0 ≤ config.breaker.cooldownMaxS.toRat) (h : Lawful config k c)
    (hc : CircuitAt config provider c db) {due : Bool} (a : Action)
    (hc' : CircuitAt config provider (c.act config due a) (a.exec config provider db)) :
    Lawful config (failuresAfter config provider a db k) (c.act config due a) := by
  cases a with
  | read o => exact h.advance o.now
  | allows o => exact h.advance o.now
  | note o outcome latencyMs => exact h
  | record o outcome =>
    rw [failuresAfter_record hc outcome hc']
    have h' := h.advance o.now
    simp only [Circuit.act, Circuit.record]
    generalize c.advance config o.now = seen at h'
    cases seen with
    | closed =>
      cases due with
      | true => exact ⟨by simp [Circuit.state], rfl⟩
      | false => exact ⟨by simp [Circuit.state], rfl⟩
    | opened t cooldown => exact h'
    | halfOpen cooldown n =>
      have hprobe := h'.probe hmax o.now outcome
      simp only [Circuit.state] at hprobe ⊢
      cases hs : Circuit.probe config o.now outcome cooldown n <;> rw [hs] at hprobe <;>
        exact hprobe

theorem lawful_storeAfter (hp : config.providers.lookup provider = some p)
    (hmax : 0 ≤ config.breaker.cooldownMaxS.toRat) (history : List Action) :
    ∃ c, Kept config provider c (storeAfter config provider history) ∧
      Lawful config (failedTrials config provider history) c := by
  induction history using List.reverseRec with
  | nil => exact ⟨.closed, kept_empty, by simp [failedTrials, Circuit.state], rfl⟩
  | append_singleton history a ih =>
    obtain ⟨c, hkept, hlaw⟩ := ih
    obtain ⟨due, hkept'⟩ := hkept.exec hp a
    rw [storeAfter_append, failedTrials_append]
    exact ⟨_, hkept', hlaw.step hmax hkept.circuit a hkept'.circuit⟩

theorem Circuit.opened_of_record {now : ℤ} {outcome : Outcome} {due : Bool}
    (hbefore : (c.advance config now).state ≠ .opened)
    (hopen : (c.record config now outcome due).state = .opened) :
    ∃ cooldown, c.record config now outcome due = .opened now cooldown := by
  unfold Circuit.record at hopen ⊢
  cases hc : c.advance config now with
  | closed =>
    rw [hc] at hopen
    cases due with
    | true => exact ⟨_, rfl⟩
    | false => cases hopen
  | opened t cooldown => exact absurd (by rw [hc]; rfl) hbefore
  | halfOpen cooldown n =>
    rw [hc] at hopen
    simp only [Circuit.probe] at hopen ⊢
    by_cases hok : outcome.isOk = true
    · rw [if_pos hok] at hopen
      split at hopen <;> cases hopen
    · rw [if_neg hok] at hopen ⊢
      by_cases ht : outcome.trippable = true
      · rw [if_pos ht]
        exact ⟨_, rfl⟩
      · rw [if_neg ht] at hopen
        cases hopen

theorem cooled_iff {t : ℤ} {cooldown : Numerals.Decimal} {now : ℤ} :
    (Circuit.opened t cooldown).cooled now = true ↔ deadline t cooldown ≤ now := by
  rw [Circuit.cooled, decide_eq_true_iff, elapsedS, deadline, le_div_iff₀ (by norm_num)]
  push_cast
  constructor <;> intro h <;> linarith

theorem act_waiting {t : ℤ} {cooldown : Numerals.Decimal} {due : Bool} {a : Action}
    (h : (a.outside.now : ℚ) < deadline t cooldown) :
    (Circuit.opened t cooldown).act config due a = .opened t cooldown := by
  have hcool : ¬ (Circuit.opened t cooldown).cooled a.outside.now = true :=
    fun hc ↦ absurd (cooled_iff.mp hc) (not_le.mpr h)
  cases a with
  | read o => exact Circuit.advance_of_not_cooled hcool
  | allows o => exact Circuit.advance_of_not_cooled hcool
  | note o outcome latencyMs => rfl
  | record o outcome =>
    have hstay : (Circuit.opened t cooldown).advance config o.now = .opened t cooldown :=
      Circuit.advance_of_not_cooled hcool
    rw [Circuit.act, Circuit.record, hstay]

theorem kept_waiting (hp : config.providers.lookup provider = some p) {t : ℤ}
    {cooldown : Numerals.Decimal} (h : Kept config provider (.opened t cooldown) db)
    {during : List Action} (hd : ∀ a ∈ during, (a.outside.now : ℚ) < deadline t cooldown) :
    Kept config provider (.opened t cooldown) (execAll config provider during db) := by
  induction during generalizing db with
  | nil => exact h
  | cons a during ih =>
    obtain ⟨due, h'⟩ := h.exec hp a
    rw [act_waiting (hd a List.mem_cons_self)] at h'
    exact ih h' (fun b hb ↦ hd b (List.mem_cons_of_mem _ hb))

theorem Kept.refuses (hp : config.providers.lookup provider = some p) {t : ℤ}
    {cooldown : Numerals.Decimal} (h : Kept config provider (.opened t cooldown) db)
    (ho : (o.now : ℚ) < deadline t cooldown) : Refuses config provider o db := by
  have hcool : ¬ (Circuit.opened t cooldown).cooled o.now = true :=
    fun hc ↦ absurd (cooled_iff.mp hc) (not_le.mpr ho)
  obtain ⟨s, db', hrun, ⟨hstate, -, -⟩, -⟩ := h.stateOf (o := o)
  rw [Circuit.advance_of_not_cooled hcool] at hstate
  refine ⟨?_, ⟨_, by rw [run_allows hrun, hstate]; rfl⟩, fun outcome ↦ ?_⟩
  · rw [reported_eq h.circuit, Circuit.advance_of_not_cooled hcool]
    rfl
  · obtain ⟨due, h'⟩ := h.record (o := o) hp outcome
    rw [Circuit.record, Circuit.advance_of_not_cooled hcool] at h'
    rw [stored_eq h'.circuit, stored_eq h.circuit]

theorem Kept.seesHalfOpen {t : ℤ} {cooldown : Numerals.Decimal}
    (h : Kept config provider (.opened t cooldown) db) (ho : deadline t cooldown ≤ o.now) :
    SeesHalfOpen config provider o db := by
  have hadvance : (Circuit.opened t cooldown).advance config o.now = .halfOpen cooldown 0 :=
    Circuit.advance_of_cooled (cooled_iff.mpr ho)
  obtain ⟨s, db', hrun, ⟨hstate, -, -⟩, -⟩ := h.stateOf (o := o)
  rw [hadvance] at hstate
  refine ⟨by rw [reported_eq h.circuit, hadvance]; rfl, ?_, s, db', hrun, hstate, fun outcome ↦ ?_⟩
  · rw [run_allows hrun, hstate]
    rfl
  · rw [stateOf_now] at hrun
    rw [record_now, Breaker.record, nowOr_some, done_bind, run_bind_ok _ hrun, hstate]
    rfl

theorem cooldown_record {now : ℤ} {outcome : Outcome} {due : Bool}
    (ht : outcome.trippable = false)
    (h : outcome.isOk = false ∨ (c.record config now outcome due).state ≠ .closed) :
    (c.record config now outcome due).cooldown config = c.cooldown config := by
  rw [← Circuit.cooldown_advance (c := c) now]
  unfold Circuit.record at h ⊢
  cases hc : c.advance config now with
  | closed => cases due <;> rfl
  | opened t cooldown => rfl
  | halfOpen cooldown n =>
    rw [hc] at h
    simp only [Circuit.probe, ht] at h ⊢
    by_cases hok : outcome.isOk = true
    · rw [if_pos hok] at h ⊢
      split at h
      · next hreq => rw [if_pos hreq]; rfl
      · next hreq => simp [hok, Circuit.state] at h
    · rw [if_neg hok]
      rfl

end Law

/-- After every history the cooldown is the one its trips, failed trials and closings make
it, and a circuit that opened refuses everybody until it has run out and nobody after. -/
theorem cooldown_law {config : GatewayConfig} {provider : String} {p : ProviderConfig}
    (hp : config.providers.lookup provider = some p)
    (hmax : 0 ≤ config.breaker.cooldownMaxS.toRat) (history : List Action) :
    CooldownLaw config provider history := by
  refine ⟨fun o ↦ ?_, ?_, ?_⟩
  · obtain ⟨c, hkept, hlaw⟩ := lawful_storeAfter hp hmax history
    exact ⟨_, stored_eq hkept.circuit, hlaw.cooldown, hlaw.closed_iff⟩
  · rintro before t outcome during cooldown rfl ⟨hnot, hopen⟩ hcd hearly o
    obtain ⟨c, hkept⟩ := kept_storeAfter hp before
    obtain ⟨due, hkept'⟩ := hkept.exec hp (.record t outcome)
    rw [reported_eq hkept.circuit] at hnot
    rw [persisted_eq hkept'.circuit] at hopen
    obtain ⟨cooldown', hopened⟩ := Circuit.opened_of_record (fun h ↦ hnot (by rw [h]))
      (Except.ok.inj hopen)
    rw [Circuit.act, hopened] at hkept'
    rw [storeAfter_append, execAll_cons, execAll_nil, stored_eq hkept'.circuit] at hcd
    obtain rfl : cooldown' = cooldown := Except.ok.inj hcd
    have hopen' := kept_waiting hp hkept' hearly
    rw [storeAfter_append, execAll_cons]
    split
    · next ho => exact hopen'.refuses hp ho
    · next ho => exact hopen'.seesHalfOpen (not_lt.mp ho)
  · intro o outcome s s' ht hs hs' hor
    obtain ⟨c, hkept⟩ := kept_storeAfter hp history
    obtain ⟨due, hkept'⟩ := hkept.exec hp (.record o outcome)
    rw [stored_eq hkept.circuit] at hs
    rw [storeAfter_append, execAll_cons, execAll_nil, stored_eq hkept'.circuit] at hs'
    obtain rfl := Except.ok.inj hs
    obtain rfl := Except.ok.inj hs'
    exact cooldown_record ht hor

def failedProbe : List Action :=
  (List.range 8).flatMap (fun (n : ℕ) ↦
    [.note { now := 1000 + n, uuid := .numbered n } .timeout 100,
      .record { now := 1000 + n } .timeout]) ++
  [.record { now := 21007 } .timeout, .read { now := 30000 }]

theorem cooldown_law_failedProbe :
    CooldownLaw .shipped "groq" failedProbe ∧ failedTrials .shipped "groq" failedProbe = some 1 :=
  ⟨@cooldown_law .shipped "groq" _ rfl (by decide +kernel) failedProbe, by decide +kernel⟩

end HealingGateway.Breaker
