import HealingGateway.Cooldowns

namespace HealingGateway.Breaker

open Programs Programs.Prog Health Redis

variable (config : GatewayConfig) (provider : String)

def required : ℤ := max 1 config.breaker.probeSuccessesRequired

def Enters (a : Action) (db : Db) : Prop :=
  a.asks = true ∧ persisted config provider a.outside db = .ok .opened ∧
    reported config provider a.outside db = .ok .halfOpen

def outcomes (trial : List Action) : List Outcome := trial.filterMap Action.outcome?

def okCount (trial : List Action) : ℤ := (outcomes trial).countP Outcome.isOk

def Untripped (trial : List Action) : Prop := ∀ outcome ∈ outcomes trial, outcome.trippable = false

/-- The store keeps a half-open circuit with so many successes. -/
def HalfOpenWith (n : ℤ) (db : Db) : Prop :=
  ∀ o, ∃ s, stored config provider o db = .ok s ∧ s.state = .halfOpen ∧ s.probeSuccesses = n

def OpenSince (t : ℤ) (db : Db) : Prop :=
  ∀ o, ∃ s, stored config provider o db = .ok s ∧ s.state = .opened ∧ s.openedAtMs = some t

def Waited (o : Outside) (db : Db) : Prop :=
  ∀ s t, stored config provider o db = .ok s → s.state = .opened → s.openedAtMs = some t →
    deadline t s.cooldownS ≤ o.now

/-- What becomes of a trial that an action starts. -/
structure TrialRule (before trial : List Action) : Prop where
  counts : Untripped trial → okCount trial < required config →
    HalfOpenWith config provider (okCount trial) (storeAfter config provider (before ++ trial))
  closes : ∀ earlier o outcome, trial = earlier ++ [.record o outcome] → Untripped earlier →
    outcome.isOk = true → okCount earlier + 1 = required config →
    persisted config provider o (storeAfter config provider (before ++ trial)) = .ok .closed
  reopens : ∀ earlier o outcome, trial = earlier ++ [.record o outcome] → Untripped earlier →
    outcome.trippable = true → okCount earlier < required config →
    OpenSince config provider o.now (storeAfter config provider (before ++ trial))

/-- No history leaves a circuit stuck. -/
structure SelfHealing (history : List Action) : Prop where
  readable : ∀ o, ∃ s, stored config provider o (storeAfter config provider history) = .ok s ∧
    (s.state = .opened → s.openedAtMs.isSome) ∧
    (s.state = .halfOpen → 0 ≤ s.probeSuccesses ∧ s.probeSuccesses < required config)
  enters : ∀ o, persisted config provider o (storeAfter config provider history) = .ok .opened →
    Waited config provider o (storeAfter config provider history) →
    SeesHalfOpen config provider o (storeAfter config provider history) ∧
      HalfOpenWith config provider 0
        ((stateOf config provider none).run o.answers (storeAfter config provider history)).2
  trial : ∀ before a during, history = before ++ a :: during →
    Enters config provider a (storeAfter config provider before) →
    TrialRule config provider before (a :: during)
  heals : ∀ probes : List Outside, (probes.length : ℤ) = required config →
    (∀ o ∈ probes, Waited config provider o (storeAfter config provider history)) →
    ∃ n ≤ probes.length, (∀ o, persisted config provider o (storeAfter config provider
        (history ++ (probes.take n).map (Action.record · .ok))) = .ok .closed) ∧
      ((∀ o, persisted config provider o (storeAfter config provider history) = .ok .opened) →
        n = probes.length)

section Trials

variable {config provider} {o : Outside} {db : Db} {c : Circuit} {p : ProviderConfig}
  {cooldown : Numerals.Decimal} {n : ℤ}

theorem okCount_append (trial later : List Action) :
    okCount (trial ++ later) = okCount trial + okCount later := by
  simp [okCount, outcomes]

theorem okCount_nonneg (trial : List Action) : 0 ≤ okCount trial := by simp [okCount]

theorem okCount_none {a : Action} (h : a.outcome? = none) : okCount [a] = 0 := by
  simp [okCount, outcomes, h]

theorem okCount_record (o : Outside) (outcome : Outcome) :
    okCount [.record o outcome] = if outcome.isOk then 1 else 0 := by
  simp [okCount, outcomes, Action.outcome?, List.countP_cons]

theorem untripped_append {trial later : List Action} :
    Untripped (trial ++ later) ↔ Untripped trial ∧ Untripped later := by
  simp [Untripped, outcomes, or_imp, forall_and]

theorem probe_counts {now : ℤ} {outcome : Outcome} (hn : 0 ≤ n)
    (ht : outcome.trippable = false)
    (hlt : n + (if outcome.isOk then 1 else 0) < required config) :
    Circuit.probe config now outcome cooldown n =
      .halfOpen cooldown (n + if outcome.isOk then 1 else 0) := by
  unfold Circuit.probe
  unfold required at hlt
  by_cases hok : outcome.isOk = true
  · simp only [hok, if_true] at hlt ⊢
    rw [if_pos (by omega)]
  · simp [hok, ht]

theorem probe_closes {now : ℤ} {outcome : Outcome} (hok : outcome.isOk = true)
    (heq : n + 1 = required config) : Circuit.probe config now outcome cooldown n = .closed := by
  unfold required at heq
  rw [Circuit.probe, if_pos hok, if_neg (by omega)]

theorem probe_reopens {now : ℤ} {outcome : Outcome} (ht : outcome.trippable = true) :
    Circuit.probe config now outcome cooldown n =
      .opened now (cooldown.double.min config.breaker.cooldownMaxS) := by
  have hok : ¬ outcome.isOk = true := fun h ↦ by simp [Outcome.trippable_of_isOk h] at ht
  rw [Circuit.probe, if_neg hok, if_pos ht]

theorem Circuit.record_of_halfOpen {now : ℤ} {outcome : Outcome} {due : Bool}
    (h : c.advance config now = .halfOpen cooldown n) :
    c.record config now outcome due = Circuit.probe config now outcome cooldown n := by
  rw [Circuit.record, h]

theorem act_counts {due : Bool} {a : Action} (hc : c.advance config a.outside.now = .halfOpen cooldown n)
    (ha : a.asks = true ∨ c = .halfOpen cooldown n) (hn : 0 ≤ n) (ht : Untripped [a])
    (hlt : n + okCount [a] < required config) :
    c.act config due a = .halfOpen cooldown (n + okCount [a]) := by
  cases a with
  | read o =>
    rw [okCount_none rfl, add_zero]
    exact hc
  | allows o =>
    rw [okCount_none rfl, add_zero]
    exact hc
  | note o outcome latencyMs =>
    rcases ha with ha | ha
    · cases ha
    · rw [okCount_none rfl, add_zero]
      exact ha
  | record o outcome =>
    change c.advance config o.now = _ at hc
    rw [okCount_record] at hlt ⊢
    rw [Circuit.act, Circuit.record_of_halfOpen hc]
    exact probe_counts hn (ht outcome (by simp [outcomes, Action.outcome?])) hlt

theorem Kept.trial (hp : config.providers.lookup provider = some p)
    (h : Kept config provider c db) {a : Action} (ha : a.asks = true)
    (hc : c.advance config a.outside.now = .halfOpen cooldown 0) (during : List Action)
    (ht : Untripped (a :: during)) (hlt : okCount (a :: during) < required config) :
    Kept config provider (.halfOpen cooldown (okCount (a :: during)))
      (execAll config provider (a :: during) db) := by
  induction during using List.reverseRec with
  | nil =>
    obtain ⟨due, h'⟩ := h.exec hp a
    rw [act_counts hc (.inl ha) le_rfl ht (by simpa using hlt), zero_add] at h'
    exact h'
  | append_singleton during b ih =>
    rw [← List.cons_append] at ht hlt ⊢
    rw [untripped_append] at ht
    rw [okCount_append] at hlt ⊢
    have hb := okCount_nonneg [b]
    obtain ⟨due, h'⟩ := (ih ht.1 (by omega)).exec hp b
    rw [act_counts rfl (.inr rfl) (okCount_nonneg _) ht.2 hlt] at h'
    rw [execAll_append]
    exact h'

theorem Kept.seen_in_trial (hp : config.providers.lookup provider = some p)
    (h : Kept config provider c db) {a : Action} (ha : a.asks = true)
    (hc : c.advance config a.outside.now = .halfOpen cooldown 0) {earlier during : List Action}
    {b : Action} (he : a :: during = earlier ++ [b]) (ht : Untripped earlier)
    (hlt : okCount earlier < required config) :
    ∃ c', Kept config provider c' (execAll config provider earlier db) ∧
      c'.advance config b.outside.now = .halfOpen cooldown (okCount earlier) := by
  cases earlier with
  | nil =>
    obtain ⟨rfl, -⟩ := List.cons.inj he
    exact ⟨c, h, hc⟩
  | cons a' earlier =>
    obtain ⟨rfl, -⟩ := List.cons.inj he
    exact ⟨_, h.trial hp ha hc earlier ht hlt, rfl⟩

theorem Kept.halfOpenWith (h : Kept config provider (.halfOpen cooldown n) db) :
    HalfOpenWith config provider n db :=
  fun _ ↦ ⟨_, stored_eq h.circuit, rfl, rfl⟩

theorem Kept.openSince {t : ℤ} (h : Kept config provider (.opened t cooldown) db) :
    OpenSince config provider t db :=
  fun _ ↦ ⟨_, stored_eq h.circuit, rfl, rfl⟩

theorem Kept.entering (h : Kept config provider c db)
    (hopen : persisted config provider o db = .ok .opened)
    (hhalf : reported config provider o db = .ok .halfOpen) :
    ∃ cooldown, c.advance config o.now = .halfOpen cooldown 0 := by
  rw [persisted_eq h.circuit] at hopen
  rw [reported_eq h.circuit] at hhalf
  by_cases hcool : c.cooled o.now = true
  · exact ⟨_, Circuit.advance_of_cooled hcool⟩
  · rw [Circuit.advance_of_not_cooled hcool, Except.ok.inj hopen] at hhalf
    cases hhalf

theorem Kept.trialRule (hp : config.providers.lookup provider = some p) {before : List Action}
    (h : Kept config provider c (storeAfter config provider before)) {a : Action}
    (during : List Action)
    (henter : Enters config provider a (storeAfter config provider before)) :
    TrialRule config provider before (a :: during) := by
  obtain ⟨ha, hopen, hhalf⟩ := henter
  obtain ⟨cooldown, hc⟩ := h.entering hopen hhalf
  refine ⟨fun ht hlt ↦ ?_, fun earlier o outcome he ht hok heq ↦ ?_,
    fun earlier o outcome he ht hbad hlt ↦ ?_⟩
  · rw [storeAfter_append]
    exact (h.trial hp ha hc during ht hlt).halfOpenWith
  · obtain ⟨c', hkept, hseen⟩ := h.seen_in_trial hp ha hc he ht (by omega)
    change c'.advance config o.now = _ at hseen
    obtain ⟨due, hkept'⟩ := hkept.record (o := o) hp outcome
    rw [Circuit.record_of_halfOpen hseen, probe_closes hok heq] at hkept'
    rw [he, storeAfter_append, execAll_append]
    exact persisted_eq hkept'.circuit
  · obtain ⟨c', hkept, hseen⟩ := h.seen_in_trial hp ha hc he ht hlt
    change c'.advance config o.now = _ at hseen
    obtain ⟨due, hkept'⟩ := hkept.record (o := o) hp outcome
    rw [Circuit.record_of_halfOpen hseen, probe_reopens hbad] at hkept'
    rw [he, storeAfter_append, execAll_append]
    exact hkept'.openSince

/-- Successes that follow each other close a half-open circuit once they are enough. -/
theorem Kept.heals (hp : config.providers.lookup provider = some p) {probes : List Outside}
    (h : Kept config provider c db) (hn : 0 ≤ n) (hne : probes ≠ [])
    (hc : ∀ o ∈ probes.head?, c.advance config o.now = .halfOpen cooldown n)
    (hlen : n + probes.length = required config) :
    Kept config provider .closed
      (execAll config provider (probes.map (Action.record · .ok)) db) := by
  induction probes generalizing c db n with
  | nil => exact absurd rfl hne
  | cons o probes ih =>
    have hseen := hc o (by simp)
    obtain ⟨due, h'⟩ := h.record (o := o) hp .ok
    rw [Circuit.record_of_halfOpen hseen] at h'
    rw [List.length_cons] at hlen
    rw [List.map_cons, execAll_cons]
    cases probes with
    | nil =>
      rw [probe_closes rfl (by simpa using hlen)] at h'
      exact h'
    | cons o' probes =>
      have hone : (if Outcome.isOk .ok then 1 else 0 : ℤ) = 1 := rfl
      rw [List.length_cons] at hlen
      push_cast at hlen
      rw [probe_counts hn rfl (by omega), hone] at h'
      refine ih h' (by omega) (by simp) (fun _ _ ↦ rfl) ?_
      rw [List.length_cons]
      push_cast
      omega

def InRange (config : GatewayConfig) : Circuit → Prop
  | .halfOpen _ n => 0 ≤ n ∧ n < required config
  | _ => True

theorem required_pos : 0 < required config := by
  unfold required
  omega

theorem InRange.advance (h : InRange config c) (now : ℤ) : InRange config (c.advance config now) := by
  unfold Circuit.advance
  split
  · exact ⟨le_rfl, required_pos⟩
  · exact h

theorem InRange.probe (h : InRange config (.halfOpen cooldown n)) (now : ℤ) (outcome : Outcome) :
    InRange config (Circuit.probe config now outcome cooldown n) := by
  obtain ⟨hn, hlt⟩ := h
  by_cases ht : outcome.trippable = true
  · rw [probe_reopens ht]
    trivial
  · rw [Bool.not_eq_true] at ht
    by_cases heq : n + (if outcome.isOk then 1 else 0) < required config
    · rw [probe_counts hn ht heq]
      exact ⟨by split <;> omega, heq⟩
    · by_cases hok : outcome.isOk = true
      · rw [if_pos hok] at heq
        rw [probe_closes hok (by omega)]
        trivial
      · rw [if_neg hok] at heq
        omega

theorem InRange.act (h : InRange config c) {due : Bool} (a : Action) :
    InRange config (c.act config due a) := by
  cases a with
  | read o => exact h.advance o.now
  | allows o => exact h.advance o.now
  | note o outcome latencyMs => exact h
  | record o outcome =>
    have h' := h.advance o.now
    rw [Circuit.act, Circuit.record]
    cases hc : c.advance config o.now with
    | closed => cases due <;> trivial
    | opened t cooldown => trivial
    | halfOpen cooldown n =>
      rw [hc] at h'
      exact h'.probe o.now outcome

theorem inRange_storeAfter (hp : config.providers.lookup provider = some p)
    (history : List Action) :
    ∃ c, Kept config provider c (storeAfter config provider history) ∧ InRange config c := by
  induction history using List.reverseRec with
  | nil => exact ⟨.closed, kept_empty, trivial⟩
  | append_singleton history a ih =>
    obtain ⟨c, hkept, hrange⟩ := ih
    obtain ⟨due, hkept'⟩ := hkept.exec hp a
    rw [storeAfter_append]
    exact ⟨_, hkept', hrange.act a⟩

theorem Kept.readable (h : Kept config provider c db) (hrange : InRange config c) (o : Outside) :
    ∃ s, stored config provider o db = .ok s ∧ (s.state = .opened → s.openedAtMs.isSome) ∧
      (s.state = .halfOpen → 0 ≤ s.probeSuccesses ∧ s.probeSuccesses < required config) := by
  refine ⟨_, stored_eq h.circuit, fun hs ↦ ?_, fun hs ↦ ?_⟩
  · cases c with
    | opened t cooldown => rfl
    | closed => cases hs
    | halfOpen => cases hs
  · cases c with
    | halfOpen cooldown n => exact hrange
    | closed => cases hs
    | opened => cases hs

/-- From every circuit in range as many successes as are required lead to a closed one. -/
theorem Kept.closes (hp : config.providers.lookup provider = some p)
    (h : Kept config provider c db) (hrange : InRange config c) {probes : List Outside}
    (hlen : (probes.length : ℤ) = required config)
    (hwait : ∀ o ∈ probes, Waited config provider o db) :
    ∃ n ≤ probes.length, Kept config provider .closed
        (execAll config provider ((probes.take n).map (Action.record · .ok)) db) ∧
      (c.state = .opened → n = probes.length) := by
  have hpos : 0 < required config := required_pos
  cases c with
  | closed => exact ⟨0, by omega, h, fun hs ↦ by cases hs⟩
  | opened t cooldown =>
    refine ⟨probes.length, le_rfl, ?_, fun _ ↦ rfl⟩
    rw [List.take_length]
    have hcooled : ∀ o ∈ probes.head?,
        (Circuit.opened t cooldown).advance config o.now = .halfOpen cooldown 0 := fun o ho ↦
      Circuit.advance_of_cooled (cooled_iff.mpr
        (hwait o (List.mem_of_mem_head? ho) _ t (stored_eq h.circuit) rfl rfl))
    exact h.heals hp le_rfl (List.ne_nil_of_length_pos (by omega)) hcooled (by omega)
  | halfOpen cooldown n =>
    obtain ⟨hn, hlt⟩ := hrange
    have htake : (probes.take (required config - n).toNat).length = required config - n := by
      rw [List.length_take]
      omega
    refine ⟨(required config - n).toNat, by omega, ?_, fun hs ↦ by cases hs⟩
    exact h.heals hp hn (List.ne_nil_of_length_pos (by omega)) (fun _ _ ↦ rfl) (by omega)

end Trials

/-- After every history an open circuit whose cooldown has run out starts a trial, a trial is
decided by its successes and its first trippable outcome alone, and enough successes close
the circuit. -/
theorem self_healing {config : GatewayConfig} {provider : String} {p : ProviderConfig}
    (hp : config.providers.lookup provider = some p) (history : List Action) :
    SelfHealing config provider history := by
  obtain ⟨c, hkept, hrange⟩ := inRange_storeAfter hp history
  refine ⟨hkept.readable hrange, fun o hopen hwait ↦ ?_, ?_, fun probes hlen hwait ↦ ?_⟩
  · rw [persisted_eq hkept.circuit] at hopen
    cases c with
    | closed => cases hopen
    | halfOpen => cases hopen
    | opened t cooldown =>
      have hdue : deadline t cooldown ≤ o.now := hwait _ t (stored_eq hkept.circuit) rfl rfl
      refine ⟨hkept.seesHalfOpen hdue, ?_⟩
      obtain ⟨s, db', hrun, -, hkept'⟩ := hkept.stateOf (o := o)
      rw [Circuit.advance_of_cooled (cooled_iff.mpr hdue)] at hkept'
      rw [hrun]
      exact hkept'.halfOpenWith
  · rintro before a during rfl henter
    obtain ⟨c', hkept'⟩ := kept_storeAfter hp before
    exact hkept'.trialRule hp during henter
  · obtain ⟨n, hn, hclosed, hall⟩ := hkept.closes hp hrange hlen hwait
    refine ⟨n, hn, fun o ↦ ?_, fun hopen ↦ hall ?_⟩
    · rw [storeAfter_append]
      exact persisted_eq hclosed.circuit
    · have hopen' := hopen { now := 0 }
      rw [persisted_eq hkept.circuit] at hopen'
      exact Except.ok.inj hopen'

theorem self_healing_failedProbe :
    SelfHealing .shipped "groq" failedProbe ∧
      persisted .shipped "groq" { now := 30000 } (storeAfter .shipped "groq" failedProbe) =
        .ok .opened :=
  ⟨@self_healing .shipped "groq" _ rfl failedProbe, by decide +kernel⟩

end HealingGateway.Breaker
