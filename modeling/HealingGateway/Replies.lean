import HealingGateway.HedgedAnswers
import HealingGateway.Keyspace
import HealingGateway.Outages

namespace HealingGateway

open Programs Programs.Prog Numerals JsonText

/-- What can be turned into the one shape callers see, and reports no negative number of tokens. -/
structure Presentable (response : Json) : Prop where
  shown : ∀ result : ProviderResult, result.response = some response → Schemas.renderable result = true
  prompt : 0 ≤ Providers.tokenCount (response.get? "usage") "prompt_tokens"
  completion : 0 ≤ Providers.tokenCount (response.get? "usage") "completion_tokens"

/-- What a store that conforms replies, and what is replied where nothing outside misbehaves. -/
def Sane : (c : Cmd) → Reply c → Prop
  | .redis c, r => ∃ now db, Conforms db ∧ r = (Redis.exec now c db).1.mapError errorExn
  | .sleep _, r => r = .ok ()
  | .acompletion _, r => (∀ e ∈ raised r, e.isException = true) ∧ ∀ j, r = .ok j → Presentable j
  | .llmProvider _, r => ∀ e ∈ raised r, e.isException = true
  | .completionCost .., r =>
    (∀ e ∈ raised r, e.isException = true) ∧ ∀ cost, r = .ok cost → 0 ≤ cost.toRat
  | _, _ => True

section Commands

variable {α : Type} {P : α → Prop}

theorem delivers_redis {c : Redis.Command} {P : Redis.Reply c → Prop}
    (h : ∀ now db, Conforms db → ∃ r, (Redis.exec now c db).1 = .ok r ∧ P r) :
    (redis c).Delivers Sane P := by
  intro r hr
  obtain ⟨now, db, hdb, rfl⟩ := hr
  obtain ⟨r, hr, hP⟩ := h now db hdb
  rw [hr]
  exact hP

theorem delivers_stores {w : Warrant} {c : Redis.Command} (hc : Stores w c)
    (hlasting : ∀ key value nx ex, c = .set key value nx ex → 0 < ex) :
    (redis c).Delivers Sane (fun _ ↦ True) := by
  refine delivers_redis (fun now db hdb ↦ ?_)
  have hok := (hdb.exec hc now).2 hlasting
  cases hr : (Redis.exec now c db).1 with
  | ok r => exact ⟨r, rfl, trivial⟩
  | error e =>
    rw [hr] at hok
    cases hok

theorem delivers_write {w : Warrant} {write : Redis.Write} (hc : Stores w (.write write)) :
    (redis (.write write)).Delivers Sane (fun _ ↦ True) :=
  delivers_stores hc (fun _ _ _ _ h ↦ by cases h)

theorem delivers_ask (c : Cmd) : (ask c : Gateway (Reply c)).Delivers Sane (Sane c) := fun _ hr ↦ hr

theorem delivers_nowOr (now? : Option ℤ) : (nowOr now?).Delivers Sane (fun _ ↦ True) := by
  cases now? with
  | none => exact fun _ _ ↦ trivial
  | some now => trivial

end Commands

def bystander : Warrant := {}

namespace Health

variable (config : GatewayConfig) (provider : String)

theorem delivers_snapshot (windowS now? : Option ℤ) :
    (snapshot config provider windowS now?).Delivers Sane (fun _ ↦ True) := by
  refine (delivers_nowOr now?).bind (fun now _ ↦ ?_)
  refine Delivers.bind (delivers_redis (fun _ _ hdb ↦ hdb.zrangebyscore_window _ provider _))
    (fun members hmembers ↦ delivers_ofExcept ?_)
  obtain ⟨snap, hsnap, -⟩ := summarise_readings provider hmembers
  exact ⟨snap, hsnap, trivial⟩

theorem delivers_record (outcome : Outcome) (latencyMs : ℚ) (windowS now? : Option ℤ) :
    (record config provider outcome latencyMs windowS now?).Delivers Sane (fun _ ↦ True) := by
  refine (delivers_nowOr now?).bind (fun now _ ↦ (delivers_ask .uuid4).bind (fun uuid _ ↦ ?_))
  have hnote : Stores bystander (.pipeline (recordWrites provider
      (memberText now uuid.token outcome latencyMs) now (windowMs config windowS))) :=
    .noteCall provider ⟨now, uuid, outcome, latencyMs⟩ _
  exact delivers_stores hnote (fun _ _ _ _ h ↦ by cases h)

end Health

namespace Breaker

variable (config : GatewayConfig) (provider : String)

theorem delivers_move (c : Circuit) (cooldownS : Decimal) :
    (redis (.write (.hset (key provider) (fields c.state c.openedAt cooldownS)))).Delivers Sane
      (fun _ ↦ True) := delivers_write (Stores.moveCircuit (w := bystander) provider c cooldownS)

theorem delivers_applyCooldown (now : ℤ) (stored : CircuitState) :
    (applyCooldown provider now stored).Delivers Sane (fun _ ↦ True) := by
  have henter : (enterHalfOpen provider stored.cooldownS).Delivers Sane (fun _ ↦ True) := by
    refine (delivers_move provider (.halfOpen stored.cooldownS 0) _).bind (fun _ _ ↦ ?_)
    refine Delivers.bind (P := fun _ ↦ True) ?_ (fun _ _ ↦ trivial)
    exact delivers_stores (Stores.forgetWindow (w := bystander) provider) (fun _ _ _ _ h ↦ by cases h)
  unfold applyCooldown
  split
  · split
    · exact henter.bind (fun _ _ ↦ trivial)
    · trivial
  · trivial

theorem delivers_stateOf (now? : Option ℤ) :
    (stateOf config provider now?).Delivers Sane (fun _ ↦ True) := by
  refine (delivers_nowOr now?).bind (fun now _ ↦ ?_)
  refine Delivers.bind (delivers_redis (fun _ _ hdb ↦ hdb.hgetall_circuit _ provider)) (fun raw hraw ↦ ?_)
  obtain ⟨stored, hstored, -⟩ := hraw config
  refine (delivers_ofExcept ⟨stored, hstored, trivial⟩).bind (fun stored (_ : True) ↦ ?_)
  refine (delivers_applyCooldown provider now stored).bind (fun circuit _ ↦ ?_)
  exact (delivers_ask (.metric _)).bind (fun _ _ ↦ trivial)

theorem delivers_allows (now? : Option ℤ) :
    (allows config provider now?).Delivers Sane (fun _ ↦ True) := by
  refine (delivers_stateOf config provider now?).bind (fun circuit _ ↦ ?_)
  split
  · trivial
  · trivial
  · exact (delivers_ask .random).bind (fun _ _ ↦ trivial)

theorem delivers_seedGauge (providers : List String) :
    (seedGauge config providers).Delivers Sane (fun _ ↦ True) := by
  refine Delivers.swallow ?_
  induction providers with
  | nil => trivial
  | cons provider providers ih => exact (delivers_stateOf config provider none).bind (fun _ _ ↦ ih)

theorem delivers_openCircuit (now : ℤ) (cooldownS : Decimal) :
    (openCircuit provider now cooldownS).Delivers Sane (fun _ ↦ True) :=
  (delivers_move provider (.opened now cooldownS) _).bind (fun _ _ ↦ (delivers_ask (.metric _)).mono
    (fun _ _ ↦ trivial))

theorem delivers_recordProbe (outcome : Outcome) (circuit : CircuitState) (now : ℤ) :
    (recordProbe config provider outcome circuit now).Delivers Sane (fun _ ↦ True) := by
  unfold recordProbe
  split
  · dsimp only
    split
    · exact delivers_write (Stores.countProbe (w := bystander) provider _)
    · refine (delivers_move provider .closed _).bind (fun _ _ ↦ ?_)
      exact (delivers_ask (.metric _)).mono (fun _ _ ↦ trivial)
  · split
    · trivial
    · exact delivers_openCircuit provider now _

variable {config provider}

theorem delivers_record (hknown : (config.providers.lookup provider).isSome) (outcome : Outcome)
    (now? : Option ℤ) : (record config provider outcome now?).Delivers Sane (fun _ ↦ True) := by
  obtain ⟨p, hp⟩ := Option.isSome_iff_exists.mp hknown
  refine (delivers_nowOr now?).bind (fun now _ ↦ ?_)
  refine (delivers_stateOf config provider _).bind (fun circuit _ ↦ ?_)
  split
  · exact delivers_recordProbe config provider outcome circuit now
  · rw [maybeTrip, hp, orRaise_some, done_bind]
    refine (Health.delivers_snapshot config provider none _).bind (fun snap _ ↦ ?_)
    split
    · exact delivers_openCircuit provider now _
    · trivial
  · trivial

end Breaker

/-- An ending that raises nothing but what `except Exception` catches. -/
def Civil {α : Type} (r : Except Exn α) : Prop := ∀ e, r = .error e → e.isException = true

theorem Civil.ok {α : Type} (a : α) : Civil (.ok a : Except Exn α) := fun _ h ↦ by cases h

theorem civil_of_raised {α : Type} {r : Except Exn α} (h : ∀ e ∈ raised r, e.isException = true) :
    Civil r := by
  rintro e rfl
  exact h e rfl

theorem Civil.error {α β : Type} {e : Exn} (h : Civil (.error e : Except Exn α)) :
    Civil (.error e : Except Exn β) := by
  rintro _ ⟨⟩
  exact h e rfl

theorem Civil.bind {α β : Type} {x : Except Exn α} {f : α → Except Exn β} (hx : Civil x)
    (hf : ∀ a, Civil (f a)) : Civil (x >>= f) := by
  cases x with
  | ok a => exact hf a
  | error e => exact hx.error

namespace Queue

theorem civil_required {α : Type} (raw : List (String × String)) (name : String)
    (parse : String → Option α) : Civil (required raw name parse) := by
  unfold required
  split
  · rintro _ ⟨⟩
    rfl
  · split
    · exact Civil.ok _
    · rintro _ ⟨⟩
      rfl

theorem civil_jobOf (raw : List (String × String)) : Civil (jobOf raw) := by
  cases raw with
  | nil => exact Civil.ok none
  | cons f raw =>
    have hread : Civil (readJob (f :: raw)) := by
      unfold readJob
      repeat refine Civil.bind (civil_required _ _ _) (fun _ ↦ ?_)
      exact Civil.ok _
    rw [jobOf]
    cases hr : readJob (f :: raw) with
    | ok job => exact Civil.ok _
    | error e => exact (hr ▸ hread).error

theorem finishes_get (jobId : String) : (get jobId).Finishes Sane Civil := by
  rw [get_eq]
  have hread : (redis (.hgetall (key jobId))).Finishes Sane Civil :=
    (delivers_redis (fun now _ hdb ↦ hdb.hgetall_job now jobId)).finishes (fun raw _ ↦ Civil.ok raw)
  exact hread.bind (fun raw _ ↦ finishes_ofExcept (civil_jobOf raw))
    (fun _ he ↦ he.error)

end Queue

namespace Chaos

theorem delivers_get (provider : String) :
    (get provider).Delivers Sane (fun found ↦ ∀ spec ∈ found, spec.Sound) := by
  refine Delivers.bind (delivers_redis (fun _ _ hdb ↦ hdb.get_fault _ provider))
    (fun found hfound ↦ delivers_ofExcept ?_)
  cases found with
  | none => exact ⟨none, rfl, fun _ h ↦ by cases h⟩
  | some text =>
    obtain ⟨spec, -, hs, rfl⟩ := hfound text rfl
    refine ⟨some spec, readRaw_asDict spec, fun _ h ↦ ?_⟩
    cases h
    exact hs

theorem ChaosSpec.Sound.finishes_apply {spec : ChaosSpec} (hs : spec.Sound) :
    spec.apply.Finishes Sane Civil := by
  have hdelay : spec.delay.Finishes Sane Civil := by
    unfold ChaosSpec.delay
    split
    · exact Civil.ok ()
    · rintro _ rfl
      exact Civil.ok ()
  refine hdelay.bind (fun _ _ ↦ ?_) (fun _ he ↦ he.error)
  unfold ChaosSpec.strike
  split
  · exact Civil.ok ()
  · intro draw _
    change (spec.strikes draw).Finishes Sane Civil
    unfold ChaosSpec.strikes
    split
    · intro e h
      cases h
      exact hs.classify_fault.1
    · exact Civil.ok ()

end Chaos

namespace Providers

theorem delivers_pricedBy (model : String) : (pricedBy model).Delivers Sane (fun _ ↦ True) := by
  refine Finishes.swallow (Q := Civil) ?_ (fun _ _ ↦ trivial) (fun e he ↦ ⟨he e rfl, trivial⟩)
  intro found hfound
  cases found with
  | ok provider => exact Civil.ok _
  | error e => exact civil_of_raised (r := .error e) hfound

theorem delivers_costOf (response : Json) (model : String) :
    (costOf response model).Delivers Sane (fun cost ↦ 0 ≤ cost.toRat) := by
  refine (delivers_pricedBy model).bind (fun provider _ ↦ ?_)
  have hasked : (do
      let cost ← ask (Cmd.completionCost response model provider)
      ofExcept cost : Gateway Decimal).Finishes Sane
        (Sane (.completionCost response model provider)) :=
    fun cost hcost ↦ finishes_ofExcept hcost
  refine hasked.swallow (fun cost hcost ↦ hcost.2 cost rfl) (fun e he ↦ ⟨he.1 e rfl, ?_⟩)
  simp [Decimal.toRat]

/-- What a call of a provider comes to: its result, which can be shown to callers and counted. -/
structure Served (name : String) (result : ProviderResult) : Prop where
  provider : result.provider = name
  shown : result.outcome.isOk = true → Schemas.renderable result = true
  billable : result.Billable

def Dispatched : Except Exn (Except Exn Json) → Prop
  | .ok (.ok response) => Presentable response
  | .ok (.error _) => True
  | .error e => e.isException = true

theorem finishes_dispatch (kwargs : List (String × Json)) {chaos : Option Chaos.ChaosSpec}
    (hchaos : ∀ spec ∈ chaos, spec.Sound) : (dispatch kwargs chaos).Finishes Sane Dispatched := by
  have hinject : (inject chaos).Finishes Sane Civil := by
    cases chaos with
    | none => exact Civil.ok ()
    | some spec => exact (hchaos spec rfl).finishes_apply
  refine hinject.bind (fun _ _ ↦ ?_) (fun e he ↦ he e rfl)
  rintro answer ⟨hraised, hpresentable⟩
  cases answer with
  | ok response => exact hpresentable response rfl
  | error e => exact hraised e rfl

theorem delivers_callProvider (env : Environ) (name : String) (p : ProviderConfig)
    (payload : List (String × Json)) {chaos : Option Chaos.ChaosSpec}
    (hchaos : ∀ spec ∈ chaos, spec.Sound) :
    (callProvider env name p payload chaos).Delivers Sane (Served name) := by
  refine (delivers_ask .perfCounter).bind (fun started _ ↦ ?_)
  refine Delivers.bind (P := fun answer ↦ ∀ response, answer = .ok response → Presentable response)
    ?_ (fun answer hanswer ↦ ?_)
  · refine (finishes_dispatch _ hchaos).swallow ?_ ?_
    · rintro _ hd response rfl
      exact hd
    · exact fun e he ↦ ⟨he, fun response h ↦ by cases h⟩
  · cases answer with
    | ok response =>
      refine (delivers_ask .perfCounter).bind (fun ended _ ↦ ?_)
      have hpresentable := hanswer response rfl
      refine (delivers_costOf _ _).bind (fun costUsd hcost ↦ ⟨rfl, fun _ ↦ hpresentable.shown _ rfl, fun _ ↦ ?_⟩)
      exact ⟨hpresentable.prompt, hpresentable.completion, hcost⟩
    | error e =>
      have hfailed : (classifyException e).isOk ≠ true :=
        fun hok ↦ absurd (of_decide_eq_true hok) (classifyException_ne_ok e)
      refine (delivers_ask .perfCounter).bind (fun ended _ ↦ ?_)
      exact ⟨rfl, fun hok ↦ absurd hok hfailed, fun hok ↦ absurd hok hfailed⟩

end Providers

end HealingGateway
