import HealingGateway.Footprint
import HealingGateway.Idempotency
import HealingGateway.JobRecords
import HealingGateway.Monitor

namespace HealingGateway

open Programs Programs.Prog Numerals JsonText

/-- What a task may do beyond looking at circuits and recording calls: for whom it calls, what it
sends, which faults it injects or lifts, which slots it uses and how long they last, which jobs it
accepts, and whether it heeds injected faults, drains the queue or answers a caller. -/
structure Warrant where
  observes : RequestMetadata → Prop := fun _ ↦ False
  sends : List (String × Json) → Prop := fun _ ↦ False
  injects : Chaos.ChaosSpec → ℤ → Prop := fun _ _ ↦ False
  lifts : String → Prop := fun _ ↦ False
  slots : String → ℤ → Prop := fun _ _ ↦ False
  accepts : RequestMetadata → List (String × Json) → Prop := fun _ _ ↦ False
  heeds : Prop := False
  drains : Prop := False
  answers : Prop := False

/-- The commands on the store, in the forms in which the gateway issues them. -/
inductive Stores (w : Warrant) : Redis.Command → Prop
  | readCircuit (p : String) : Stores w (.hgetall (Breaker.key p))
  | moveCircuit (p : String) (c : Breaker.Circuit) (cooldownS : Decimal) :
      Stores w (.write (.hset (Breaker.key p) (Breaker.fields c.state c.openedAt cooldownS)))
  | countProbe (p : String) (n : ℤ) :
      Stores w (.write (.hset (Breaker.key p) [("probe_successes", intString n)]))
  | readWindow (p : String) (above : ℤ) : Stores w (.zrangebyscore (Health.key p) above)
  | noteCall (p : String) (s : Health.Sample) (window : ℤ) :
      Stores w (.pipeline (Health.recordWrites p s.text s.recordedAt window))
  | forgetWindow (p : String) : Stores w (.delete (Health.key p))
  | readFault (h : w.heeds) (p : String) : Stores w (.get (Chaos.key p))
  | inject {spec : Chaos.ChaosSpec} {ttlS : ℤ} (h : w.injects spec ttlS) (hs : spec.Sound) :
      Stores w (.set (Chaos.key spec.provider) (dumps spec.asDict) false ttlS)
  | lift {p : String} (h : w.lifts p) : Stores w (.delete (Chaos.key p))
  | claimSlot {l : String} {ttlS : ℤ} (h : w.slots l ttlS) :
      Stores w (.set (Idempotency.slotKey l) Idempotency.inFlight true ttlS)
  | readSlot {l : String} {ttlS : ℤ} (h : w.slots l ttlS) : Stores w (.get (Idempotency.slotKey l))
  | settleSlot {l : String} {ttlS : ℤ} (h : w.slots l ttlS) {status : ℤ} (hs : status < 400)
      (body : Json) : Stores w (.set (Idempotency.slotKey l) (Idempotency.envelope status body) false ttlS)
  | freeSlot {l : String} {ttlS : ℤ} (h : w.slots l ttlS) : Stores w (.delete (Idempotency.slotKey l))
  | acceptJob (config : GatewayConfig) (id : String) {metadata : RequestMetadata}
      {payload : List (String × Json)} (h : w.accepts metadata payload) (now : ℤ) :
      Stores w (.pipeline (Queue.enqueueWrites config id metadata payload now))
  | readJob (id : String) : Stores w (.hgetall (Queue.key id))
  | listDead (stop : ℤ) : Stores w (.zrange Queue.dlq stop)
  | depth (h : w.drains) : Stores w (.zcard Queue.ready)
  | popJob (h : w.drains) : Stores w (.zpopmin Queue.ready)
  | updateJob (h : w.drains) (id : String) {fields : List (String × String)}
      (hf : Queue.Update fields) : Stores w (.write (.hset (Queue.key id) fields))
  | putJob (h : w.drains) (id : String) (readyAtMs : ℤ) :
      Stores w (.write (.zadd Queue.ready id readyAtMs))
  | buryJob (h : w.drains) (id : String) (now : ℤ) : Stores w (.write (.zadd Queue.dlq id now))

def Metric.plain : Metric → Bool
  | .observe .. | .response .. => false
  | _ => true

inductive Issues (w : Warrant) : Cmd → Prop
  | inward {c : Cmd} (h : c.inward = true) : Issues w c
  | store {c : Redis.Command} (h : Stores w c) : Issues w (.redis c)
  | dispatch {kwargs : List (String × Json)} (h : w.sends kwargs) : Issues w (.acompletion kwargs)
  | observe (result : ProviderResult) {metadata : RequestMetadata} (h : w.observes metadata) :
      Issues w (.metric (.observe result metadata))
  | respond (h : w.answers) (route status : String) : Issues w (.metric (.response route status))
  | count {m : Metric} (h : m.plain = true) : Issues w (.metric m)

abbrev Within {α : Type} (w : Warrant) (p : Gateway α) : Prop := p.Only (Issues w)

section Mono

variable {w w' : Warrant}

structure Warrant.Le (w w' : Warrant) : Prop where
  observes : ∀ m, w.observes m → w'.observes m := by exact fun _ h ↦ h
  sends : ∀ kwargs, w.sends kwargs → w'.sends kwargs := by exact fun _ h ↦ h
  injects : ∀ spec ttlS, w.injects spec ttlS → w'.injects spec ttlS := by exact fun _ _ h ↦ h
  lifts : ∀ p, w.lifts p → w'.lifts p := by exact fun _ h ↦ h
  slots : ∀ l ttlS, w.slots l ttlS → w'.slots l ttlS := by exact fun _ _ h ↦ h
  accepts : ∀ m payload, w.accepts m payload → w'.accepts m payload := by exact fun _ _ h ↦ h
  heeds : w.heeds → w'.heeds := by exact fun h ↦ h
  drains : w.drains → w'.drains := by exact fun h ↦ h
  answers : w.answers → w'.answers := by exact fun h ↦ h

theorem Stores.mono (hle : w.Le w') {c : Redis.Command} (h : Stores w c) : Stores w' c := by
  cases h with
  | readCircuit p => exact .readCircuit p
  | moveCircuit p c cooldownS => exact .moveCircuit p c cooldownS
  | countProbe p n => exact .countProbe p n
  | readWindow p above => exact .readWindow p above
  | noteCall p s window => exact .noteCall p s window
  | forgetWindow p => exact .forgetWindow p
  | readFault h p => exact .readFault (hle.heeds h) p
  | inject h hs => exact .inject (hle.injects _ _ h) hs
  | lift h => exact .lift (hle.lifts _ h)
  | claimSlot h => exact .claimSlot (hle.slots _ _ h)
  | readSlot h => exact .readSlot (hle.slots _ _ h)
  | settleSlot h hs body => exact .settleSlot (hle.slots _ _ h) hs body
  | freeSlot h => exact .freeSlot (hle.slots _ _ h)
  | acceptJob config id h now => exact .acceptJob config id (hle.accepts _ _ h) now
  | readJob id => exact .readJob id
  | listDead stop => exact .listDead stop
  | depth h => exact .depth (hle.drains h)
  | popJob h => exact .popJob (hle.drains h)
  | updateJob h id hf => exact .updateJob (hle.drains h) id hf
  | putJob h id readyAtMs => exact .putJob (hle.drains h) id readyAtMs
  | buryJob h id now => exact .buryJob (hle.drains h) id now

theorem Issues.mono (hle : w.Le w') {c : Cmd} (h : Issues w c) : Issues w' c := by
  cases h with
  | inward h => exact .inward h
  | store h => exact .store (h.mono hle)
  | dispatch h => exact .dispatch (hle.sends _ h)
  | observe result h => exact .observe result (hle.observes _ h)
  | respond h route status => exact .respond (hle.answers h) route status
  | count h => exact .count h

theorem Issues.uncounted (hw : ¬ w.answers) {c : Cmd} (h : Issues w c) : c.counts = false := by
  cases h with
  | inward h => exact Cmd.counts_of_inward h
  | respond h => exact absurd h hw
  | @count m h => cases m <;> first | rfl | cases h
  | store | dispatch | observe => rfl

end Mono

section Within

variable {w : Warrant} {α : Type}

theorem within_redis {c : Redis.Command} (h : Stores w c) : Within w (redis c) :=
  only_redis (.store h)

theorem within_inward {p : Gateway α} (hp : p.Only (fun c ↦ c.inward = true)) : Within w p :=
  hp.mono (fun _ ↦ .inward)

theorem within_metric {m : Metric} (h : m.plain = true) : Within w (metric m) :=
  only_ask (.count h)

theorem within_nowMs : Within w nowMs := only_nowMs (.inward rfl)

theorem within_nowOr (now? : Option ℤ) : Within w (nowOr now?) := only_nowOr (.inward rfl) now?

end Within

namespace Breaker

variable {w : Warrant} (config : GatewayConfig) (provider : String)

theorem within_move (c : Circuit) (cooldownS : Decimal) :
    Within w (redis (.write (.hset (key provider) (fields c.state c.openedAt cooldownS)))) :=
  within_redis (.moveCircuit provider c cooldownS)

theorem within_applyCooldown (now : ℤ) (stored : CircuitState) :
    Within w (applyCooldown provider now stored) := by
  unfold applyCooldown
  split
  · split
    · refine Only.bind ?_ (fun _ ↦ trivial)
      refine Only.bind (within_move provider (.halfOpen stored.cooldownS 0) _) (fun _ ↦ ?_)
      exact Only.bind (within_redis (.forgetWindow provider)) (fun _ ↦ trivial)
    · trivial
  · trivial

theorem within_stateOf (now? : Option ℤ) : Within w (stateOf config provider now?) := by
  refine Only.bind (within_nowOr now?) (fun now ↦ ?_)
  refine Only.bind (within_redis (.readCircuit provider)) (fun raw ↦ ?_)
  refine Only.bind (only_ofExcept _) (fun stored ↦ ?_)
  refine Only.bind (within_applyCooldown provider now stored) (fun circuit ↦ ?_)
  exact Only.bind (within_metric rfl) (fun _ ↦ trivial)

theorem within_allows : Within w (allows config provider none) := by
  refine Only.bind (within_stateOf config provider none) (fun circuit ↦ ?_)
  split
  · trivial
  · trivial
  · exact Only.bind (only_ask (.inward rfl)) (fun _ ↦ trivial)

theorem within_stateOfAll (providers : List String) : Within w (stateOfAll config providers) := by
  induction providers with
  | nil => trivial
  | cons provider providers ih => exact Only.bind (within_stateOf config provider none) (fun _ ↦ ih)

theorem within_seedGauge (providers : List String) : Within w (seedGauge config providers) :=
  Only.swallow (within_stateOfAll config providers) (fun _ ↦ trivial)

theorem within_openCircuit (now : ℤ) (cooldownS : Decimal) :
    Within w (openCircuit provider now cooldownS) :=
  Only.bind (within_move provider (.opened now cooldownS) _) (fun _ ↦ within_metric rfl)

theorem within_snapshot (windowS now? : Option ℤ) :
    Within w (Health.snapshot config provider windowS now?) := by
  refine Only.bind (within_nowOr now?) (fun now ↦ ?_)
  exact Only.bind (within_redis (.readWindow provider _)) (fun _ ↦ only_ofExcept _)

theorem within_maybeTrip (now : ℤ) : Within w (maybeTrip config provider now) := by
  refine Only.bind (only_orRaise _ _) (fun p ↦ ?_)
  refine Only.bind (within_snapshot config provider none _) (fun snap ↦ ?_)
  split
  · exact within_openCircuit provider now _
  · trivial

theorem within_recordProbe (outcome : Outcome) (circuit : CircuitState) (now : ℤ) :
    Within w (recordProbe config provider outcome circuit now) := by
  unfold recordProbe
  split
  · dsimp only
    split
    · exact within_redis (.countProbe provider _)
    · exact Only.bind (within_move provider .closed _) (fun _ ↦ within_metric rfl)
  · split
    · trivial
    · exact within_openCircuit provider now _

theorem within_record (outcome : Outcome) : Within w (record config provider outcome none) := by
  refine Only.bind (within_nowOr none) (fun now ↦ ?_)
  refine Only.bind (within_stateOf config provider _) (fun circuit ↦ ?_)
  split
  · exact within_recordProbe config provider outcome circuit now
  · exact within_maybeTrip config provider now
  · trivial

end Breaker

theorem Health.within_record {w : Warrant} (config : GatewayConfig) (provider : String)
    (outcome : Outcome) (latencyMs : ℚ) :
    Within w (Health.record config provider outcome latencyMs none none) := by
  refine Only.bind (within_nowOr none) (fun now ↦ ?_)
  refine Only.bind (only_ask (.inward rfl)) (fun uuid ↦ ?_)
  exact within_redis (.noteCall provider ⟨now, uuid, outcome, latencyMs⟩ _)

namespace Router

variable {w : Warrant} {env : Environ} {config : GatewayConfig} {metadata : RequestMetadata}
  {payload : List (String × Json)} {ladder : List String}

theorem within_observe (h : w.observes metadata) (result : ProviderResult) :
    Within w (observe config result metadata) := by
  refine Only.bind (only_ask (.observe result h)) (fun _ ↦ Only.bind (only_ofExcept _) (fun _ ↦ ?_))
  refine Only.swallow ?_ (fun _ ↦ trivial)
  exact Only.bind (Health.within_record config _ _ _) (fun _ ↦ Breaker.within_record config _ _)

/-- Leave to send a payload to the providers of a ladder. -/
def Sends (env : Environ) (config : GatewayConfig) (ladder : List String)
    (payload kwargs : List (String × Json)) : Prop :=
  ∃ name ∈ ladder, ∃ p, config.providers.lookup name = some p ∧
    kwargs = Providers.kwargs env p payload

theorem within_attempt (hh : w.heeds) (ho : w.observes metadata)
    (hs : ∀ kwargs, Sends env config ladder payload kwargs → w.sends kwargs) {provider : String}
    (hp : provider ∈ ladder) : Within w (attempt env config metadata payload provider) := by
  rw [attempt]
  cases hl : config.providers.lookup provider with
  | none => trivial
  | some p =>
    rw [orRaise_some, done_bind]
    refine Only.bind (Only.bind (within_redis (.readFault hh provider)) (fun _ ↦ only_ofExcept _))
      (fun chaos ↦ ?_)
    have hdispatch : Issues w (.acompletion (Providers.kwargs env p payload)) :=
      .dispatch (hs _ ⟨provider, hp, p, hl, rfl⟩)
    refine Only.bind (Providers.only_callProvider (fun _ ↦ .inward) hdispatch _ _) (fun result ↦ ?_)
    exact Only.bind (within_observe ho result) (fun _ ↦ trivial)

theorem counts_issues : Counts (Issues w) where
  failover := fun _ _ _ _ ↦ .count rfl
  hedge := fun _ _ ↦ .count rfl

theorem within_route (hh : w.heeds) (ho : w.observes metadata)
    (hs : ∀ kwargs, Sends env config ladder payload kwargs → w.sends kwargs)
    (schedule : RaceSchedule) : Within w (route env config metadata payload ladder schedule) :=
  only_routeBy (fun p ↦ Breaker.within_allows config p) counts_issues
    (fun _ hp ↦ within_attempt hh ho hs hp) schedule

end Router

end HealingGateway
