import HealingGateway.Library.Failures
import HealingGateway.Router

namespace HealingGateway

open Programs Programs.Prog Numerals JsonText

section Failures

def raised {α : Type} : Except Exn α → Option Exn
  | .ok _ => none
  | .error e => some e

/-- A reply that raises nothing but what `except Exception` catches. -/
def Ordinary : (c : Cmd) → Reply c → Prop
  | .redis _, r => ∀ e ∈ raised r, e.isException = true
  | .sleep _, r => ∀ e ∈ raised r, e.isException = true
  | .acompletion _, r => ∀ e ∈ raised r, e.isException = true
  | .llmProvider _, r => ∀ e ∈ raised r, e.isException = true
  | .completionCost .., r => ∀ e ∈ raised r, e.isException = true
  | _, _ => True

/-- A Redis command that raised, or a circuit or a fault spec that does not parse. -/
def unreadable (config : GatewayConfig) : (c : Cmd) → Reply c → Bool
  | .redis _, .error _ => true
  | .redis (.hgetall _), .ok raw => !(Breaker.readCircuit config "" raw).isOk
  | .redis (.get _), .ok raw => !(Chaos.readRaw raw).isOk
  | _, _ => false

/-- A counter that refuses what a call reports. -/
def refused : Cmd → Bool
  | .metric (.observe result _) => !decide result.Billable
  | _ => false

def failures (config : GatewayConfig) : Failures Cmd Reply where
  possible := Ordinary
  fails c r := refused c || unreadable config c r

/-- The reply where nothing is stored and nothing is changed. -/
def emptyReply : (c : Redis.Command) → Redis.Reply c
  | .write _ => ()
  | .pipeline _ => ()
  | .delete _ => false
  | .hgetall _ => []
  | .get _ => none
  | .set .. => false
  | .zrangebyscore .. => []
  | .zrange .. => []
  | .zpopmin _ => none
  | .zcard _ => 0

/-- An unreadable circuit reads as no circuit, which is closed, an unreadable fault spec as
no fault, and an unwritable record is not recorded. -/
def mend (config : GatewayConfig) : (c : Cmd) → Reply c → Reply c
  | .redis c, r => if unreadable config (.redis c) r then .ok (emptyReply c) else r
  | _, r => r

end Failures

section Brittle

variable {α β : Type} {config : GatewayConfig}

theorem brittle_metric {m : Metric} (hm : refused (.metric m) = false) :
    (metric m).Brittle (failures config) :=
  brittle_ask (fun _ ↦ by simp only [failures, hm, unreadable, Bool.or_self])

theorem brittle_redis {c : Redis.Command}
    (hc : ∀ r, unreadable config (.redis c) (.ok r) = false) :
    (redis c).Brittle (failures config) := by
  change (call false (Cmd.redis c) (fun r ↦ ofExcept r) : Gateway _).Brittle (failures config)
  apply brittle_checked
  intro r
  cases r with
  | ok r => exact hc r
  | error e => rfl

theorem brittle_read {c : Redis.Command} {parse : Redis.Reply c → Except Exn α}
    {f : α → Gateway β} (hc : ∀ r, unreadable config (.redis c) (.ok r) = !(parse r).isOk)
    (hf : ∀ a, (f a).Brittle (failures config)) :
    (do
      let r ← redis c
      let a ← ofExcept (parse r)
      f a).Brittle (failures config) := by
  have hread : (call false (Cmd.redis c) (fun r ↦ ofExcept (r >>= parse)) :
      Gateway α).Brittle (failures config) := by
    apply brittle_checked
    intro r
    cases r with
    | ok r => exact hc r
    | error e => rfl
  rw [← LawfulMonad.bind_assoc]
  refine Brittle.bind ?_ hf
  convert hread using 1
  rw [redis, ask_bind, call_bind]
  congr 1
  funext r
  cases r <;> rfl

theorem raises_redis {c : Redis.Command} :
    (redis c).Raises (failures config) (fun e ↦ e.isException = true) := by
  refine ⟨trivial, fun r hr ↦ ?_⟩
  cases r with
  | ok r => exact raises_done r
  | error e => exact raises_throw (hr e rfl)

end Brittle

section Parsing

variable {config : GatewayConfig} {provider : String} {e : Exn}

theorem isException_of_parsed {α : Type} {raw : List (String × String)} {name : String}
    {absent : α} {parse : String → Option α}
    (h : Breaker.parsed raw name absent parse = .error e) : e.isException = true := by
  unfold Breaker.parsed at h
  split at h
  · cases h
  · split at h <;> cases h
    rfl

theorem isException_of_readCircuit {raw : List (String × String)}
    (h : Breaker.readCircuit config provider raw = .error e) : e.isException = true := by
  simp only [Breaker.readCircuit, bind_eq_error] at h
  rcases h with h | ⟨_, -, h | ⟨_, -, h | ⟨_, -, h | ⟨_, -, h⟩⟩⟩⟩
  · exact isException_of_parsed h
  · exact isException_of_parsed h
  · exact isException_of_parsed h
  · exact isException_of_parsed h
  · cases h

theorem isException_of_tallyMember {t : Health.Tally} {m : String}
    (h : Health.tallyMember t m = .error e) : e.isException = true := by
  rcases bind_eq_error.mp h with h | ⟨_, -, h⟩
  · unfold Health.readMember at h
    split at h
    · split at h <;> cases h
      rfl
    · cases h
      rfl
  · cases h

theorem isException_of_tally {members : List String} {t : Health.Tally}
    (h : members.foldlM Health.tallyMember t = .error e) : e.isException = true := by
  induction members generalizing t with
  | nil => cases h
  | cons m members ih =>
    rw [List.foldlM_cons] at h
    rcases bind_eq_error.mp h with h | ⟨_, -, h⟩
    · exact isException_of_tallyMember h
    · exact ih h

theorem isException_of_summarise {members : List String}
    (h : Health.summarise provider members = .error e) : e.isException = true := by
  unfold Health.summarise at h
  split at h
  · cases h
  · rcases bind_eq_error.mp h with h | ⟨_, -, h⟩
    · exact isException_of_tally h
    · cases h

theorem isOk_readCircuit (raw : List (String × String)) :
    (Breaker.readCircuit config provider raw).isOk =
      (Breaker.readCircuit config "" raw).isOk := by
  simp only [Breaker.readCircuit]
  cases Breaker.parsed raw "state" .closed State.ofValue? with
  | error e => rfl
  | ok state =>
    cases Breaker.parsed raw "opened_at_ms" none (fun s ↦ (parseInt s).map some) with
    | error e => rfl
    | ok openedAtMs =>
      cases Breaker.parsed raw "cooldown_s" config.breaker.cooldownS parseDecimal with
      | error e => rfl
      | ok cooldownS =>
        cases Breaker.parsed raw "probe_successes" 0 parseInt <;> rfl

end Parsing

section Recording

variable (config : GatewayConfig) (provider : String) (outcome : Outcome)

abbrev Swallowed {α : Type} (p : Gateway α) : Prop :=
  p.Raises (failures config) (fun e ↦ e.isException = true)

theorem swallowed_nowOr (now? : Option ℤ) : Swallowed config (nowOr now?) := by
  cases now? with
  | none => exact (raises_ask _).bind (fun _ ↦ raises_done _)
  | some now => exact raises_done _

theorem swallowed_health (latencyMs : ℚ) (windowS now? : Option ℤ) :
    Swallowed config (Health.record config provider outcome latencyMs windowS now?) :=
  (swallowed_nowOr config now?).bind (fun _ ↦ (raises_ask _).bind (fun _ ↦ raises_redis))

theorem swallowed_applyCooldown (now : ℤ) (stored : Breaker.CircuitState) :
    Swallowed config (Breaker.applyCooldown provider now stored) := by
  unfold Breaker.applyCooldown
  split
  · split
    · refine Raises.bind ?_ (fun _ ↦ raises_done _)
      exact raises_redis.bind (fun _ ↦ raises_redis.bind (fun _ ↦ raises_done _))
    · exact raises_done _
  · exact raises_done _

theorem swallowed_stateOf (now? : Option ℤ) :
    Swallowed config (Breaker.stateOf config provider now?) := by
  refine (swallowed_nowOr config now?).bind (fun now ↦ raises_redis.bind (fun raw ↦ ?_))
  refine (raises_ofExcept (fun _ ↦ isException_of_readCircuit)).bind (fun stored ↦ ?_)
  refine (swallowed_applyCooldown config provider now stored).bind (fun circuit ↦ ?_)
  exact (raises_ask _).bind (fun _ ↦ raises_done _)

theorem swallowed_openCircuit (now : ℤ) (cooldownS : Decimal) :
    Swallowed config (Breaker.openCircuit provider now cooldownS) :=
  raises_redis.bind (fun _ ↦ raises_ask _)

theorem swallowed_maybeTrip (now : ℤ) :
    Swallowed config (Breaker.maybeTrip config provider now) := by
  refine Raises.bind ?_ (fun p ↦ Raises.bind ?_ (fun snap ↦ ?_))
  · cases config.providers.lookup provider with
    | none => exact raises_throw rfl
    | some p => exact raises_done p
  · refine raises_redis.bind (fun members ↦ ?_)
    exact raises_ofExcept (fun _ ↦ isException_of_summarise)
  · split
    · exact swallowed_openCircuit config provider now _
    · exact raises_done _

theorem swallowed_recordProbe (circuit : Breaker.CircuitState) (now : ℤ) :
    Swallowed config (Breaker.recordProbe config provider outcome circuit now) := by
  unfold Breaker.recordProbe
  split
  · dsimp only
    split
    · exact raises_redis
    · exact raises_redis.bind (fun _ ↦ raises_ask _)
  · split
    · exact raises_done _
    · exact swallowed_openCircuit config provider now _

theorem swallowed_breaker (now? : Option ℤ) :
    Swallowed config (Breaker.record config provider outcome now?) := by
  refine (swallowed_nowOr config now?).bind (fun now ↦ ?_)
  refine (swallowed_stateOf config provider (some now)).bind (fun circuit ↦ ?_)
  split
  · exact swallowed_recordProbe config provider outcome circuit now
  · exact swallowed_maybeTrip config provider now
  · exact raises_done _

end Recording

section Walk

variable {env : Environ} {config : GatewayConfig} {metadata : RequestMetadata}
  {payload : List (String × Json)} {ladder : List String} {provider : String}

theorem brittle_applyCooldown (now : ℤ) (stored : Breaker.CircuitState) :
    (Breaker.applyCooldown provider now stored).Brittle (failures config) := by
  unfold Breaker.applyCooldown
  split
  · split
    · refine Brittle.bind ?_ (fun _ ↦ trivial)
      refine (brittle_redis (fun _ ↦ rfl)).bind (fun _ ↦ ?_)
      exact (brittle_redis (fun _ ↦ rfl)).bind (fun _ ↦ trivial)
    · trivial
  · trivial

theorem brittle_nowMs : nowMs.Brittle (failures config) :=
  (brittle_ask (fun _ ↦ rfl)).bind (fun _ ↦ trivial)

theorem brittle_allows : (Breaker.allows config provider none).Brittle (failures config) := by
  refine Brittle.bind ?_ (fun circuit ↦ ?_)
  · refine Brittle.bind brittle_nowMs (fun now ↦ ?_)
    refine brittle_read (fun raw ↦ ?_) (fun stored ↦ ?_)
    · rw [isOk_readCircuit]
      rfl
    · refine (brittle_applyCooldown now stored).bind (fun circuit ↦ ?_)
      exact (brittle_metric rfl).bind (fun _ ↦ trivial)
  · split
    · trivial
    · trivial
    · exact (brittle_ask (fun _ ↦ rfl)).bind (fun _ ↦ trivial)

theorem swallowed_apply (spec : Chaos.ChaosSpec) : Swallowed config spec.apply := by
  refine Raises.bind ?_ (fun _ ↦ ?_)
  · unfold Chaos.ChaosSpec.delay
    split
    · exact raises_done _
    · refine ⟨trivial, fun r hr ↦ ?_⟩
      cases r with
      | ok slept => exact raises_done _
      | error e => exact raises_throw (hr e rfl)
  · unfold Chaos.ChaosSpec.strike
    split
    · exact raises_done _
    · refine (raises_ask _).bind (fun draw ↦ ?_)
      unfold Chaos.ChaosSpec.strikes
      split
      · apply raises_throw
        unfold Chaos.ChaosSpec.fault
        split
        · rfl
        · split
          · rfl
          · simp [Chaos.llmExc, Exn.isException, Exn.isInstance, Exn.mro]
      · exact raises_done _

theorem brittle_costOf (response : Json) (model : String) :
    (Providers.costOf response model).Brittle (failures config) := by
  refine Brittle.bind (Brittle.swallow ?_ (fun _ ↦ trivial)) (fun provider ↦
    Brittle.swallow ?_ (fun _ ↦ trivial))
  · refine ⟨trivial, fun r hr ↦ ?_⟩
    cases r with
    | ok provider => exact raises_done _
    | error e => exact raises_throw (hr e rfl)
  · refine ⟨trivial, fun r hr ↦ ?_⟩
    cases r with
    | ok cost => exact raises_done _
    | error e => exact raises_throw (hr e rfl)

theorem brittle_callProvider (p : ProviderConfig) (chaos : Option Chaos.ChaosSpec) :
    (Providers.callProvider env provider p payload chaos).Brittle (failures config) := by
  refine (brittle_ask (fun _ ↦ rfl)).bind (fun started ↦ ?_)
  refine Brittle.bind (Brittle.swallow ?_ (fun _ ↦ trivial)) (fun answer ↦ ?_)
  · refine Raises.bind ?_ (fun _ ↦ ?_)
    · cases chaos with
      | none => exact raises_done _
      | some spec => exact swallowed_apply spec
    · refine ⟨trivial, fun r hr ↦ ?_⟩
      cases r with
      | ok response => exact raises_done _
      | error e => exact raises_throw (hr e rfl)
  · cases answer with
    | ok response =>
      refine (brittle_ask (fun _ ↦ rfl)).bind (fun ended ↦ ?_)
      exact (brittle_costOf _ _).bind (fun _ ↦ trivial)
    | error e => exact (brittle_ask (fun _ ↦ rfl)).bind (fun _ ↦ trivial)

namespace Router

theorem brittle_observe (result : ProviderResult) :
    (observe config result metadata).Brittle (failures config) := by
  have hcounted : (call false (Cmd.metric (.observe result metadata)) (fun _ ↦ ofExcept (counted result)) :
      Gateway Unit).Brittle (failures config) := by
    refine brittle_checked (fun _ ↦ ?_)
    by_cases hbillable : result.Billable
    · simp [failures, refused, unreadable, counted, hbillable, Except.isOk, Except.toBool]
    · simp [failures, refused, unreadable, counted, hbillable, Except.isOk, Except.toBool]
  rw [observe, ← LawfulMonad.bind_assoc]
  refine Brittle.bind hcounted (fun _ ↦ Brittle.swallow ?_ (fun _ ↦ trivial))
  exact (swallowed_health config _ _ _ _ _).bind (fun _ ↦ swallowed_breaker config _ _ _)

theorem brittle_attempt (hp : (config.providers.lookup provider).isSome) :
    (attempt env config metadata payload provider).Brittle (failures config) := by
  obtain ⟨p, hp⟩ := Option.isSome_iff_exists.mp hp
  rw [attempt, hp, orRaise_some, done_bind, Chaos.get, LawfulMonad.bind_assoc]
  refine brittle_read (fun raw ↦ rfl) (fun chaos ↦ ?_)
  refine (brittle_callProvider p chaos).bind (fun result ↦ ?_)
  exact (brittle_observe result).bind (fun _ ↦ trivial)

theorem brittle_countFailover (i : ℕ) (result : ProviderResult) :
    (countFailover provider ladder i metadata result).Brittle (failures config) :=
  brittle_metric rfl

theorem brittle_walk {rest : List String}
    (hrest : ∀ p ∈ rest, (config.providers.lookup p).isSome) (i : ℕ)
    (attempts : List ProviderCallLog) :
    (walk env config metadata payload ladder i rest attempts).Brittle (failures config) := by
  induction rest generalizing i attempts with
  | nil => trivial
  | cons provider rest ih =>
    obtain ⟨hprovider, hrest⟩ := List.forall_mem_cons.mp hrest
    refine brittle_allows.bind (fun answer ↦ ?_)
    split
    · exact ih hrest _ _
    · refine (brittle_attempt hprovider).bind (fun result ↦ ?_)
      split
      · trivial
      · exact (brittle_countFailover _ _).bind (fun _ ↦ ih hrest _ _)

end Router

end Walk

end HealingGateway
