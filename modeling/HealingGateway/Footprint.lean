import HealingGateway.Router

namespace HealingGateway.Router

open Programs Programs.Prog Numerals JsonText

/-- A command on the stores of the walk alone: the circuits, the windows, the faults. -/
def Own (c : Cmd) : Prop :=
  ∀ k ∈ c.keys, ∃ p, k = Breaker.key p ∨ k = Health.key p ∨ k = Chaos.key p

theorem own_quiet (c : Cmd) (h : c.quiet = true) : Own c := by
  intro k hk
  rw [c.keys_of_quiet h] at hk
  cases hk

def Walks (c : Cmd) : Prop := Own c ∧ c.counts = false

theorem walks_inward (c : Cmd) (h : c.inward = true) : Walks c :=
  ⟨own_quiet c (Cmd.quiet_of_inward h), Cmd.counts_of_inward h⟩

theorem walks_breaker {c : Redis.Command} {p : String} (h : c.keys = [Breaker.key p]) :
    Walks (.redis c) := by
  refine ⟨fun k hk ↦ ?_, rfl⟩
  rw [Cmd.keys, h] at hk
  exact ⟨p, .inl (List.mem_singleton.mp hk)⟩

theorem walks_health (p : String) {c : Redis.Command} (h : ∀ k ∈ c.keys, k = Health.key p) :
    Walks (.redis c) := ⟨fun k hk ↦ ⟨p, .inr (.inl (h k hk))⟩, rfl⟩

theorem walks_chaos {c : Redis.Command} {p : String} (h : c.keys = [Chaos.key p]) :
    Walks (.redis c) := by
  refine ⟨fun k hk ↦ ?_, rfl⟩
  rw [Cmd.keys, h] at hk
  exact ⟨p, .inr (.inr (List.mem_singleton.mp hk))⟩

/-- Leave to look at a circuit and to call a provider: the stores of a walk, what reaches neither
a store nor the metrics, and the metrics of a circuit and of a call. -/
structure Suits (allowed : Cmd → Prop) : Prop where
  inward : ∀ c : Cmd, c.inward = true → allowed c
  breaker : ∀ {c : Redis.Command} {p : String}, c.keys = [Breaker.key p] → allowed (.redis c)
  health : ∀ (p : String) {c : Redis.Command}, (∀ k ∈ c.keys, k = Health.key p) → allowed (.redis c)
  chaos : ∀ {c : Redis.Command} {p : String}, c.keys = [Chaos.key p] → allowed (.redis c)
  completion : ∀ kwargs, allowed (.acompletion kwargs)
  circuit : ∀ provider state, allowed (.metric (.circuitState provider state))
  observed : ∀ result metadata, allowed (.metric (.observe result metadata))

structure Looks (allowed : Cmd → Prop) : Prop where
  inward : ∀ c : Cmd, c.inward = true → allowed c
  breaker : ∀ {c : Redis.Command} {p : String}, c.keys = [Breaker.key p] → allowed (.redis c)
  health : ∀ (p : String) {c : Redis.Command}, (∀ k ∈ c.keys, k = Health.key p) → allowed (.redis c)
  circuit : ∀ provider state, allowed (.metric (.circuitState provider state))
  observed : ∀ result metadata, allowed (.metric (.observe result metadata))

structure Calls (env : Environ) (config : GatewayConfig) (payload : List (String × Json))
    (allowed : Cmd → Prop) (provider : String) : Prop where
  chaos : ∀ {c : Redis.Command}, c.keys = [Chaos.key provider] → allowed (.redis c)
  completion : ∀ p, config.providers.lookup provider = some p →
    allowed (.acompletion (Providers.kwargs env p payload))

/-- Leave to count the steps of a walk. -/
structure Counts (allowed : Cmd → Prop) : Prop where
  failover : ∀ provider next cls reason, allowed (.metric (.failover provider next cls reason))
  hedge : ∀ cls outcome, allowed (.metric (.hedge cls outcome))

theorem Suits.looks {allowed : Cmd → Prop} (hs : Suits allowed) : Looks allowed where
  inward := hs.inward
  breaker := hs.breaker
  health := hs.health
  circuit := hs.circuit
  observed := hs.observed

theorem Suits.calls {allowed : Cmd → Prop} (hs : Suits allowed) (env : Environ)
    (config : GatewayConfig) (payload : List (String × Json)) (provider : String) :
    Calls env config payload allowed provider where
  chaos := hs.chaos
  completion := fun _ _ ↦ hs.completion _

theorem Looks.mono {allowed allowed' : Cmd → Prop} (hl : Looks allowed)
    (h : ∀ c, allowed c → allowed' c) : Looks allowed' where
  inward := fun c hc ↦ h c (hl.inward c hc)
  breaker := fun hc ↦ h _ (hl.breaker hc)
  health := fun p _ hc ↦ h _ (hl.health p hc)
  circuit := fun provider state ↦ h _ (hl.circuit provider state)
  observed := fun result metadata ↦ h _ (hl.observed result metadata)

theorem Counts.mono {allowed allowed' : Cmd → Prop} (hm : Counts allowed)
    (h : ∀ c, allowed c → allowed' c) : Counts allowed' where
  failover := fun provider next cls reason ↦ h _ (hm.failover provider next cls reason)
  hedge := fun cls outcome ↦ h _ (hm.hedge cls outcome)

theorem suits_walks : Suits Walks where
  inward := walks_inward
  breaker := walks_breaker
  health := walks_health
  chaos := walks_chaos
  completion := fun _ ↦ ⟨fun k hk ↦ (by cases hk), rfl⟩
  circuit := fun _ _ ↦ ⟨own_quiet _ rfl, rfl⟩
  observed := fun _ _ ↦ ⟨own_quiet _ rfl, rfl⟩

theorem suits_of_metrics {allowed : Cmd → Prop} (hothers : ∀ c : Cmd, (∀ m, c ≠ .metric m) → allowed c)
    (hcircuit : ∀ provider state, allowed (.metric (.circuitState provider state)))
    (hobserved : ∀ result metadata, allowed (.metric (.observe result metadata))) : Suits allowed where
  inward := by
    intro c hc
    apply hothers
    rintro m rfl
    cases hc
  breaker := fun _ ↦ hothers _ (fun m h ↦ by cases h)
  health := fun _ _ _ ↦ hothers _ (fun m h ↦ by cases h)
  chaos := fun _ ↦ hothers _ (fun m h ↦ by cases h)
  completion := fun kwargs ↦ hothers _ (fun m h ↦ by cases h)
  circuit := hcircuit
  observed := hobserved

section Circuits

variable {config : GatewayConfig} {provider : String} {allowed : Cmd → Prop}

def Unrecorded (allowed : Cmd → Prop) (c : Cmd) : Prop := allowed c ∧ c.records = false

theorem unrecorded_inward (hl : Looks allowed) (c : Cmd) (h : c.inward = true) : Unrecorded allowed c :=
  ⟨hl.inward c h, Cmd.records_of_inward h⟩

theorem unrecorded_circuit (hl : Looks allowed) (state : State) :
    (metric (.circuitState provider state)).Only (Unrecorded allowed) :=
  only_ask ⟨hl.circuit provider state, rfl⟩

theorem only_applyCooldown (hl : Looks allowed) (now : ℤ) (stored : Breaker.CircuitState) :
    (Breaker.applyCooldown provider now stored).Only (Unrecorded allowed) := by
  unfold Breaker.applyCooldown
  split
  · split
    · refine Only.bind ?_ (fun _ ↦ trivial)
      refine Only.bind (only_redis ⟨hl.breaker rfl, rfl⟩) (fun _ ↦ ?_)
      refine Only.bind (only_redis ⟨hl.health provider ?_, rfl⟩) (fun _ ↦ trivial)
      exact fun k hk ↦ List.mem_singleton.mp hk
    · trivial
  · trivial

theorem only_stateOf (hl : Looks allowed) (now? : Option ℤ) :
    (Breaker.stateOf config provider now?).Only allowed := by
  refine Only.bind (only_nowOr (hl.inward _ rfl) now?) (fun now ↦ ?_)
  refine Only.bind (only_redis (hl.breaker rfl)) (fun raw ↦ ?_)
  refine Only.bind (only_ofExcept _) (fun stored ↦ ?_)
  refine Only.bind ((only_applyCooldown hl now stored).mono (fun _ hc ↦ hc.1)) (fun circuit ↦ ?_)
  exact Only.bind (only_ask (hl.circuit _ _)) (fun _ ↦ trivial)

theorem only_allows (hl : Looks allowed) : (Breaker.allows config provider none).Only allowed := by
  refine Only.bind (only_stateOf hl none) (fun circuit ↦ ?_)
  split
  · trivial
  · trivial
  · exact Only.bind (only_ask (hl.inward _ rfl)) (fun _ ↦ trivial)

theorem only_openCircuit (hl : Looks allowed) (now : ℤ) (cooldownS : Decimal) :
    (Breaker.openCircuit provider now cooldownS).Only (Unrecorded allowed) :=
  Only.bind (only_redis ⟨hl.breaker rfl, rfl⟩) (fun _ ↦ unrecorded_circuit hl _)

theorem only_maybeTrip (hl : Looks allowed) (now : ℤ) :
    (Breaker.maybeTrip config provider now).Only (Unrecorded allowed) := by
  refine Only.bind (only_orRaise _ _) (fun p ↦ Only.bind ?_ (fun snap ↦ ?_))
  · refine Only.bind (only_nowOr (unrecorded_inward hl _ rfl) _) (fun now ↦ ?_)
    refine Only.bind (only_redis ⟨hl.health provider ?_, rfl⟩) (fun _ ↦ only_ofExcept _)
    exact fun k hk ↦ List.mem_singleton.mp hk
  · split
    · exact only_openCircuit hl now _
    · trivial

theorem only_recordProbe (hl : Looks allowed) (outcome : Outcome) (circuit : Breaker.CircuitState)
    (now : ℤ) :
    (Breaker.recordProbe config provider outcome circuit now).Only (Unrecorded allowed) := by
  unfold Breaker.recordProbe
  split
  · dsimp only
    split
    · exact only_redis ⟨hl.breaker rfl, rfl⟩
    · exact Only.bind (only_redis ⟨hl.breaker rfl, rfl⟩) (fun _ ↦ unrecorded_circuit hl _)
  · split
    · trivial
    · exact only_openCircuit hl now _

theorem only_fold (hl : Looks allowed) (outcome : Outcome) (circuit : Breaker.CircuitState) (now : ℤ) :
    (match circuit.state with
      | .halfOpen => Breaker.recordProbe config provider outcome circuit now
      | .closed => Breaker.maybeTrip config provider now
      | .opened => return ()).Only (Unrecorded allowed) := by
  split
  · exact only_recordProbe hl outcome circuit now
  · exact only_maybeTrip hl now
  · trivial

theorem only_breakerRecord (hl : Looks allowed) (outcome : Outcome) :
    (Breaker.record config provider outcome none).Only allowed := by
  refine Only.bind (only_nowOr (hl.inward _ rfl) none) (fun now ↦ ?_)
  refine Only.bind (only_stateOf hl _) (fun circuit ↦ ?_)
  exact (only_fold hl outcome circuit now).mono (fun _ hc ↦ hc.1)

theorem only_healthRecord (hl : Looks allowed) (outcome : Outcome) (latencyMs : ℚ) :
    (Health.record config provider outcome latencyMs none none).Only allowed := by
  refine Only.bind (only_nowOr (hl.inward _ rfl) none) (fun now ↦ ?_)
  refine Only.bind (only_ask (hl.inward _ rfl)) (fun uuid ↦ only_redis (hl.health provider ?_))
  simp [Redis.Command.keys, Health.recordWrites, Redis.Write.key]

end Circuits

section Walk

variable {env : Environ} {config : GatewayConfig} {metadata : RequestMetadata}
  {payload : List (String × Json)} {ladder : List String} {allowed : Cmd → Prop}

theorem only_observe (hl : Looks allowed) (result : ProviderResult) :
    (observe config result metadata).Only allowed := by
  refine Only.bind (only_ask (hl.observed _ _)) (fun _ ↦ Only.bind (only_ofExcept _) (fun _ ↦ ?_))
  refine Only.swallow ?_ (fun _ ↦ trivial)
  exact Only.bind (only_healthRecord hl _ _) (fun _ ↦ only_breakerRecord hl _)

theorem only_attempt (hl : Looks allowed) {provider : String}
    (hc : Calls env config payload allowed provider) :
    (attempt env config metadata payload provider).Only allowed := by
  rw [attempt]
  cases hp : config.providers.lookup provider with
  | none => trivial
  | some p =>
    rw [orRaise_some, done_bind]
    refine Only.bind (Only.bind (only_redis (hc.chaos rfl)) (fun _ ↦ only_ofExcept _)) (fun chaos ↦ ?_)
    refine Only.bind (Providers.only_callProvider hl.inward (hc.completion p hp) _ _) (fun result ↦ ?_)
    exact Only.bind (only_observe hl result) (fun _ ↦ trivial)

theorem only_admissibleBy (ha : ∀ p, (Breaker.allows config p none).Only allowed) (limit i : ℕ)
    (ladder : List String) : (admissible config limit i ladder).Only allowed := by
  induction ladder generalizing limit i with
  | nil => cases limit <;> trivial
  | cons provider ladder ih =>
    cases limit with
    | zero => trivial
    | succ limit =>
      refine Only.bind (ha provider) (fun answer ↦ ?_)
      split
      · exact Only.bind (ih limit (i + 1)) (fun _ ↦ trivial)
      · exact ih (limit + 1) (i + 1)

theorem only_admissible (hl : Looks allowed) (limit i : ℕ) (ladder : List String) :
    (admissible config limit i ladder).Only allowed :=
  only_admissibleBy (fun _ ↦ only_allows hl) limit i ladder

theorem returns_admissible (limit i : ℕ) (ladder : List String) :
    (admissible config limit i ladder).Returns (fun admitted ↦ ∀ a ∈ admitted, a.2 ∈ ladder) := by
  induction ladder generalizing limit i with
  | nil => cases limit <;> simp [admissible]
  | cons provider ladder ih =>
    cases limit with
    | zero => simp [admissible]
    | succ limit =>
      refine (returns_any _).bind (fun answer _ ↦ ?_)
      split
      · refine (ih limit (i + 1)).bind (fun others hothers ↦ ?_)
        refine List.forall_mem_cons.mpr ⟨List.mem_cons_self .., fun a ha ↦ ?_⟩
        exact List.mem_cons_of_mem _ (hothers a ha)
      · refine (ih (limit + 1) (i + 1)).mono (fun admitted hadmitted a ha ↦ ?_)
        exact List.mem_cons_of_mem _ (hadmitted a ha)

theorem only_walkBy (ha : ∀ p, (Breaker.allows config p none).Only allowed)
    (hf : ∀ provider next cls reason, allowed (.metric (.failover provider next cls reason)))
    (i : ℕ) {rest : List String}
    (ht : ∀ p ∈ rest, (attempt env config metadata payload p).Only allowed)
    (attempts : List ProviderCallLog) :
    (walk env config metadata payload ladder i rest attempts).Only allowed := by
  induction rest generalizing i attempts with
  | nil => trivial
  | cons provider rest ih =>
    obtain ⟨hprovider, hrest⟩ := List.forall_mem_cons.mp ht
    refine Only.bind (ha provider) (fun answer ↦ ?_)
    split
    · exact ih _ hrest _
    · refine Only.bind hprovider (fun result ↦ ?_)
      split
      · trivial
      · exact Only.bind (only_ask (hf _ _ _ _)) (fun _ ↦ ih _ hrest _)

theorem only_walk (hl : Looks allowed) (hf : ∀ provider next cls reason,
      allowed (.metric (.failover provider next cls reason)))
    (i : ℕ) {rest : List String} (hc : ∀ p ∈ rest, Calls env config payload allowed p)
    (attempts : List ProviderCallLog) :
    (walk env config metadata payload ladder i rest attempts).Only allowed :=
  only_walkBy (fun _ ↦ only_allows hl) hf i (fun p hp ↦ only_attempt hl (hc p hp)) attempts

theorem walks_failover (provider next cls reason : String) :
    Walks (.metric (.failover provider next cls reason)) := ⟨own_quiet _ rfl, rfl⟩

theorem counts_walks : Counts Walks where
  failover := walks_failover
  hedge := fun _ _ ↦ ⟨own_quiet _ rfl, rfl⟩

theorem only_obeys {α : Type} {p : Gateway α} (h : p.Only allowed) :
    p.Obeys (keepingTo allowed) () (fun _ _ ↦ True) := h.obeys (fun _ _ h ↦ h) ()

theorem only_landedFirst (firstIsHedge : Bool) (ended : Except Exn ProviderResult)
    {other : Gateway ProviderResult} (hother : other.Only allowed) :
    (landedFirst firstIsHedge ended other).Only allowed := by
  refine Only.bind (only_ofExcept _) (fun first ↦ ?_)
  split
  · trivial
  · exact Only.bind hother (fun _ ↦ trivial)

theorem only_firstUsable (schedule : RaceSchedule) {primary hedge : Gateway ProviderResult}
    (hprimary : primary.Only allowed) (hhedge : hedge.Only allowed) :
    (firstUsable schedule primary hedge).Only allowed := by
  refine Obeys.only (Q := fun _ _ ↦ True) ?_
  refine Obeys.bind (hprimary.race hhedge schedule.turns) ?_ (fun _ _ _ ↦ trivial)
  rintro _ landing ⟨_, ⟨⟩, hlanding⟩
  cases landing with
  | left ended other =>
    refine Obeys.bind (hlanding.advance schedule.afterFirst) ?_ (fun _ _ _ ↦ trivial)
    rintro _ rest ⟨_, ⟨⟩, hrest⟩
    split
    · exact only_obeys (only_ofExcept _)
    · exact only_obeys (only_landedFirst false ended hrest)
  | right ended other =>
    refine Obeys.bind (hlanding.advance schedule.afterFirst) ?_ (fun _ _ _ ↦ trivial)
    rintro _ rest ⟨_, ⟨⟩, hrest⟩
    split
    · exact only_obeys (only_ofExcept _)
    · exact only_obeys (only_landedFirst true ended hrest)

theorem only_hedgedStartBy (ha : ∀ p, (Breaker.allows config p none).Only allowed)
    (hm : Counts allowed) (ht : ∀ p ∈ ladder, (attempt env config metadata payload p).Only allowed)
    (schedule : RaceSchedule) :
    (hedgedStart env config metadata payload ladder schedule).Only allowed := by
  refine (only_admissibleBy ha 2 0 ladder).bind_returns (returns_admissible 2 0 ladder)
    (fun admitted hadmitted ↦ ?_)
  split
  · next firstI first secondI second others =>
    have hfirst := ht first (hadmitted (firstI, first) (by simp))
    have hsecond := ht second (hadmitted (secondI, second) (by simp))
    refine Obeys.only (Q := fun _ _ ↦ True) ?_
    refine Obeys.bind (hfirst.advance schedule.beforeHedge) ?_ (fun _ _ _ ↦ trivial)
    rintro _ primary ⟨_, ⟨⟩, hprimary⟩
    refine only_obeys ?_
    split
    · refine Only.bind (only_ofExcept _) (fun result ↦ ?_)
      split
      · trivial
      · exact Only.bind (only_ask (hm.failover _ _ _ _)) (fun _ ↦ trivial)
    · refine Only.bind (only_ask (hm.hedge _ _)) (fun _ ↦ ?_)
      refine Only.bind (only_firstUsable schedule hprimary hsecond) (fun settled ↦ ?_)
      refine Only.bind (only_ask (hm.hedge _ _)) (fun _ ↦ Only.bind (only_ofExcept _) (fun others ↦ ?_))
      split
      · trivial
      · exact Only.bind (only_ask (hm.failover _ _ _ _)) (fun _ ↦ trivial)
  · trivial

theorem only_routeBy (ha : ∀ p, (Breaker.allows config p none).Only allowed) (hm : Counts allowed)
    (ht : ∀ p ∈ ladder, (attempt env config metadata payload p).Only allowed)
    (schedule : RaceSchedule) :
    (route env config metadata payload ladder schedule).Only allowed := by
  refine Only.bind (only_orRaise _ _) (fun c ↦ ?_)
  split
  · refine Only.bind (only_hedgedStartBy ha hm ht schedule) (fun raced ↦ ?_)
    unfold resume
    split
    · trivial
    · exact only_walkBy ha hm.failover _ (fun p hp ↦ ht p (List.mem_of_mem_drop hp)) _
  · exact only_walkBy ha hm.failover _ ht _

theorem only_routeOf (hl : Looks allowed) (hm : Counts allowed)
    (hc : ∀ p ∈ ladder, Calls env config payload allowed p) (schedule : RaceSchedule) :
    (route env config metadata payload ladder schedule).Only allowed :=
  only_routeBy (fun _ ↦ only_allows hl) hm (fun p hp ↦ only_attempt hl (hc p hp)) schedule

theorem only_route (schedule : RaceSchedule) :
    (route env config metadata payload ladder schedule).Only Walks :=
  only_routeOf suits_walks.looks counts_walks (fun p _ ↦ suits_walks.calls env config payload p)
    schedule

end Walk

end HealingGateway.Router
