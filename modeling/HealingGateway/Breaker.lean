import HealingGateway.Health

namespace HealingGateway.Breaker

open Programs Programs.Prog Numerals

/-- One provider's circuit, as the router reads it. -/
structure CircuitState where
  provider : String
  state : State := .closed
  openedAtMs : Option ℤ := none
  cooldownS : Decimal := ⟨0, 0⟩
  probeSuccesses : ℤ := 0
  retryInS : ℚ := 0

def key (provider : String) : String := "breaker:" ++ provider

/-- `raw.get(name)`, where an empty text counts as absent. -/
def field (raw : List (String × String)) (name : String) : Option String :=
  (raw.lookup name).filter (· ≠ "")

/-- The value of a field, `absent` without the field, and a `ValueError` where its text
does not parse. -/
def parsed {α : Type} (raw : List (String × String)) (name : String) (absent : α)
    (parse : String → Option α) : Except Exn α :=
  match field raw name with
  | none => .ok absent
  | some text =>
    match parse text with
    | some a => .ok a
    | none => .error (.valueError text)

def readCircuit (config : GatewayConfig) (provider : String) (raw : List (String × String)) :
    Except Exn CircuitState := do
  let state ← parsed raw "state" .closed State.ofValue?
  let openedAtMs ← parsed raw "opened_at_ms" none (fun s ↦ (parseInt s).map some)
  let cooldownS ← parsed raw "cooldown_s" config.breaker.cooldownS parseDecimal
  let probeSuccesses ← parsed raw "probe_successes" 0 parseInt
  return { provider, state, openedAtMs, cooldownS, probeSuccesses }

def fields (state : State) (openedAtMs : Option ℤ) (cooldownS : Decimal) :
    List (String × String) :=
  [("state", state.value),
    ("opened_at_ms", (openedAtMs.map intString).getD ""),
    ("cooldown_s", decimalString cooldownS),
    ("probe_successes", "0")]

def enterHalfOpen (provider : String) (cooldownS : Decimal) : Gateway Unit := do
  redis (.write (.hset (key provider) (fields .halfOpen none cooldownS)))
  let _ ← redis (.delete (Health.key provider))

def elapsedS (now openedAtMs : ℤ) : ℚ := (now - openedAtMs : ℤ) / 1000

/-- The lazy transition from open to half-open. -/
def applyCooldown (provider : String) (now : ℤ) (stored : CircuitState) : Gateway CircuitState :=
  match stored.state, stored.openedAtMs with
  | .opened, some openedAtMs =>
    if stored.cooldownS.toRat ≤ elapsedS now openedAtMs then do
      enterHalfOpen provider stored.cooldownS
      return { stored with state := .halfOpen, probeSuccesses := 0 }
    else return { stored with retryInS := stored.cooldownS.toRat - elapsedS now openedAtMs }
  | _, _ => return stored

section

variable {provider : String} {now t : ℤ} {c : CircuitState}

theorem applyCooldown_cooled (hs : c.state = .opened) (ho : c.openedAtMs = some t)
    (hc : c.cooldownS.toRat ≤ elapsedS now t) :
    applyCooldown provider now c = (do
      enterHalfOpen provider c.cooldownS
      return { c with state := .halfOpen, probeSuccesses := 0 }) := by
  simp only [applyCooldown, hs, ho, if_pos hc]

theorem applyCooldown_waiting (hs : c.state = .opened) (ho : c.openedAtMs = some t)
    (hc : ¬ c.cooldownS.toRat ≤ elapsedS now t) :
    applyCooldown provider now c =
      pure { c with retryInS := c.cooldownS.toRat - elapsedS now t } := by
  simp only [applyCooldown, hs, ho, if_neg hc]

end

/-- The current state. Reading is what takes an open circuit whose cooldown ran out to
half-open. -/
def stateOf (config : GatewayConfig) (provider : String) (now? : Option ℤ) :
    Gateway CircuitState := do
  let now ← nowOr now?
  let raw ← redis (.hgetall (key provider))
  let stored ← ofExcept (readCircuit config provider raw)
  let circuit ← applyCooldown provider now stored
  metric (.circuitState provider circuit.state)
  return circuit

def stateOfAll (config : GatewayConfig) : List String → Gateway Unit
  | [] => return ()
  | provider :: providers => do
    let _ ← stateOf config provider none
    stateOfAll config providers

def seedGauge (config : GatewayConfig) (providers : List String) : Gateway Unit :=
  exceptException (stateOfAll config providers) (fun _ ↦ return ())

def probeDraw (config : GatewayConfig) (draw : ℚ) : Bool × String :=
  if draw < config.breaker.probeRatio.toRat then (true, "")
  else (false, "circuit half-open, not selected as probe")

def allows (config : GatewayConfig) (provider : String) (now? : Option ℤ) :
    Gateway (Bool × String) := do
  let circuit ← stateOf config provider now?
  match circuit.state with
  | .closed => return (true, "")
  | .opened =>
    return (false, "circuit open, retry in " ++ intString (roundHalfEven circuit.retryInS) ++ "s")
  | .halfOpen => do
    let draw : ℚ ← ask Cmd.random
    return probeDraw config draw

/-- `_open`. -/
def openCircuit (provider : String) (now : ℤ) (cooldownS : Decimal) : Gateway Unit := do
  redis (.write (.hset (key provider) (fields .opened (some now) cooldownS)))
  metric (.circuitState provider .opened)

def tripDue (cfg : BreakerConfig) (budgetMs : Decimal) (snap : Health.HealthSnapshot) : Bool :=
  if (snap.healthSamples : ℤ) < cfg.minSamples then false
  else cfg.errorThreshold.toFloat < Floats.binary64 snap.trippableErrorRate || budgetMs.toFloat < snap.p95Ms

def maybeTrip (config : GatewayConfig) (provider : String) (now : ℤ) : Gateway Unit := do
  let p ← orRaise (.keyError provider) (config.providers.lookup provider)
  let snap ← Health.snapshot config provider none (some now)
  if tripDue config.breaker p.latencyBudgetMs snap then
    openCircuit provider now config.breaker.cooldownS
  else return ()

def recordProbe (config : GatewayConfig) (provider : String) (outcome : Outcome)
    (circuit : CircuitState) (now : ℤ) : Gateway Unit := do
  if outcome.isOk then
    let successes := circuit.probeSuccesses + 1
    if successes < config.breaker.probeSuccessesRequired then
      redis (.write (.hset (key provider) [("probe_successes", intString successes)]))
    else do
      redis (.write (.hset (key provider) (fields .closed none config.breaker.cooldownS)))
      metric (.circuitState provider .closed)
  else if !outcome.trippable then return ()
  else
    openCircuit provider now
      (circuit.cooldownS.double.min config.breaker.cooldownMaxS)

def record (config : GatewayConfig) (provider : String) (outcome : Outcome) (now? : Option ℤ) :
    Gateway Unit := do
  let now ← nowOr now?
  let circuit ← stateOf config provider (some now)
  match circuit.state with
  | .halfOpen => recordProbe config provider outcome circuit now
  | .closed => maybeTrip config provider now
  | .opened => return ()

end HealingGateway.Breaker
