import HealingGateway.Responses

namespace HealingGateway

/-- A provider is broken on purpose. What validation rejects cannot be built. -/
structure ChaosRequest where
  provider : String
  errorRate : Numerals.Decimal := ⟨0, 0⟩
  latencyMs : ℤ := 0
  errorType : String := Outcome.serverError.value
  ttlS : ℤ := 120
  errorRate_bounds : 0 ≤ errorRate.toRat ∧ errorRate.toRat ≤ 1
  latencyMs_bounds : 0 ≤ latencyMs ∧ latencyMs ≤ 120000
  ttlS_bounds : 0 < ttlS ∧ ttlS ≤ 3600

def ChaosRequest.spec (request : ChaosRequest) : Chaos.ChaosSpec where
  provider := request.provider
  errorRate := request.errorRate
  latencyMs := request.latencyMs
  errorType := request.errorType

def Outcome.repr (o : Outcome) : String :=
  "<Outcome." ++ o.value.toUpper ++ ": " ++ Texts.repr o.value ++ ">"

namespace Main

open Programs Programs.Prog Numerals JsonText

variable (env : Environ) (config : GatewayConfig)

def providerNames : List String := config.providers.map Prod.fst

def healthz : Json :=
  .obj [("status", .str "ok"),
    ("providers", .obj (config.providers.map (fun p ↦
      (p.1, .str (if p.2.available env then "available" else "disabled"))))),
    ("classes", .obj (config.classes.map (fun c ↦
      (c.1, .arr ((config.ladderFor env c.1).map .str)))))]

def listModels : Json :=
  .obj [("object", .str "list"),
    ("data", .arr ((config.providers.filter (fun p ↦ p.2.available env)).map (fun p ↦
      .obj [("id", .str p.1), ("object", .str "model"), ("owned_by", .str p.1),
        ("model", .str p.2.model)])))]

def snapshots : List String → Gateway (List (String × Health.HealthSnapshot))
  | [] => return []
  | name :: names => do
    let snap ← Health.snapshot config name none none
    let snaps ← snapshots names
    return (name, snap) :: snaps

def adminHealth : Gateway (List (String × Health.HealthSnapshot)) := snapshots config (providerNames config)

def circuitStates : List String → Gateway (List (String × Breaker.CircuitState))
  | [] => return []
  | name :: names => do
    let circuit ← Breaker.stateOf config name none
    let circuits ← circuitStates names
    return (name, circuit) :: circuits

def adminCircuits : Gateway (List (String × Breaker.CircuitState)) :=
  circuitStates config (providerNames config)

def adminChaosList : Gateway Json := do
  let specs ← Chaos.active (providerNames config)
  return .obj (specs.map (fun s ↦ (s.1, s.2.asDict)))

/-- `sorted(chaos.INJECTABLE)`. -/
def sortedInjectables : List Outcome :=
  Chaos.injectables.mergeSort (fun o o' ↦ !decide (o'.value < o.value))

def adminChaosSet (request : ChaosRequest) : Gateway Json :=
  if (config.providers.lookup request.provider).isNone then
    throw (.http 400 ("unknown provider " ++ Texts.repr request.provider ++ "; known: " ++
      listing (sortedNames config.providers)))
  else if !Chaos.isInjectable request.errorType then
    throw (.http 400 ("error_type must be one of [" ++
      ", ".intercalate (sortedInjectables.map Outcome.repr) ++ "]"))
  else do
    Chaos.set_ request.spec request.ttlS
    return .obj [("chaos", request.spec.asDict), ("expires_in_s", .int request.ttlS)]

def adminChaosClear (provider : String) : Gateway Json := do
  let cleared ← Chaos.clear provider
  return .obj [("provider", .str provider), ("cleared", .bool cleared)]

end Main

end HealingGateway
