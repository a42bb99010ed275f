import HealingGateway.Library.Numerals
import HealingGateway.Library.Dicts

namespace HealingGateway

open Numerals

/-- The environment variables a process sees. -/
abbrev Environ := String → Option String

/-- A string that is there and not empty. -/
def truthy (s : Option String) : Bool := s.any (· ≠ "")

structure ProviderConfig where
  model : String
  apiKeyEnv : Option String := none
  apiBaseEnv : Option String := none
  apiBaseDefault : Option String := none
  timeoutS : Decimal := ⟨300, 0⟩
  latencyBudgetMs : Decimal := ⟨150000, 0⟩

namespace ProviderConfig

variable (env : Environ) (p : ProviderConfig)

def apiKey : Option String :=
  if truthy p.apiKeyEnv then p.apiKeyEnv.bind env else none

def apiBase : Option String :=
  if truthy p.apiBaseEnv then
    let base := p.apiBaseEnv.bind env
    if truthy base then base else p.apiBaseDefault
  else none

def available : Bool := p.apiKeyEnv.isNone || truthy (p.apiKey env)

end ProviderConfig

structure ClassConfig where
  ladder : List String
  ladder_ne_nil : ladder ≠ [] := by decide
  deferrable : Bool := false
  hedgeAfterMs : Option ℤ := none

structure HealthConfig where
  windowS : ℤ := 60

structure BreakerConfig where
  errorThreshold : Decimal := ⟨5, 0⟩
  minSamples : ℤ := 8
  cooldownS : Decimal := ⟨200, 0⟩
  cooldownMaxS : Decimal := ⟨1200, 0⟩
  probeRatio : Decimal := ⟨1, 0⟩
  probeSuccessesRequired : ℤ := 2

structure QueueConfig where
  maxAttempts : ℤ := 5
  baseDelayS : Decimal := ⟨10, 0⟩
  maxDelayS : Decimal := ⟨600, 0⟩
  pollIntervalS : Decimal := ⟨10, 0⟩
  jobTtlS : ℤ := 86400
  idempotencyTtlS : ℤ := 86400

/-- The whole configuration. What `_check_references` rejects cannot be built. -/
structure GatewayConfig where
  providers : List (String × ProviderConfig)
  classes : List (String × ClassConfig)
  defaultClass : String
  health : HealthConfig := {}
  breaker : BreakerConfig := {}
  queue : QueueConfig := {}
  default_known : (classes.lookup defaultClass).isSome
  ladder_known : ∀ c ∈ classes, ∀ p ∈ c.2.ladder, (providers.lookup p).isSome

namespace GatewayConfig

variable (env : Environ) (config : GatewayConfig)

def isAvailable (name : String) : Bool :=
  (config.providers.lookup name).any (·.available env)

/-- A class's preference list without the providers that cannot serve traffic. -/
def ladderFor (requestClass : String) : List String :=
  match config.classes.lookup requestClass with
  | none => []
  | some c => c.ladder.filter (config.isAvailable env)

theorem ladderFor_known {requestClass name : String}
    (h : name ∈ config.ladderFor env requestClass) : (config.providers.lookup name).isSome := by
  unfold ladderFor at h
  split at h
  · cases h
  · have ha := (List.mem_filter.mp h).2
    unfold isAvailable at ha
    cases hl : config.providers.lookup name with
    | none => rw [hl] at ha; cases ha
    | some p => rfl

/-- `config/gateway.yaml`. -/
def shipped : GatewayConfig where
  providers :=
    [("anthropic", { model := "claude-sonnet-5", apiKeyEnv := some "ANTHROPIC_API_KEY" }),
      ("openai", { model := "gpt-4o-mini", apiKeyEnv := some "OPENAI_API_KEY" }),
      ("groq", { model := "groq/openai/gpt-oss-120b", apiKeyEnv := some "GROQ_API_KEY",
                 latencyBudgetMs := ⟨50000, 0⟩ }),
      ("ollama", { model := "ollama/llama3.2", apiBaseEnv := some "OLLAMA_API_BASE",
                   apiBaseDefault := some "http://localhost:11434", timeoutS := ⟨1200, 0⟩,
                   latencyBudgetMs := ⟨600000, 0⟩ })]
  classes :=
    [("interactive.chat", { ladder := ["anthropic", "openai", "groq", "ollama"] }),
      ("interactive.classify", { ladder := ["groq", "anthropic", "ollama"],
                                 hedgeAfterMs := some 400 }),
      ("batch.generate", { ladder := ["anthropic", "openai", "groq", "ollama"],
                           deferrable := true })]
  defaultClass := "interactive.chat"
  breaker := { probeRatio := ⟨5, 0⟩ }
  queue := { maxAttempts := 8, baseDelayS := ⟨20, 0⟩ }
  default_known := by decide
  ladder_known := by decide

end GatewayConfig

end HealingGateway
