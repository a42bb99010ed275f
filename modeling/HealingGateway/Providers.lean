import HealingGateway.Chaos
import HealingGateway.Config

namespace HealingGateway.Providers

open Programs Programs.Prog Numerals JsonText

/-- `getattr(obj, name, None)` on what the provider library returned. -/
def attr (obj : Option Json) (name : String) : Option Json := obj.bind (·.get? name)

def tokenCount (usage : Option Json) (name : String) : ℤ :=
  match attr usage name with
  | some (.int n) => n
  | _ => 0

def pricedBy (model : String) : Gateway (Option String) :=
  exceptException
    (do
      let found ← ask (Cmd.llmProvider model)
      let provider ← ofExcept found
      return some provider)
    (fun _ ↦ return none)

def costOf (response : Json) (model : String) : Gateway Decimal := do
  let provider ← pricedBy model
  exceptException
    (do
      let cost ← ask (Cmd.completionCost response model provider)
      ofExcept cost)
    (fun _ ↦ return ⟨0, 0⟩)

def ownKwargs (env : Environ) (p : ProviderConfig) : List (String × Json) :=
  [("model", .str p.model), ("timeout", .float p.timeoutS)] ++
    ((p.apiKey env).filter (· ≠ "")).toList.map (fun k ↦ ("api_key", .str k)) ++
    ((p.apiBase env).filter (· ≠ "")).toList.map (fun b ↦ ("api_base", .str b))

def kwargs (env : Environ) (p : ProviderConfig) (payload : List (String × Json)) :
    List (String × Json) :=
  Dicts.merge payload (ownKwargs env p)

def inject : Option Chaos.ChaosSpec → Gateway Unit
  | none => return ()
  | some spec => spec.apply

def dispatch (kwargs : List (String × Json)) (chaos : Option Chaos.ChaosSpec) :
    Gateway (Except Exn Json) := do
  inject chaos
  let answer ← ask (Cmd.acompletion kwargs)
  let response ← ofExcept answer
  return .ok response

def failed (name : String) (p : ProviderConfig) (started : ℚ) (e : Exn) :
    Gateway ProviderResult := do
  let ended : ℚ ← ask Cmd.perfCounter
  return {
    provider := name
    model := p.model
    outcome := classifyException e
    latencyMs := (ended - started) * 1000
    error := some (e.typeName ++ ": " ++ e.text) }

def succeeded (name : String) (p : ProviderConfig) (started : ℚ) (response : Json) :
    Gateway ProviderResult := do
  let usage := response.get? "usage"
  let ended : ℚ ← ask Cmd.perfCounter
  let costUsd ← costOf response p.model
  return {
    provider := name
    model := p.model
    outcome := .ok
    latencyMs := (ended - started) * 1000
    promptTokens := tokenCount usage "prompt_tokens"
    completionTokens := tokenCount usage "completion_tokens"
    costUsd
    response := some response }

def callProvider (env : Environ) (name : String) (p : ProviderConfig)
    (payload : List (String × Json)) (chaos : Option Chaos.ChaosSpec) :
    Gateway ProviderResult := do
  let started : ℚ ← ask Cmd.perfCounter
  let answer ← exceptException (dispatch (kwargs env p payload) chaos) (fun e ↦ return .error e)
  match answer with
  | .ok response => succeeded name p started response
  | .error e => failed name p started e

section Only

variable {allowed : Cmd → Prop}

theorem only_costOf (h : ∀ c : Cmd, c.inward = true → allowed c) (response : Json) (model : String) :
    (costOf response model).Only allowed := by
  refine Only.bind ?_ (fun provider ↦ ?_)
  · refine Only.swallow ((only_ask (h _ rfl)).bind (fun _ ↦ ?_)) (fun _ ↦ trivial)
    exact (only_ofExcept _).bind (fun _ ↦ trivial)
  · exact Only.swallow ((only_ask (h _ rfl)).bind (fun _ ↦ only_ofExcept _)) (fun _ ↦ trivial)

/-- A call asks the provider library for one completion, with the arguments the gateway
merged. -/
theorem only_callProvider {env : Environ} {p : ProviderConfig} {payload : List (String × Json)}
    (h : ∀ c : Cmd, c.inward = true → allowed c)
    (hcall : allowed (.acompletion (kwargs env p payload))) (name : String)
    (chaos : Option Chaos.ChaosSpec) :
    (callProvider env name p payload chaos).Only allowed := by
  refine (only_ask (h _ rfl)).bind (fun started ↦ Only.bind ?_ (fun answer ↦ ?_))
  · refine Only.swallow (Only.bind ?_ (fun _ ↦ ?_)) (fun _ ↦ trivial)
    · cases chaos with
      | none => trivial
      | some spec => exact spec.only_apply h
    · exact (only_ask hcall).bind (fun _ ↦ (only_ofExcept _).bind (fun _ ↦ trivial))
  · cases answer with
    | ok response =>
      refine (only_ask (h _ rfl)).bind (fun _ ↦ ?_)
      exact (only_costOf h _ _).bind (fun _ ↦ trivial)
    | error e => exact (only_ask (h _ rfl)).bind (fun _ ↦ trivial)

end Only

end HealingGateway.Providers
