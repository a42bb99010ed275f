import HealingGateway.Library.JsonText
import HealingGateway.Taxonomy

namespace HealingGateway

open Numerals JsonText

/-- A circuit's state, as `breaker.State`. -/
inductive State
  | closed | opened | halfOpen
  deriving DecidableEq

namespace State

def value : State → String
  | closed => "closed"
  | opened => "open"
  | halfOpen => "half_open"

def ofValue? (name : String) : Option State :=
  [closed, opened, halfOpen].find? (fun s ↦ s.value = name)

@[simp] theorem ofValue?_value (s : State) : ofValue? s.value = some s := by
  cases s <;> decide

theorem value_ne_empty (s : State) : s.value ≠ "" := by
  cases s <;> decide

def gaugeValue : State → ℕ
  | closed => 0
  | opened => 1
  | halfOpen => 2

end State

/-- Where a job is, as `queue.Status`. -/
inductive Status
  | queued | running | done | failed | dead
  deriving DecidableEq

namespace Status

def value : Status → String
  | queued => "queued"
  | running => "running"
  | done => "done"
  | failed => "failed"
  | dead => "dead"

def ofValue? (name : String) : Option Status :=
  [queued, running, done, failed, dead].find? (fun s ↦ s.value = name)

@[simp] theorem ofValue?_value (s : Status) : ofValue? s.value = some s := by
  cases s <;> decide

def terminal : Status → Bool
  | done | failed | dead => true
  | _ => false

end Status

structure RequestMetadata where
  tenant : String
  feature : String
  requestId : String
  requestClass : String
  deriving DecidableEq

structure ProviderResult where
  provider : String
  model : String
  outcome : Outcome
  latencyMs : ℚ
  promptTokens : ℤ := 0
  completionTokens : ℤ := 0
  costUsd : Decimal := ⟨0, 0⟩
  response : Option Json := none
  error : Option String := none

def ProviderResult.totalTokens (result : ProviderResult) : ℤ :=
  result.promptTokens + result.completionTokens

/-- What a call that was served has to report for counters to take it. -/
def ProviderResult.Billable (result : ProviderResult) : Prop :=
  result.outcome.isOk = true →
    0 ≤ result.promptTokens ∧ 0 ≤ result.completionTokens ∧ 0 ≤ result.costUsd.toRat

instance decidableBillable (result : ProviderResult) : Decidable result.Billable :=
  inferInstanceAs (Decidable (_ → _ ∧ _ ∧ _))

/-- One rung of the ladder, for the attempts trail. -/
structure ProviderCallLog where
  provider : String
  outcome : String
  latencyMs : Decimal
  error : Option String := none
  extra : List (String × Json) := []

def optionalText (s : Option String) : Json :=
  match s with
  | some s => .str s
  | none => .null

/-- `asdict(log)`. -/
def ProviderCallLog.asDict (log : ProviderCallLog) : Json :=
  .obj [("provider", .str log.provider), ("outcome", .str log.outcome),
    ("latency_ms", .float log.latencyMs), ("error", optionalText log.error),
    ("extra", .obj log.extra)]

inductive HedgeLabel
  | fired | wonByHedge | wasted
  deriving DecidableEq

/-- The Prometheus updates. -/
inductive Metric
  | circuitState (provider : String) (state : State)
  | failover (source target requestClass reason : String)
  | hedge (requestClass : String) (label : HedgeLabel)
  | queueDepth (depth : ℕ)
  | queueRetry (attempt : String)
  | dlq
  | jobAge (status : Status) (ageS : ℚ)
  | observe (result : ProviderResult) (metadata : RequestMetadata)
  | response (route status : String)

end HealingGateway
