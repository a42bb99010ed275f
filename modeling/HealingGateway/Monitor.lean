import HealingGateway.Breaker
import HealingGateway.Window

namespace HealingGateway.Breaker

open Numerals Health

/-- What a provider's breaker hash stands for. -/
inductive Circuit
  | closed
  | opened (openedAt : ℤ) (cooldown : Decimal)
  | halfOpen (cooldown : Decimal) (successes : ℤ)
  deriving DecidableEq

namespace Circuit

def state : Circuit → State
  | closed => .closed
  | opened .. => .opened
  | halfOpen .. => .halfOpen

def cooled (now : ℤ) : Circuit → Bool
  | opened t cooldown => cooldown.toRat ≤ elapsedS now t
  | _ => false

def cooldown (config : GatewayConfig) : Circuit → Decimal
  | closed => config.breaker.cooldownS
  | opened _ c => c
  | halfOpen c _ => c

def successes : Circuit → ℤ
  | halfOpen _ n => n
  | _ => 0

def openedAt : Circuit → Option ℤ
  | opened t _ => some t
  | _ => none

def view (config : GatewayConfig) (provider : String) (c : Circuit) : CircuitState where
  provider
  state := c.state
  openedAtMs := c.openedAt
  cooldownS := c.cooldown config
  probeSuccesses := c.successes

/-- What reading at `now` makes of a circuit. -/
def advance (config : GatewayConfig) (now : ℤ) (c : Circuit) : Circuit :=
  if c.cooled now then halfOpen (c.cooldown config) 0 else c

def probe (config : GatewayConfig) (now : ℤ) (outcome : Outcome) (cooldown : Decimal)
    (successes : ℤ) : Circuit :=
  if outcome.isOk then
    if successes + 1 < config.breaker.probeSuccessesRequired then halfOpen cooldown (successes + 1)
    else closed
  else if outcome.trippable then opened now (cooldown.double.min config.breaker.cooldownMaxS)
  else halfOpen cooldown successes

/-- What recording an outcome at `now` makes of a circuit, where `trips` says what a
closed one finds in the window. -/
def record (config : GatewayConfig) (now : ℤ) (outcome : Outcome) (trips : Bool) (c : Circuit) :
    Circuit :=
  match c.advance config now with
  | closed => if trips then opened now config.breaker.cooldownS else closed
  | opened t cooldown => opened t cooldown
  | halfOpen cooldown n => probe config now outcome cooldown n

end Circuit

/-- A circuit together with the calls recorded since it last entered half-open. -/
structure Monitor where
  circuit : Circuit
  calls : List Sample

/-- Enough calls that count, and too many of them failed or they were too slow, by an arithmetic
that rounds. -/
def TripCondition (rnd : ℚ → ℚ) (cfg : BreakerConfig) (budgetMs : Decimal) (ev : List Sample) : Prop :=
  cfg.minSamples ≤ ev.length ∧
    (rnd cfg.errorThreshold.toRat < rnd (trippableRate ev) ∨ rnd budgetMs.toRat < p95 rnd ev)

instance (rnd : ℚ → ℚ) (cfg : BreakerConfig) (budgetMs : Decimal) (ev : List Sample) :
    Decidable (TripCondition rnd cfg budgetMs ev) :=
  inferInstanceAs (Decidable (_ ∧ (_ ∨ _)))

namespace Monitor

variable (config : GatewayConfig) (budgetMs : Decimal)

def start : Monitor := ⟨.closed, []⟩

def read (now : ℤ) (m : Monitor) : Monitor :=
  ⟨m.circuit.advance config now, if m.circuit.cooled now then [] else m.calls⟩

def note (s : Sample) (m : Monitor) : Monitor := ⟨m.circuit, m.calls ++ [s]⟩

def tripsAt (now : ℤ) (m : Monitor) : Prop :=
  TripCondition Floats.binary64 config.breaker budgetMs (evidence (windowMs config none) now m.calls)

instance (now : ℤ) (m : Monitor) : Decidable (m.tripsAt config budgetMs now) :=
  inferInstanceAs (Decidable (TripCondition ..))

def record (now : ℤ) (outcome : Outcome) (m : Monitor) : Monitor :=
  ⟨m.circuit.record config now outcome (decide (m.tripsAt config budgetMs now)),
    (m.read config now).calls⟩

end Monitor

end HealingGateway.Breaker
