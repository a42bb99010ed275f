import HealingGateway.Library.Quantiles
import HealingGateway.Library.Texts
import HealingGateway.Config
import HealingGateway.Effects

namespace HealingGateway.Health

open Programs Programs.Prog Numerals

/-- One provider's recent behaviour. The rates and the percentiles are over the calls
that say something about the provider: successes and trippable failures. -/
structure HealthSnapshot where
  provider : String
  samples : ℕ := 0
  healthSamples : ℕ := 0
  successes : ℕ := 0
  successRate : ℚ := 1
  errorsByType : List (String × ℕ) := []
  trippableErrors : ℕ := 0
  trippableErrorRate : ℚ := 0
  p50Ms : ℚ := 0
  p95Ms : ℚ := 0
  p99Ms : ℚ := 0

def key (provider : String) : String := "health:" ++ provider

def windowMs (config : GatewayConfig) (windowS : Option ℤ) : ℤ :=
  windowS.getD config.health.windowS * 1000

def memberText (now : ℤ) (token : String) (outcome : Outcome) (latencyMs : ℚ) : String :=
  intString now ++ ":" ++ token ++ ":" ++ outcome.value ++ ":" ++
    decimalString (roundTenth latencyMs)

def recordWrites (provider member : String) (now window : ℤ) : List Redis.Write :=
  [.zadd (key provider) member now,
    .zremrangebyscore (key provider) (now - window),
    .expire (key provider) (window / 1000 * 2)]

def record (config : GatewayConfig) (provider : String) (outcome : Outcome) (latencyMs : ℚ)
    (windowS now? : Option ℤ) : Gateway Unit := do
  let now ← nowOr now?
  let window := windowMs config windowS
  let uuid : Uuid ← ask Cmd.uuid4
  redis (.pipeline
    (recordWrites provider (memberText now uuid.token outcome latencyMs) now window))

/-- The counts `summarise` keeps while it goes through the members. -/
structure Tally where
  successes : ℕ := 0
  trippable : ℕ := 0
  errors : List (String × ℕ) := []
  latencies : List ℚ := []

/-- One member's outcome and latency. -/
def readMember (member : String) : Except Exn (Outcome × Decimal) :=
  match Texts.split ':' 3 member with
  | [_, _, name, latency] =>
    match Outcome.ofValue? name, parseDecimal latency with
    | some outcome, some latency => .ok (outcome, latency)
    | _, _ => .error (.valueError member)
  | _ => .error (.valueError member)

def Tally.count (t : Tally) (outcome : Outcome) (latency : Decimal) : Tally where
  successes := if outcome.isOk then t.successes + 1 else t.successes
  trippable := if outcome.trippable then t.trippable + 1 else t.trippable
  errors :=
    if outcome.isOk then t.errors
    else Dicts.set outcome.value ((t.errors.lookup outcome.value).getD 0 + 1) t.errors
  latencies :=
    if outcome.isOk || outcome.trippable then t.latencies ++ [latency.toFloat] else t.latencies

def tallyMember (t : Tally) (member : String) : Except Exn Tally := do
  let (outcome, latency) ← readMember member
  return t.count outcome latency

/-- p50, p95 and p99, also of fewer than two latencies, by an arithmetic that rounds. -/
def percentiles (rnd : ℚ → ℚ) (latencies : List ℚ) : ℚ × ℚ × ℚ :=
  match latencies with
  | [] => (0, 0, 0)
  | [l] => (l, l, l)
  | _ =>
    let cut i := Quantiles.inclusiveCut rnd 100 i latencies
    (cut 50, cut 95, cut 99)

def Tally.snapshot (t : Tally) (provider : String) (samples : ℕ) : HealthSnapshot :=
  let healthSamples := t.successes + t.trippable
  let (p50, p95, p99) := percentiles Floats.binary64 t.latencies
  { provider, samples, healthSamples
    successes := t.successes
    successRate := if healthSamples = 0 then 1 else t.successes / healthSamples
    errorsByType := t.errors
    trippableErrors := t.trippable
    trippableErrorRate := if healthSamples = 0 then 0 else t.trippable / healthSamples
    p50Ms := p50, p95Ms := p95, p99Ms := p99 }

def summarise (provider : String) (members : List String) : Except Exn HealthSnapshot :=
  if members = [] then .ok { provider }
  else do
    let t ← members.foldlM tallyMember {}
    return t.snapshot provider members.length

def snapshot (config : GatewayConfig) (provider : String) (windowS now? : Option ℤ) :
    Gateway HealthSnapshot := do
  let now ← nowOr now?
  let cutoff := now - windowMs config windowS
  let members ← redis (.zrangebyscore (key provider) cutoff)
  ofExcept (summarise provider members)

end HealingGateway.Health
