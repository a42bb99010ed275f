import HealingGateway.Effects
import HealingGateway.Library.JsonRoundTrip

namespace HealingGateway.Chaos

open Programs Programs.Prog Numerals JsonText

structure ChaosSpec where
  provider : String
  errorRate : Decimal := ⟨0, 0⟩
  latencyMs : ℤ := 0
  errorType : String := Outcome.serverError.value

def llmExc (names : List String) (text : String) : Exn :=
  .raised (names ++ ["Exception", "BaseException"]) text

def exceptionFor : Outcome → Option (List String)
  | .rateLimit => some ["RateLimitError"]
  | .timeout => some ["Timeout"]
  | .serverError => some ["InternalServerError"]
  | .auth => some ["AuthenticationError"]
  | .contentFilter => some ["ContentPolicyViolationError", "BadRequestError"]
  | .badRequest => some ["BadRequestError"]
  | .modelNotFound => none
  | .ok => none

def injectable (o : Outcome) : Bool := (exceptionFor o).isSome

def injectables : List Outcome := Outcome.all.filter injectable

def isInjectable (errorType : String) : Bool := injectables.any (fun o ↦ o.value = errorType)

theorem classify_exceptionFor {o : Outcome} {names : List String} (h : exceptionFor o = some names)
    (text : String) : classifyException (llmExc names text) = o := by
  cases o <;> cases h <;> rfl

namespace ChaosSpec

def fault (spec : ChaosSpec) : Exn :=
  match Outcome.ofValue? spec.errorType with
  | none => .valueError spec.errorType
  | some outcome =>
    match exceptionFor outcome with
    | none => .keyError outcome.value
    | some names => llmExc names ("injected " ++ outcome.value ++ " for " ++ spec.provider)

def delay (spec : ChaosSpec) : Gateway Unit :=
  if spec.latencyMs = 0 then return ()
  else do
    let slept ← ask (Cmd.sleep (spec.latencyMs / 1000))
    ofExcept slept

def strikes (spec : ChaosSpec) (draw : ℚ) : Gateway Unit :=
  if draw < spec.errorRate.toRat then throw spec.fault else return ()

def strike (spec : ChaosSpec) : Gateway Unit :=
  if spec.errorRate.toRat = 0 then return ()
  else do
    let draw ← ask Cmd.random
    spec.strikes draw

def apply (spec : ChaosSpec) : Gateway Unit := do
  spec.delay
  spec.strike

def asDict (spec : ChaosSpec) : Json :=
  .obj [("provider", .str spec.provider), ("error_rate", .float spec.errorRate),
    ("latency_ms", .int spec.latencyMs), ("error_type", .str spec.errorType)]

end ChaosSpec

def key (provider : String) : String := "chaos:" ++ provider

def argument {α : Type} (members : List (String × Json)) (name : String) (absent : Except Exn α)
    (read : Json → Option α) : Except Exn α :=
  match members.lookup name with
  | none => absent
  | some j =>
    match read j with
    | some a => .ok a
    | none => .error (.typeError name)

def readFloat : Json → Option Decimal
  | .float d => some d
  | .int n => some ⟨n * 10, 0⟩
  | _ => none

def readInt : Json → Option ℤ
  | .int n => some n
  | _ => none

/-- `ChaosSpec(**json.loads(raw))`. -/
def readSpec (text : String) : Except Exn ChaosSpec :=
  match loads text with
  | none => .error (.valueError text)
  | some (.obj members) =>
    match members.find? (fun m ↦ m.1 ∉ ["provider", "error_rate", "latency_ms", "error_type"]) with
    | some m => .error (.typeError m.1)
    | none => do
      let provider ← argument members "provider" (.error (.typeError "provider")) Json.str?
      let errorRate ← argument members "error_rate" (.ok ⟨0, 0⟩) readFloat
      let latencyMs ← argument members "latency_ms" (.ok 0) readInt
      let errorType ← argument members "error_type" (.ok Outcome.serverError.value) Json.str?
      return { provider, errorRate, latencyMs, errorType }
  | some _ => .error (.typeError text)

/-- `ChaosSpec(**json.loads(raw)) if raw else None`. -/
def readRaw : Option String → Except Exn (Option ChaosSpec)
  | none => .ok none
  | some text => if text = "" then .ok none else (readSpec text).map some

def get (provider : String) : Gateway (Option ChaosSpec) := do
  let raw ← redis (.get (key provider))
  ofExcept (readRaw raw)

def set_ (spec : ChaosSpec) (ttlS : ℤ) : Gateway Unit := do
  let _ ← redis (.set (key spec.provider) (dumps spec.asDict) false ttlS)

def clear (provider : String) : Gateway Bool := redis (.delete (key provider))

/-- `{p: await get(r, p) for p in providers}`, over what is there already. -/
def specsOf : List String → List (String × Option ChaosSpec) →
    Gateway (List (String × Option ChaosSpec))
  | [], specs => return specs
  | p :: providers, specs => do
    let spec ← get p
    specsOf providers (Dicts.set p spec specs)

/-- Every provider currently under injected faults. -/
def active (providers : List String) : Gateway (List (String × ChaosSpec)) := do
  let specs ← specsOf providers []
  return specs.filterMap (fun entry ↦ entry.2.map (fun spec ↦ (entry.1, spec)))

/-- What the admin API lets be injected. -/
structure ChaosSpec.Sound (spec : ChaosSpec) : Prop where
  injectable : isInjectable spec.errorType = true
  errorRate : 0 ≤ spec.errorRate.toRat ∧ spec.errorRate.toRat ≤ 1
  latencyMs : 0 ≤ spec.latencyMs ∧ spec.latencyMs ≤ 120000

theorem ofValue?_of_isInjectable {errorType : String} (h : isInjectable errorType = true) :
    ∃ o names, Outcome.ofValue? errorType = some o ∧ exceptionFor o = some names := by
  obtain ⟨o, hmem, ho⟩ := List.any_eq_true.mp h
  rw [injectables, List.mem_filter] at hmem
  obtain ⟨names, hnames⟩ := Option.isSome_iff_exists.mp hmem.2
  rw [← of_decide_eq_true ho]
  exact ⟨o, names, Outcome.ofValue?_value o, hnames⟩

/-- A sound fault raises an exception of the provider library, which is classified as it was asked
for. -/
theorem ChaosSpec.Sound.classify_fault {spec : ChaosSpec} (h : spec.Sound) :
    spec.fault.isException = true ∧
      Outcome.ofValue? spec.errorType = some (classifyException spec.fault) := by
  obtain ⟨o, names, ho, hnames⟩ := ofValue?_of_isInjectable h.injectable
  have hfault : spec.fault = llmExc names ("injected " ++ o.value ++ " for " ++ spec.provider) := by
    simp only [ChaosSpec.fault, ho, hnames]
  rw [hfault, ho, classify_exceptionFor hnames]
  exact ⟨by simp [Exn.isException, Exn.isInstance, llmExc, Exn.mro], rfl⟩

theorem ChaosSpec.only_apply {allowed : Cmd → Prop} (h : ∀ c : Cmd, c.inward = true → allowed c)
    (spec : ChaosSpec) : spec.apply.Only allowed := by
  refine Only.bind ?_ (fun _ ↦ ?_)
  · unfold delay
    split
    · trivial
    · exact (only_ask (h _ rfl)).bind (fun _ ↦ only_ofExcept _)
  · unfold strike
    split
    · trivial
    · refine (only_ask (h _ rfl)).bind (fun draw ↦ ?_)
      unfold strikes
      split <;> trivial

theorem readRaw_asDict (spec : ChaosSpec) : readRaw (some (dumps spec.asDict)) = .ok (some spec) := by
  have hread : readSpec (dumps spec.asDict) = .ok spec := by
    simp [readSpec, ChaosSpec.asDict, argument, List.lookup_cons, Json.str?, readFloat, readInt]
    rfl
  rw [readRaw, if_neg (dumps_ne_empty _), hread]
  rfl

end HealingGateway.Chaos
