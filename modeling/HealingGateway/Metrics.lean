import HealingGateway.Library.Collectors
import HealingGateway.Library.Dicts
import HealingGateway.Records

namespace HealingGateway.Metrics

open Collectors Numerals

structure CallLabels where
  provider : String
  model : String
  requestClass : String
  tenant : String
  feature : String
  outcome : String
  deriving DecidableEq

def durationBuckets : List ℚ := [1 / 20, 1 / 10, 1 / 4, 1 / 2, 1, 2, 5, 10, 20, 30, 60, 120]

def jobAgeBuckets : List ℚ := [1, 2, 5, 10, 30, 60, 120, 300, 600]

/-- The collectors of one process. -/
structure Registry where
  requests : Counter CallLabels := []
  responses : Counter (String × String) := []
  duration : Family (String × String) (Histogram durationBuckets) := []
  errors : Counter (String × String) := []
  tokens : Counter (String × String × String) := []
  cost : Counter (String × String × String × String) := []
  circuitState : Family String ℕ := []
  failovers : Counter (String × String × String × String) := []
  hedge : Counter (String × String) := []
  queueDepth : ℕ := 0
  queueRetries : Counter String := []
  dlq : ℕ := 0
  jobAge : Family String (Histogram jobAgeBuckets) := []

theorem value_injective {o o' : Outcome} (h : o.value = o'.value) : o = o' := by
  have hread := congrArg Outcome.ofValue? h
  simpa using hread

abbrev Call := ProviderResult × RequestMetadata

namespace Call

def labels (call : Call) : CallLabels where
  provider := call.1.provider
  model := call.1.model
  requestClass := call.2.requestClass
  tenant := call.2.tenant
  feature := call.2.feature
  outcome := call.1.outcome.value

/-- `_s` is what the histograms count in. -/
def latencyS (call : Call) : ℚ := call.1.latencyMs / 1000

end Call

/-- Fold one provider call into every collector. -/
def observe (result : ProviderResult) (m : RequestMetadata) (reg : Registry) : Option Registry :=
  let reg := { reg with
    requests := reg.requests.inc (Call.labels (result, m))
    duration := note (Histogram.empty _) Histogram.observe
      ((result.provider, m.requestClass), result.latencyMs / 1000) reg.duration }
  if result.outcome.isOk = false then
    some { reg with errors := reg.errors.inc (result.provider, result.outcome.value) }
  else do
    let tokens ← reg.tokens.incBy (result.provider, result.model, "prompt") result.promptTokens
    let tokens ← tokens.incBy (result.provider, result.model, "completion") result.completionTokens
    let cost ← reg.cost.incBy (m.tenant, m.feature, result.provider, result.model) result.costUsd.toRat
    some { reg with tokens, cost }

def hedgeOutcome : HedgeLabel → String
  | .fired => "fired"
  | .wonByHedge => "won_by_hedge"
  | .wasted => "wasted"

def collect (m : Metric) (reg : Registry) : Option Registry :=
  match m with
  | .circuitState provider state =>
    some { reg with circuitState := Dicts.set provider state.gaugeValue reg.circuitState }
  | .failover source target requestClass reason =>
    some { reg with failovers := reg.failovers.inc (source, target, requestClass, reason) }
  | .hedge requestClass label => some { reg with hedge := reg.hedge.inc (requestClass, hedgeOutcome label) }
  | .queueDepth depth => some { reg with queueDepth := depth }
  | .queueRetry attempt => some { reg with queueRetries := reg.queueRetries.inc attempt }
  | .dlq => some { reg with dlq := reg.dlq + 1 }
  | .jobAge status ageS =>
    some { reg with
      jobAge := note (Histogram.empty _) Histogram.observe (status.value, ageS) reg.jobAge }
  | .observe result metadata => observe result metadata reg
  | .response route status => some { reg with responses := reg.responses.inc (route, status) }

/-- The collectors of a process after its updates. -/
def registry (metrics : List Metric) : Option Registry := collectAll collect {} metrics

def call? : Metric → Option Call
  | .observe result metadata => some (result, metadata)
  | _ => none

def calls (metrics : List Metric) : List Call := metrics.filterMap call?

theorem flatMap_filterMap {α β γ : Type} (f : α → Option β) (g : β → List γ) (xs : List α) :
    (xs.filterMap f).flatMap g = xs.flatMap (fun x ↦ (f x).toList.flatMap g) := by
  induction xs with
  | nil => rfl
  | cons x xs ih =>
    rw [List.filterMap_cons, List.flatMap_cons, ← ih]
    cases hx : f x <;> simp

def perCall {L X : Type} (samples : Call → List (Sample L X)) (m : Metric) : List (Sample L X) :=
  (call? m).toList.flatMap samples

theorem flatMap_perCall {L X : Type} (samples : Call → List (Sample L X)) (metrics : List Metric) :
    metrics.flatMap (perCall samples) = (calls metrics).flatMap samples :=
  (flatMap_filterMap call? samples metrics).symm

/-- What a provider charged for is a call that it served. -/
def Call.served (call : Call) : Bool := call.1.outcome.isOk

def tokenSamples (call : Call) : List (Sample (String × String × String) ℚ) :=
  if call.served then
    [((call.1.provider, call.1.model, "prompt"), (call.1.promptTokens : ℚ)),
      ((call.1.provider, call.1.model, "completion"), (call.1.completionTokens : ℚ))]
  else []

def costSamples (call : Call) : List (Sample (String × String × String × String) ℚ) :=
  if call.served then
    [((call.2.tenant, call.2.feature, call.1.provider, call.1.model), call.1.costUsd.toRat)]
  else []

def errorSamples (call : Call) : List (Sample (String × String) ℚ) :=
  if call.served then [] else [((call.1.provider, call.1.outcome.value), 1)]

def requestSamples (call : Call) : List (Sample CallLabels ℚ) := [(call.labels, 1)]

def durationSamples (call : Call) : List (Sample (String × String) ℚ) :=
  [((call.1.provider, call.2.requestClass), call.latencyS)]

variable {reg reg' : Registry} {result : ProviderResult} {metadata : RequestMetadata}

theorem observe_eq_some :
    observe result metadata reg = some reg' ↔ result.Billable ∧ reg' = { reg with
      requests := noteAll 0 plus reg.requests (requestSamples (result, metadata))
      duration := noteAll (Histogram.empty _) Histogram.observe reg.duration
        (durationSamples (result, metadata))
      errors := noteAll 0 plus reg.errors (errorSamples (result, metadata))
      tokens := noteAll 0 plus reg.tokens (tokenSamples (result, metadata))
      cost := noteAll 0 plus reg.cost (costSamples (result, metadata)) } := by
  cases hok : result.outcome.isOk with
  | false =>
    have hbillable : result.Billable := fun hserved ↦ by simp [hok] at hserved
    simp [observe, hbillable, Call.served, hok, requestSamples, durationSamples, errorSamples,
      tokenSamples, costSamples, noteAll, Counter.inc, Call.latencyS, eq_comm]
  | true =>
    have hbillable : result.Billable ↔
        0 ≤ (result.promptTokens : ℚ) ∧ 0 ≤ (result.completionTokens : ℚ) ∧ 0 ≤ result.costUsd.toRat := by
      simp [ProviderResult.Billable, hok]
    have hserved : Call.served (result, metadata) = true := hok
    rw [hbillable, observe, if_neg (by simp [hok])]
    simp only [requestSamples, durationSamples, errorSamples, tokenSamples, costSamples, hserved, if_true]
    constructor
    · intro h
      obtain ⟨tokens, htokens, h⟩ := Option.bind_eq_some_iff.mp h
      obtain ⟨tokens', htokens', h⟩ := Option.bind_eq_some_iff.mp h
      obtain ⟨cost, hcost, h⟩ := Option.bind_eq_some_iff.mp h
      obtain ⟨hprompt, rfl⟩ := Counter.incBy_eq_some.mp htokens
      obtain ⟨hcompletion, rfl⟩ := Counter.incBy_eq_some.mp htokens'
      obtain ⟨hspent, rfl⟩ := Counter.incBy_eq_some.mp hcost
      exact ⟨⟨hprompt, hcompletion, hspent⟩, (Option.some.inj h).symm⟩
    · rintro ⟨⟨hprompt, hcompletion, hspent⟩, rfl⟩
      refine Option.bind_eq_some_iff.mpr ⟨_, Counter.incBy_eq_some.mpr ⟨hprompt, rfl⟩, ?_⟩
      refine Option.bind_eq_some_iff.mpr ⟨_, Counter.incBy_eq_some.mpr ⟨hcompletion, rfl⟩, ?_⟩
      exact Option.bind_eq_some_iff.mpr ⟨_, Counter.incBy_eq_some.mpr ⟨hspent, rfl⟩, rfl⟩

/-- Provider calls feed five collectors, and nothing else does. -/
structure Fed (reg reg' : Registry) (metrics : List Metric) : Prop where
  requests : reg'.requests = noteAll 0 plus reg.requests (metrics.flatMap (perCall requestSamples))
  duration : reg'.duration = noteAll (Histogram.empty _) Histogram.observe reg.duration
    (metrics.flatMap (perCall durationSamples))
  errors : reg'.errors = noteAll 0 plus reg.errors (metrics.flatMap (perCall errorSamples))
  tokens : reg'.tokens = noteAll 0 plus reg.tokens (metrics.flatMap (perCall tokenSamples))
  cost : reg'.cost = noteAll 0 plus reg.cost (metrics.flatMap (perCall costSamples))

theorem fed_collect {m : Metric} (h : collect m reg = some reg') : Fed reg reg' [m] := by
  cases m with
  | observe result metadata =>
    obtain ⟨-, rfl⟩ := observe_eq_some.mp h
    constructor <;> simp [perCall, call?]
  | _ =>
    cases h
    constructor <;> rfl

theorem fed_registry {metrics : List Metric} (h : registry metrics = some reg) : Fed {} reg metrics where
  requests := series_collectAll (fun m a a' hm ↦ by simpa using (fed_collect hm).requests) h
  duration := series_collectAll (fun m a a' hm ↦ by simpa using (fed_collect hm).duration) h
  errors := series_collectAll (fun m a a' hm ↦ by simpa using (fed_collect hm).errors) h
  tokens := series_collectAll (fun m a a' hm ↦ by simpa using (fed_collect hm).tokens) h
  cost := series_collectAll (fun m a a' hm ↦ by simpa using (fed_collect hm).cost) h

/-- The collectors agree with the provider calls they were fed, and with one another. -/
structure Reconciles (calls : List Call) (reg : Registry) : Prop where
  requests : ∀ labels, value id reg.requests labels = (calls.countP (·.labels == labels) : ℚ)
  errors : ∀ provider (o : Outcome), o.isOk = false → value id reg.errors (provider, o.value) =
    total (fun l ↦ l.provider == provider && l.outcome == o.value) id reg.requests
  duration : ∀ provider requestClass,
    ((value Histogram.count reg.duration (provider, requestClass) : ℕ) : ℚ) =
      total (fun l ↦ l.provider == provider && l.requestClass == requestClass) id reg.requests
  within : ∀ provider requestClass, ∀ b ∈ durationBuckets,
    value (Histogram.upTo b) reg.duration (provider, requestClass) =
      calls.countP (fun c ↦ c.1.provider == provider && c.2.requestClass == requestClass &&
        c.latencyS ≤ b)
  tokens : ∀ provider model, total (fun l ↦ l.1 == provider && l.2.1 == model) id reg.tokens =
    ((calls.filter (fun c ↦ c.served && c.1.provider == provider && c.1.model == model)).map
      (fun c ↦ (c.1.totalTokens : ℚ))).sum
  cost : ∀ tenant, total (·.1 == tenant) id reg.cost =
    ((calls.filter (fun c ↦ c.served && c.2.tenant == tenant)).map (·.1.costUsd.toRat)).sum

/-- No counter refuses calls that report no negative amount. -/
theorem exists_registry {metrics : List Metric} (h : ∀ call ∈ calls metrics, call.1.Billable) :
    ∃ reg, registry metrics = some reg := by
  suffices hall : ∀ start, ∃ reg, collectAll collect start metrics = some reg from hall {}
  induction metrics with
  | nil => exact fun start ↦ ⟨start, rfl⟩
  | cons m metrics ih =>
    intro start
    have hcollect : ∃ reg, collect m start = some reg := by
      cases m with
      | observe result metadata =>
        exact ⟨_, observe_eq_some.mpr ⟨h (result, metadata) (List.mem_cons_self ..), rfl⟩⟩
      | _ => exact ⟨_, rfl⟩
    obtain ⟨reg, hreg⟩ := hcollect
    have hrest : ∀ call ∈ calls metrics, call.1.Billable := by
      intro call hcall
      obtain ⟨m', hm', hcall⟩ := List.mem_filterMap.mp hcall
      exact h call (List.mem_filterMap.mpr ⟨m', List.mem_cons_of_mem _ hm', hcall⟩)
    obtain ⟨reg', hreg'⟩ := ih hrest reg
    refine ⟨reg', ?_⟩
    rw [collectAll, List.foldlM_cons, hreg]
    exact hreg'

section Sums

variable {α β M : Type} [AddCommMonoid M]

theorem sum_flatMap (samples : α → List β) (weight : β → M) (xs : List α) :
    ((xs.flatMap samples).map weight).sum = (xs.map (fun x ↦ ((samples x).map weight).sum)).sum := by
  induction xs with
  | nil => rfl
  | cons x xs ih => rw [List.flatMap_cons, List.map_append, List.sum_append, ih, List.map_cons, List.sum_cons]

theorem sum_ite (p : α → Bool) (weight : α → M) (xs : List α) :
    (xs.map (fun x ↦ if p x then weight x else 0)).sum = ((xs.filter p).map weight).sum := by
  induction xs with
  | nil => rfl
  | cons x xs ih =>
    rw [List.map_cons, List.sum_cons, ih]
    cases hp : p x <;> simp [hp]

theorem sum_one {M : Type} [AddCommMonoidWithOne M] (p : α → Bool) (xs : List α) :
    (xs.map (fun x ↦ if p x then (1 : M) else 0)).sum = xs.countP p := by
  rw [sum_ite p (fun _ ↦ (1 : M)), List.countP_eq_length_filter]
  simp

end Sums

theorem total_requests {metrics : List Metric} (h : registry metrics = some reg) (p : CallLabels → Bool) :
    total p id reg.requests = ((calls metrics).countP (fun c ↦ p c.labels) : ℚ) := by
  rw [(fed_registry h).requests, weighs_plus.total_noteAll, flatMap_perCall, sum_flatMap, ← sum_one]
  simp [requestSamples, total]

theorem reconciles_registry {metrics : List Metric} (h : registry metrics = some reg) :
    Reconciles (calls metrics) reg := by
  have hfed := fed_registry h
  constructor
  · intro labels
    rw [hfed.requests, weighs_plus.value_noteAll, flatMap_perCall, sum_flatMap, ← sum_one]
    simp [requestSamples]
  · intro provider o ho
    rw [total_requests h, hfed.errors, weighs_plus.value_noteAll, flatMap_perCall, sum_flatMap, ← sum_one]
    refine congrArg List.sum (List.map_congr_left (fun c _ ↦ ?_))
    cases hserved : c.served with
    | true =>
      have hne : c.1.outcome.value ≠ o.value := by
        intro hvalue
        rw [Call.served, value_injective hvalue, ho] at hserved
        cases hserved
      simp [errorSamples, hserved, Call.labels, hne]
    | false => simp [errorSamples, hserved, Call.labels]
  · intro provider requestClass
    rw [total_requests h, hfed.duration, Histogram.weighs_count.value_noteAll, flatMap_perCall, sum_flatMap,
      Nat.cast_inj, ← Nat.cast_id (List.countP _ _), ← sum_one]
    simp [durationSamples, Call.labels]
  · intro provider requestClass b hb
    have hsorted : durationBuckets.Pairwise (· < ·) := by decide +kernel
    rw [hfed.duration, (Histogram.weighs_upTo hsorted hb).value_noteAll, flatMap_perCall, sum_flatMap,
      ← Nat.cast_id (List.countP _ _), ← sum_one]
    simp [durationSamples, ite_and]
  · intro provider model
    rw [hfed.tokens, weighs_plus.total_noteAll, flatMap_perCall, sum_flatMap, ← sum_ite]
    refine (zero_add _).trans (congrArg List.sum (List.map_congr_left (fun c _ ↦ ?_)))
    cases hserved : c.served with
    | true =>
      by_cases hlabels : c.1.provider = provider ∧ c.1.model = model <;>
        simp [tokenSamples, hserved, ProviderResult.totalTokens, hlabels]
    | false => simp [tokenSamples, hserved]
  · intro tenant
    rw [hfed.cost, weighs_plus.total_noteAll, flatMap_perCall, sum_flatMap, ← sum_ite]
    refine (zero_add _).trans (congrArg List.sum (List.map_congr_left (fun c _ ↦ ?_)))
    cases hserved : c.served <;> simp [costSamples, hserved]

end HealingGateway.Metrics
