import HealingGateway.CallAccounts
import HealingGateway.Library.Deliveries

namespace HealingGateway.Router

open Programs Programs.Prog Numerals JsonText

section Timing

variable (env : Environ) (config : GatewayConfig) (metadata : RequestMetadata)
  (payload : List (String × Json)) (ladder : List String) (schedule : RaceSchedule)

/-- How two calls that race come to their ends: both before anyone looks, or one of them alone. -/
inductive Arrival
  | together (primary hedge : Except Exn ProviderResult)
  | alone (isHedge : Bool) (ended : Except Exn ProviderResult) (other : Gateway ProviderResult)

def Arrival.hedgeFirst : Arrival → Bool
  | alone isHedge _ _ => isHedge
  | together .. => false

def arrive (primary hedge : Gateway ProviderResult) : Gateway Arrival := do
  let landing ← Prog.race schedule.turns primary hedge
  match landing with
  | .left ended other => do
    let rest ← other.advance schedule.afterFirst
    match rest.ended? with
    | some ended' => return .together ended ended'
    | none => return .alone false ended rest
  | .right ended other => do
    let rest ← other.advance schedule.afterFirst
    match rest.ended? with
    | some ended' => return .together ended' ended
    | none => return .alone true ended rest

def Arrival.settle : Arrival → Gateway Settled
  | together primary hedge => ofExcept (landedTogether primary hedge)
  | alone isHedge ended other => landedFirst isHedge ended other

/-- The timing of a hedged start: too few rungs to race, an answer inside the budget, or a race. -/
inductive Start
  | few
  | early (i : ℕ) (first : String) (ended : Except Exn ProviderResult)
  | racing (j : ℕ) (arrival : Arrival)

def Start.hedgeFirst : Start → Bool
  | racing _ arrival => arrival.hedgeFirst
  | few => false
  | early .. => false

/-- A hedged start up to the first end of a call. -/
def start : Gateway Start := do
  let admitted ← admissible config 2 0 ladder
  match admitted with
  | (firstI, first) :: (secondI, second) :: _ => do
    let primary ← (attempt env config metadata payload first).advance schedule.beforeHedge
    match primary.ended? with
    | some ended => return .early firstI first ended
    | none => do
      metric (.hedge metadata.requestClass .fired)
      let arrival ← arrive schedule primary (attempt env config metadata payload second)
      return .racing secondI arrival
  | _ => return .few

def Start.finish : Start → Gateway (RouteOutcome × ℕ)
  | few => return (⟨none, []⟩, 0)
  | early i first ended => unhedged metadata ladder first i ended
  | racing j arrival => do
    let settled ← arrival.settle
    let served := isFinal settled.result
    metric (.hedge metadata.requestClass
      (if settled.wonByHedge && served then .wonByHedge else .wasted))
    let others ← ofExcept (loserLog settled.loser)
    if served then return (⟨some settled.result, logged settled.result :: others⟩, 0)
    else do
      countFailover settled.result.provider ladder j metadata settled.result
      return (⟨none, logged settled.result :: others⟩, j + 1)

variable {env config metadata payload ladder schedule}

theorem firstUsable_eq (primary hedge : Gateway ProviderResult) :
    firstUsable schedule primary hedge = arrive schedule primary hedge >>= Arrival.settle := by
  rw [firstUsable, arrive, LawfulMonad.bind_assoc]
  refine congrArg _ (funext fun landing ↦ ?_)
  cases landing with
  | left ended other | right ended other =>
    simp only [LawfulMonad.bind_assoc]
    refine congrArg _ (funext fun rest ↦ ?_)
    cases rest.ended? <;> rfl

theorem hedgedStart_eq : hedgedStart env config metadata payload ladder schedule =
    start env config metadata payload ladder schedule >>= Start.finish metadata ladder := by
  rw [hedgedStart, start, LawfulMonad.bind_assoc]
  refine congrArg _ (funext fun admitted ↦ ?_)
  rcases admitted with _ | ⟨⟨i, first⟩, _ | ⟨⟨j, second⟩, others⟩⟩
  · rfl
  · rfl
  · simp only [LawfulMonad.bind_assoc]
    refine congrArg _ (funext fun primary ↦ ?_)
    cases primary.ended? with
    | some ended => rfl
    | none =>
      simp only [hedged, firstUsable_eq, LawfulMonad.bind_assoc]
      rfl

end Timing

section Order

def final (outcome : Outcome) : Bool := outcome.isOk || !outcome.trippable

def ending (answer : String → Outcome) (rungs : List String) : Option Outcome :=
  (rungs.map answer).find? final

def inOrder {α : Type} (hedgeFirst : Bool) : List α → List α
  | first :: second :: rest => if hedgeFirst then second :: first :: rest else first :: second :: rest
  | rungs => rungs

def picked (admits : String → Bool) : (limit i : ℕ) → List String → List (ℕ × String)
  | 0, _, _ => []
  | _ + 1, _, [] => []
  | limit + 1, i, provider :: rungs =>
    if admits provider then (i, provider) :: picked admits limit (i + 1) rungs
    else picked admits (limit + 1) (i + 1) rungs

variable {answer : String → Outcome} {admits : String → Bool} {provider first second : String}
  {rungs rest : List String} {limit i j k : ℕ} {others : List (ℕ × String)}

theorem ending_cons (answer : String → Outcome) (provider : String) (rungs : List String) :
    ending answer (provider :: rungs) =
      if final (answer provider) then some (answer provider) else ending answer rungs := by
  rw [ending, List.map_cons, List.find?_cons]
  cases final (answer provider) <;> rfl

theorem ending_inOrder (answer : String → Outcome) (hedgeFirst : Bool) (first second : String)
    (rest : List String) : ending answer (inOrder hedgeFirst (first :: second :: rest)) =
      ((inOrder hedgeFirst [answer first, answer second]).find? final).or (ending answer rest) := by
  have hpair : inOrder hedgeFirst (first :: second :: rest) = inOrder hedgeFirst [first, second] ++ rest := by
    cases hedgeFirst <;> rfl
  have hmap : (inOrder hedgeFirst [first, second]).map answer =
      inOrder hedgeFirst [answer first, answer second] := by
    cases hedgeFirst <;> rfl
  rw [ending, hpair, List.map_append, List.find?_append, hmap, ending]

theorem picked_cons (h : picked admits (limit + 1) i rungs = (k, provider) :: others) :
    i ≤ k ∧ provider ∈ rungs ∧ rungs.filter admits = provider :: (rungs.drop (k + 1 - i)).filter admits ∧
      others = picked admits limit (k + 1) (rungs.drop (k + 1 - i)) := by
  induction rungs generalizing i with
  | nil => cases h
  | cons rung rungs ih =>
    rw [picked] at h
    split at h
    · next hadmits =>
      obtain ⟨hhead, rfl⟩ := List.cons.inj h
      obtain ⟨rfl, rfl⟩ := Prod.mk.inj hhead
      simp [hadmits]
    · next hadmits =>
      obtain ⟨hle, hmem, hfilter, hothers⟩ := ih h
      have hshift : k + 1 - i = k + 1 - (i + 1) + 1 := by omega
      rw [hshift, List.drop_succ_cons, List.filter_cons_of_neg hadmits]
      exact ⟨by omega, List.mem_cons_of_mem _ hmem, hfilter, hothers⟩

theorem picked_pair (h : picked admits 2 0 rungs = (i, first) :: (j, second) :: others) :
    first ∈ rungs ∧ second ∈ rungs ∧
      rungs.filter admits = first :: (rungs.drop (i + 1)).filter admits ∧
      (rungs.drop (i + 1)).filter admits = second :: (rungs.drop (j + 1)).filter admits := by
  obtain ⟨-, hfirst, hfilter, hothers⟩ := picked_cons h
  obtain ⟨hle, hsecond, hfilter', -⟩ := picked_cons hothers.symm
  have hdrop : i + 1 - 0 + (j + 1 - (i + 1)) = j + 1 := by omega
  rw [List.drop_drop, hdrop] at hfilter'
  exact ⟨hfirst, List.mem_of_mem_drop hsecond, hfilter, hfilter'⟩

end Order

section Worlds

variable {env : Environ} {config : GatewayConfig} {metadata : RequestMetadata}
  {payload : List (String × Json)} {ladder : List String} {schedule : RaceSchedule}
  {admits : String → Bool} {answer : String → Outcome} {possible : (c : Cmd) → Reply c → Prop}
  {first second : String}

/-- A world in which it is known which circuits of a ladder take traffic, and what each provider
would answer if it were awaited. -/
structure Steady (env : Environ) (config : GatewayConfig) (metadata : RequestMetadata)
    (payload : List (String × Json)) (ladder : List String) (admits : String → Bool)
    (answer : String → Outcome) (possible : (c : Cmd) → Reply c → Prop) : Prop where
  circuits : ∀ provider ∈ ladder, (Breaker.allows config provider none).Delivers possible
    (fun allowed ↦ allowed.1 = admits provider)
  calls : ∀ provider ∈ ladder, (attempt env config metadata payload provider).Delivers possible
    (fun result ↦ result.outcome = answer provider)

def Ends (answer : String → Outcome) (rungs : List String) (routed : RouteOutcome) : Prop :=
  routed.result.map ProviderResult.outcome = ending answer rungs

theorem delivers_metric (m : Metric) : (metric m).Delivers possible (fun _ ↦ True) := fun _ _ ↦ trivial

theorem Steady.admissible (hsteady : Steady env config metadata payload ladder admits answer possible)
    (limit i : ℕ) {rungs : List String} (hrungs : rungs ⊆ ladder) :
    (admissible config limit i rungs).Delivers possible (· = picked admits limit i rungs) := by
  induction rungs generalizing limit i with
  | nil => cases limit <;> rfl
  | cons provider rungs ih =>
    cases limit with
    | zero => rfl
    | succ limit =>
      obtain ⟨hprovider, hrungs⟩ := List.cons_subset.mp hrungs
      refine (hsteady.circuits provider hprovider).bind ?_
      rintro ⟨allowed, reason⟩ rfl
      rw [picked]
      dsimp only
      cases admits provider with
      | true =>
        refine (ih limit (i + 1) hrungs).bind ?_
        rintro _ rfl
        rfl
      | false => exact ih (limit + 1) (i + 1) hrungs

theorem Steady.walk (hsteady : Steady env config metadata payload ladder admits answer possible)
    (i : ℕ) {rungs : List String} (hrungs : rungs ⊆ ladder) (attempts : List ProviderCallLog) :
    (walk env config metadata payload ladder i rungs attempts).Delivers possible
      (Ends answer (rungs.filter admits)) := by
  induction rungs generalizing i attempts with
  | nil => rfl
  | cons provider rungs ih =>
    obtain ⟨hprovider, hrungs⟩ := List.cons_subset.mp hrungs
    refine (hsteady.circuits provider hprovider).bind ?_
    rintro ⟨allowed, reason⟩ hallowed
    cases hadmits : admits provider with
    | false =>
      obtain rfl : allowed = false := hallowed.trans hadmits
      rw [List.filter_cons_of_neg (by simp [hadmits])]
      exact ih (i + 1) hrungs _
    | true =>
      obtain rfl : allowed = true := hallowed.trans hadmits
      rw [List.filter_cons_of_pos hadmits]
      refine (hsteady.calls provider hprovider).bind (fun result hresult ↦ ?_)
      have hfinal : isFinal result = final (answer provider) := by rw [← hresult]; rfl
      split
      · next h =>
        rw [hfinal] at h
        simp [Ends, ending_cons, h, hresult]
      · next h =>
        rw [hfinal, Bool.not_eq_true] at h
        refine (delivers_metric _).bind (fun _ _ ↦ (ih (i + 1) hrungs _).mono (fun routed hrouted ↦ ?_))
        simpa [Ends, ending_cons, h] using hrouted

def Arrival.Fixed (possible : (c : Cmd) → Reply c → Prop) (first second : Outcome) : Arrival → Prop
  | together primary hedge =>
    Delivered (fun result ↦ result.outcome = first) primary ∧
      Delivered (fun result ↦ result.outcome = second) hedge
  | alone true ended other =>
    Delivered (fun result ↦ result.outcome = second) ended ∧
      other.Delivers possible (fun result ↦ result.outcome = first)
  | alone false ended other =>
    Delivered (fun result ↦ result.outcome = first) ended ∧
      other.Delivers possible (fun result ↦ result.outcome = second)

theorem delivers_arrive {primary hedge : Gateway ProviderResult} {o o' : Outcome}
    (hprimary : primary.Delivers possible (fun result ↦ result.outcome = o))
    (hhedge : hedge.Delivers possible (fun result ↦ result.outcome = o')) :
    (arrive schedule primary hedge).Delivers possible (Arrival.Fixed possible o o') := by
  refine (hprimary.race hhedge schedule.turns).bind (fun landing hlanding ↦ ?_)
  cases landing with
  | left ended other =>
    obtain ⟨hended, hother⟩ := hlanding
    refine (hother.advance schedule.afterFirst).bind (fun rest hrest ↦ ?_)
    split
    · next ended' hended' => exact ⟨hended, hrest.ended hended'⟩
    · exact ⟨hended, hrest⟩
  | right ended other =>
    obtain ⟨hended, hother⟩ := hlanding
    refine (hother.advance schedule.afterFirst).bind (fun rest hrest ↦ ?_)
    split
    · next ended' hended' => exact ⟨hrest.ended hended', hended⟩
    · exact ⟨hended, hrest⟩

structure Settled.As (settled : Settled) (outcomes : List Outcome) : Prop where
  ends : outcomes.find? final = if isFinal settled.result then some settled.result.outcome else none
  loser : ∀ ended ∈ settled.loser, ∃ result, ended = .ok result

theorem isFinal_eq (result : ProviderResult) : isFinal result = final result.outcome := rfl

theorem landedTogether_ok (result result' : ProviderResult) :
    landedTogether (.ok result) (.ok result') =
      if isFinal result then .ok ⟨false, result, some (.ok result')⟩
      else .ok ⟨true, result', some (.ok result)⟩ := rfl

theorem settled_together (result result' : ProviderResult) : ∃ settled,
    landedTogether (.ok result) (.ok result') = .ok settled ∧
      settled.As [result.outcome, result'.outcome] := by
  rw [landedTogether_ok]
  cases hfinal : isFinal result with
  | true =>
    refine ⟨_, rfl, ?_, by simp⟩
    simp [← isFinal_eq, hfinal]
  | false =>
    refine ⟨_, rfl, ?_, by simp⟩
    cases hfinal' : isFinal result' with
    | true | false => simp [← isFinal_eq, hfinal, hfinal']

theorem delivers_landedFirst {o o' : Outcome} (isHedge : Bool) {ended : Except Exn ProviderResult}
    {other : Gateway ProviderResult} (hended : Delivered (fun result ↦ result.outcome = o) ended)
    (hother : other.Delivers possible (fun result ↦ result.outcome = o')) :
    (landedFirst isHedge ended other).Delivers possible (fun settled ↦ settled.As [o, o']) := by
  obtain ⟨result, rfl, rfl⟩ := hended
  rw [landedFirst, ofExcept_ok, done_bind]
  cases hfinal : isFinal result with
  | true =>
    refine ⟨?_, by simp⟩
    simp [← isFinal_eq, hfinal]
  | false =>
    refine hother.bind ?_
    rintro result' rfl
    cases hfinal' : isFinal result' with
    | true | false =>
      refine ⟨?_, by simp⟩
      simp [← isFinal_eq, hfinal, hfinal']

theorem delivers_settle {arrival : Arrival} {o o' : Outcome} (h : arrival.Fixed possible o o') :
    arrival.settle.Delivers possible (fun settled ↦ settled.As (inOrder arrival.hedgeFirst [o, o'])) := by
  cases arrival with
  | together primary hedge =>
    obtain ⟨⟨result, rfl, rfl⟩, ⟨result', rfl, rfl⟩⟩ := h
    exact delivers_ofExcept (settled_together result result')
  | alone isHedge ended other =>
    cases isHedge with
    | true | false => exact delivers_landedFirst _ h.1 h.2

def Start.Fixed (possible : (c : Cmd) → Reply c → Prop) (ladder : List String) (admits : String → Bool)
    (answer : String → Outcome) : Start → Prop
  | few => True
  | early i first ended =>
    ladder.filter admits = first :: (ladder.drop (i + 1)).filter admits ∧
      Delivered (fun result ↦ result.outcome = answer first) ended
  | racing j arrival => ∃ first second,
    ladder.filter admits = first :: second :: (ladder.drop (j + 1)).filter admits ∧
      arrival.Fixed possible (answer first) (answer second)

theorem Steady.start (hsteady : Steady env config metadata payload ladder admits answer possible)
    (schedule : RaceSchedule) : (start env config metadata payload ladder schedule).Delivers possible
      (Start.Fixed possible ladder admits answer) := by
  refine (hsteady.admissible 2 0 (List.Subset.refl ladder)).bind (fun admitted hpicked ↦ ?_)
  rcases admitted with _ | ⟨⟨i, first⟩, _ | ⟨⟨j, second⟩, others⟩⟩
  · trivial
  · trivial
  · obtain ⟨hfirst, hsecond, hfilter, hfilter'⟩ := picked_pair hpicked.symm
    refine ((hsteady.calls first hfirst).advance schedule.beforeHedge).bind (fun primary hprimary ↦ ?_)
    split
    · next ended hended => exact ⟨hfilter, hprimary.ended hended⟩
    · refine (delivers_metric _).bind (fun _ _ ↦ ?_)
      refine (delivers_arrive hprimary (hsteady.calls second hsecond)).bind (fun arrival harrival ↦ ?_)
      exact ⟨first, second, by rw [hfilter, hfilter'], harrival⟩

def Resumes (ladder : List String) (admits : String → Bool) (answer : String → Outcome)
    (rungs : List String) (raced : RouteOutcome × ℕ) : Prop :=
  (∃ result, raced.1.result = some result ∧ ending answer rungs = some result.outcome) ∨
    raced.1.result = none ∧
      ending answer rungs = ending answer ((ladder.drop raced.2).filter admits)

theorem Steady.resume (hsteady : Steady env config metadata payload ladder admits answer possible)
    {raced : RouteOutcome × ℕ} {rungs : List String} (h : Resumes ladder admits answer rungs raced) :
    (resume env config metadata payload ladder raced).Delivers possible (Ends answer rungs) := by
  rw [Router.resume]
  obtain ⟨result, hresult, hends⟩ | ⟨hresult, hends⟩ := h
  · rw [hresult]
    exact hends.symm
  · rw [hresult]
    refine (hsteady.walk raced.2 (List.drop_subset raced.2 ladder) _).mono (fun routed hrouted ↦ ?_)
    exact hrouted.trans hends.symm

theorem inOrder_false {α : Type} (rungs : List α) : inOrder false rungs = rungs := by
  rcases rungs with _ | ⟨first, _ | ⟨second, rest⟩⟩ <;> rfl

theorem delivers_finish {st : Start} (h : st.Fixed possible ladder admits answer)
    (metadata : RequestMetadata) :
    (st.finish metadata ladder).Delivers possible
      (Resumes ladder admits answer (inOrder st.hedgeFirst (ladder.filter admits))) := by
  cases st with
  | few =>
    rw [Start.hedgeFirst, inOrder_false]
    exact .inr ⟨rfl, rfl⟩
  | early i first ended =>
    obtain ⟨hfilter, result, rfl, hresult⟩ := h
    rw [Start.hedgeFirst, inOrder_false, hfilter, Start.finish, unhedged, ofExcept_ok, done_bind]
    cases hfinal : isFinal result with
    | true =>
      refine .inl ⟨result, rfl, ?_⟩
      rw [ending_cons, ← hresult, ← isFinal_eq, if_pos hfinal]
    | false =>
      refine (delivers_metric _).bind (fun _ _ ↦ .inr ⟨rfl, ?_⟩)
      rw [ending_cons, ← hresult, ← isFinal_eq, hfinal]
      rfl
  | racing j arrival =>
    obtain ⟨first, second, hfilter, harrival⟩ := h
    rw [Start.hedgeFirst, hfilter]
    refine (delivers_settle harrival).bind (fun settled hsettled ↦ ?_)
    refine (delivers_metric _).bind (fun _ _ ↦ ?_)
    obtain ⟨hends, hloser⟩ := hsettled
    have hothers : Delivered (fun _ ↦ True) (loserLog settled.loser) := by
      cases hlost : settled.loser with
      | none => exact ⟨_, rfl, trivial⟩
      | some ended =>
        obtain ⟨result, rfl⟩ := hloser ended hlost
        exact ⟨_, rfl, trivial⟩
    refine (delivers_ofExcept hothers).bind (fun others _ ↦ ?_)
    cases hfinal : isFinal settled.result with
    | true =>
      refine .inl ⟨settled.result, rfl, ?_⟩
      rw [ending_inOrder, hends, hfinal]
      rfl
    | false =>
      refine (delivers_metric _).bind (fun _ _ ↦ .inr ⟨rfl, ?_⟩)
      rw [ending_inOrder, hends, hfinal]
      rfl

end Worlds

section Runs

variable (env : Environ) (config : GatewayConfig) (metadata : RequestMetadata)
  (payload : List (String × Json)) (ladder : List String) (schedule : RaceSchedule) {σ : Type}
  (h : Handler Cmd Reply σ) (s : σ)

def HedgeFirst : Prop :=
  ∃ st, ((start env config metadata payload ladder schedule).run h s).1 = .ok st ∧ st.hedgeFirst = true

/-- The call that ends first is the hedge's, with a fault of the caller, while the primary's would
have been answered well. -/
def Displaced (admits : String → Bool) (answer : String → Outcome) : Prop :=
  HedgeFirst env config metadata payload ladder schedule h s ∧
    ∃ first second rest, ladder.filter admits = first :: second :: rest ∧
      (answer first).isOk = true ∧ (answer second).callerFault = true

/-- A walk that returns an answer of a provider that served it. -/
def ServesOk (r : Except Exn RouteOutcome) : Prop :=
  Delivered (fun routed ↦ ∃ result ∈ routed.result, result.outcome.isOk = true) r

instance : DecidablePred ServesOk := fun _ ↦ inferInstanceAs (Decidable (Delivered _ _))

variable {env config metadata payload ladder schedule h s} {admits : String → Bool}
  {answer : String → Outcome} {possible : (c : Cmd) → Reply c → Prop} {c : ClassConfig}

theorem servesOk_iff {r : Except Exn RouteOutcome} {rungs : List String}
    (hr : Delivered (Ends answer rungs) r) :
    ServesOk r ↔ ∃ outcome, ending answer rungs = some outcome ∧ outcome.isOk = true := by
  obtain ⟨routed, rfl, hends⟩ := hr
  constructor
  · rintro ⟨_, ⟨⟩, result, hresult, hok⟩
    rw [Ends, Option.mem_def.mp hresult] at hends
    exact ⟨_, hends.symm, hok⟩
  · rintro ⟨outcome, houtcome, hok⟩
    rw [Ends, houtcome] at hends
    obtain ⟨result, hresult, rfl⟩ := Option.map_eq_some_iff.mp hends
    exact ⟨routed, rfl, result, hresult, hok⟩

/-- A hedged walk ends as one over its rungs in the order in which the first two of them ended. -/
theorem Steady.hedged_run (hsteady : Steady env config metadata payload ladder admits answer possible)
    (hclass : config.classes.lookup metadata.requestClass = some c) (hhedges : hedges c = true)
    (hh : ∀ c s, possible c (h c s).1) (schedule : RaceSchedule) (s : σ) :
    ∃ hedgeFirst, (hedgeFirst = true ↔ HedgeFirst env config metadata payload ladder schedule h s) ∧
      Delivered (Ends answer (inOrder hedgeFirst (ladder.filter admits)))
        ((route env config metadata payload ladder schedule).run h s).1 := by
  obtain ⟨st, hst, hfixed⟩ := (hsteady.start schedule).run hh s
  refine ⟨st.hedgeFirst, ⟨fun hfirst ↦ ⟨st, hst, hfirst⟩, ?_⟩, ?_⟩
  · rintro ⟨st', hst', hfirst⟩
    obtain rfl := Except.ok.inj (hst.symm.trans hst')
    exact hfirst
  · have hrest := (delivers_finish hfixed metadata).bind (fun raced hraced ↦ hsteady.resume hraced)
    rw [route, hclass, orRaise_some, done_bind, if_pos hhedges, hedgedStart_eq, LawfulMonad.bind_assoc,
      run_bind_ok h (Prod.ext hst rfl)]
    exact hrest.run hh _

theorem final_iff (outcome : Outcome) :
    final outcome = true ↔ outcome.isOk = true ∨ outcome.callerFault = true := by
  cases outcome <;> decide

/-- The first two rungs in the other order lose an answer that is well only when the second one
ends the walk with a fault of the caller. -/
theorem ending_swapped (hedgeFirst : Bool) (rungs : List String) :
    ((∃ outcome, ending answer rungs = some outcome ∧ outcome.isOk = true) →
      ∃ outcome, ending answer (inOrder hedgeFirst rungs) = some outcome ∧ outcome.isOk = true) ↔
    ¬ (hedgeFirst = true ∧ ∃ first second rest, rungs = first :: second :: rest ∧
      (answer first).isOk = true ∧ (answer second).callerFault = true) := by
  rcases rungs with _ | ⟨first, _ | ⟨second, rest⟩⟩
  · simp [inOrder]
  · simp [inOrder]
  cases hedgeFirst with
  | false => simp [inOrder]
  | true =>
    have hfault := (answer second).callerFault_eq
    simp only [inOrder, if_true, ending_cons, true_and]
    by_cases hsecond : final (answer second) = true
    · rcases (final_iff _).mp hsecond with hok | hbad
      · refine iff_of_true (fun _ ↦ ⟨answer second, if_pos hsecond, hok⟩) ?_
        rintro ⟨_, _, _, ⟨⟩, -, hbad⟩
        rw [hfault, hok] at hbad
        cases hbad
      · have hnot : (answer second).isOk = false := by
          rw [hfault, Bool.and_eq_true] at hbad
          simpa using hbad.1
        constructor
        · rintro hkeeps ⟨_, _, _, ⟨⟩, hok, -⟩
          obtain ⟨_, hend, hok'⟩ := hkeeps ⟨answer first, if_pos ((final_iff _).mpr (.inl hok)), hok⟩
          rw [if_pos hsecond] at hend
          cases hend
          rw [hnot] at hok'
          cases hok'
        · rintro hnone ⟨outcome, hend, hok⟩
          split at hend
          · cases hend
            exact absurd ⟨first, second, rest, rfl, hok, hbad⟩ hnone
          · cases hend
            rw [hnot] at hok
            cases hok
    · refine iff_of_true (fun hplain ↦ ?_) ?_
      · simpa [hsecond] using hplain
      · rintro ⟨_, _, _, ⟨⟩, -, hbad⟩
        exact hsecond ((final_iff _).mpr (.inr hbad))

/-- Hedging loses an answer of the plain walk exactly when a fault of the caller displaces it. -/
theorem hedged_keeps_iff (hsteady : Steady env config metadata payload ladder admits answer possible)
    (hclass : config.classes.lookup metadata.requestClass = some c) (hhedges : hedges c = true)
    (hh : ∀ c s, possible c (h c s).1) {τ : Type} {h' : Handler Cmd Reply τ}
    (hh' : ∀ c s, possible c (h' c s).1) (s : σ) (s' : τ) :
    (ServesOk ((walk env config metadata payload ladder 0 ladder []).run h' s').1 →
      ServesOk ((route env config metadata payload ladder schedule).run h s).1) ↔
    ¬ Displaced env config metadata payload ladder schedule h s admits answer := by
  obtain ⟨hedgeFirst, hfirst, hhedged⟩ := hsteady.hedged_run hclass hhedges hh schedule s
  have hplain := (hsteady.walk 0 (List.Subset.refl ladder) []).run hh' s'
  rw [servesOk_iff hplain, servesOk_iff hhedged, ending_swapped, Displaced, hfirst]

end Runs

section Worlds

def badRequestError : Exn := .raised ["BadRequestError", "Exception", "BaseException"] "bad request"

def rejecting : Outside where
  now := 0
  completion := fun kwargs ↦
    match kwargs.lookup "model" with
    | some (.str "groq/openai/gpt-oss-120b") => .ok .null
    | _ => .error badRequestError

/-- Every command finds an empty store. -/
def fresh (c : Cmd) : Reply c := (rejecting.answers c (fun _ ↦ none)).1

def freshAnswers : Handler Cmd Reply Unit := fun c u ↦ (fresh c, u)

theorem freshAnswers_fresh (c : Cmd) (u : Unit) : (freshAnswers c u).1 = fresh c := rfl

def groqOnly (provider : String) : Outcome := if provider = "groq" then .ok else .badRequest

theorem steady_fresh : Steady (fun _ ↦ none) .shipped classify [] classifyClass.ladder (fun _ ↦ true) groqOnly
    (fun c r ↦ r = fresh c) := by
  constructor
  · intro provider hprovider
    apply delivers_of_run
    revert provider
    decide +kernel
  · intro provider hprovider
    apply delivers_of_run
    revert provider
    decide +kernel

theorem hedged_keeps_iff_slowPrimary :
    (ServesOk ((walk (fun _ ↦ none) .shipped classify [] classifyClass.ladder 0 classifyClass.ladder []).run
        freshAnswers ()).1 →
      ServesOk ((route (fun _ ↦ none) .shipped classify [] classifyClass.ladder slowPrimary).run
        freshAnswers ()).1) ↔
    ¬ Displaced (fun _ ↦ none) .shipped classify [] classifyClass.ladder slowPrimary freshAnswers ()
      (fun _ ↦ true) groqOnly :=
  hedged_keeps_iff steady_fresh rfl rfl freshAnswers_fresh freshAnswers_fresh () ()

/-- A rejection by the second provider displaces the answer of a first one that is slow. -/
theorem slowPrimary_displaced :
    Steady (fun _ ↦ none) .shipped classify [] classifyClass.ladder (fun _ ↦ true) groqOnly
        (fun c r ↦ r = fresh c) ∧
      hedges classifyClass = true ∧ (∀ c u, (freshAnswers c u).1 = fresh c) ∧
      ServesOk ((walk (fun _ ↦ none) .shipped classify [] classifyClass.ladder 0 classifyClass.ladder []).run
        freshAnswers ()).1 ∧
      ¬ ServesOk ((route (fun _ ↦ none) .shipped classify [] classifyClass.ladder slowPrimary).run
        freshAnswers ()).1 :=
  ⟨steady_fresh, rfl, freshAnswers_fresh, by decide +kernel, by decide +kernel⟩

end Worlds

end HealingGateway.Router
