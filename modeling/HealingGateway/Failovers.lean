import HealingGateway.Footprint
import HealingGateway.TrailEntries

namespace HealingGateway.Router

open Programs Programs.Prog Numerals JsonText

structure Failover where
  source : String
  target : String
  requestClass : String
  reason : String
  deriving DecidableEq

def failover? : Cmd → Option Failover
  | .metric (.failover source target requestClass reason) => some ⟨source, target, requestClass, reason⟩
  | _ => none

/-- The failovers a run counts, in order. -/
def failovers (events : List (Event Cmd Reply)) : List Failover :=
  events.filterMap (fun e ↦ failover? e.cmd)

def Fact.call? : Fact → Option (ℕ × String)
  | answered i provider _ | cancelled i provider | lost i provider => some (i, provider)
  | _ => none

def Fact.admitted? : Fact → Option (ℕ × String)
  | asked i provider true _ => some (i, provider)
  | _ => none

def Fact.failure? : Fact → Option (ℕ × String × ProviderResult)
  | answered i provider result => if result.outcome.trippable then some (i, provider, result) else none
  | _ => none

def called (facts : List Fact) : List (ℕ × String) := facts.filterMap Fact.call?

def admissions (facts : List Fact) : List (ℕ × String) := facts.filterMap Fact.admitted?

def failures (facts : List Fact) : List (ℕ × String × ProviderResult) :=
  facts.filterMap Fact.failure?

def firstBehind (rungs : List (ℕ × String)) (i : ℕ) : String :=
  (rungs.find? (fun rung ↦ i < rung.1)).elim "none" Prod.snd

/-- The failovers a walk should count: one for each call that failed in a trippable way, to the
provider that is called next after it. -/
def dueFailovers (requestClass : String) (facts : List Fact) : List Failover :=
  (failures facts).map (fun f ↦
    ⟨f.2.1, firstBehind (called facts) f.1, requestClass, f.2.2.outcome.value⟩)

def Fact.settles : Fact → Bool
  | raced _ _ (.alone result) | raced _ _ (.settled _ result _) => isFinal result
  | _ => false

def Fact.hedges : Fact → Bool
  | raced _ _ (.settled ..) => true
  | _ => false

/-- No second call was raced, and behind every call that failed the first rung whose circuit takes
traffic bears the name of the very next rung. -/
structure StepByStep (ladder : List String) (facts : List Fact) : Prop where
  unhedged : ∀ fact ∈ facts, fact.hedges = false
  adjacent : ∀ f ∈ failures facts,
    firstBehind (admissions facts) f.1 = (ladder[f.1 + 1]?).getD "none"

section Units

variable {env : Environ} {config : GatewayConfig} {metadata : RequestMetadata}
  {payload : List (String × Json)} {ladder : List String} {schedule : RaceSchedule} {σ : Type}
  {h : Handler Cmd Reply σ} {s : σ}

def Stays (c : Cmd) : Prop := failover? c = none

theorem suits_stays : Suits Stays := by
  apply suits_of_metrics _ (fun _ _ ↦ rfl) (fun _ _ ↦ rfl)
  intro c hc
  cases c with
  | metric m => exact absurd rfl (hc m)
  | _ => rfl

theorem failovers_stays {α : Type} {p : Gateway α} (hp : p.Only Stays) :
    failovers (p.trace h s) = [] :=
  List.filterMap_eq_nil_iff.mpr (hp.trace h s)

theorem only_race (first second : String) :
    (race env config metadata payload schedule first second).Only Stays := by
  have hcalls : ∀ provider, (attempt env config metadata payload provider).Only Stays :=
    fun provider ↦ only_attempt suits_stays.looks (suits_stays.calls env config payload provider)
  refine Obeys.only (Q := fun _ _ ↦ True) ?_
  refine Obeys.bind ((hcalls first).advance schedule.beforeHedge) ?_ (fun _ _ _ ↦ trivial)
  rintro _ primary ⟨_, ⟨⟩, hprimary⟩
  refine only_obeys ?_
  split
  · exact Only.bind (only_ofExcept _) (fun _ ↦ trivial)
  · refine Only.bind (only_ask rfl) (fun _ ↦ ?_)
    refine Only.bind (only_firstUsable schedule hprimary (hcalls second)) (fun settled ↦ ?_)
    exact Only.bind (only_ask rfl) (fun _ ↦ Only.bind (only_ofExcept _) (fun _ ↦ trivial))

def Move.step? : Move → Option (ℕ × String × ProviderResult)
  | failover i provider result => some (i, provider, result)
  | _ => none

/-- How a failover step is labelled. -/
def label (ladder : List String) (requestClass : String) (f : ℕ × String × ProviderResult) : Failover :=
  ⟨f.2.1, (ladder[f.1 + 1]?).getD "none", requestClass, f.2.2.outcome.value⟩

theorem failovers_unit (m : Move) (s : σ) :
    failovers ((unit env config metadata payload ladder schedule m).trace h s) =
      (m.step?.map (label ladder metadata.requestClass)).toList := by
  cases m with
  | scan i provider | allows i provider => exact failovers_stays (only_allows suits_stays.looks)
  | attempt i provider =>
    exact failovers_stays
      (only_attempt suits_stays.looks (suits_stays.calls env config payload provider))
  | race i first j second => exact failovers_stays (only_race first second)
  | failover i provider result => rfl

theorem failovers_route {c : ClassConfig}
    (hclass : config.classes.lookup metadata.requestClass = some c) :
    failovers ((route env config metadata payload ladder schedule).trace h s) =
      (((Itinerary.route (hedges c) ladder).trace
        (h.through (unit env config metadata payload ladder schedule)) s).filterMap
          (fun e ↦ e.cmd.step?)).map (label ladder metadata.requestClass) := by
  rw [← expand_route c hclass, failovers, filterMap_trace_expand failovers_unit, List.map_filterMap,
    List.filterMap_eq_flatMap_toList]

end Units

section Steps

variable {facts : List Fact} {steps : List (ℕ × String × ProviderResult)}

def recording : Protocol Move (fun m ↦ Except Exn m.Answer)
    (List Fact × List (ℕ × String × ProviderResult)) where
  possible := fun _ m answer ↦ ∀ a, answer = .ok a → m.Possible a
  watch := fun v guarded m answer ↦
    (journaling.watch v.1 guarded m answer, v.2 ++ m.step?.toList)

theorem after_recording (events : List (Event Move (fun m ↦ Except Exn m.Answer))) :
    recording.after (facts, steps) events =
      (journaling.after facts events, steps ++ events.filterMap (fun e ↦ e.cmd.step?)) := by
  induction events generalizing facts steps with
  | nil => simp [Protocol.after]
  | cons e events ih =>
    have hcons : recording.after (facts, steps) (e :: events) =
        recording.after (recording.watch (facts, steps) e.guarded e.cmd e.reply) events := rfl
    rw [hcons, List.filterMap_cons]
    simp only [recording] at ih ⊢
    rw [ih, List.append_assoc]
    cases e.cmd.step? <;> rfl

theorem records_perform {α : Type} {m : Move} {f : m.Answer → Itinerary α}
    {P : List Fact → List (ℕ × String × ProviderResult) → α → Prop}
    (h : ∀ a, m.Possible a → (f a).Obeys recording (facts ++ m.facts a, steps ++ m.step?.toList)
      (fun v ended ↦ ∀ b, ended = .ok b → P v.1 v.2 b)) :
    (Plan.perform m >>= f).Obeys recording (facts, steps)
      (fun v ended ↦ ∀ b, ended = .ok b → P v.1 v.2 b) :=
  obeys_perform_bind trivial (fun a ha ↦ h a (ha a rfl)) (fun e _ b hb ↦ by cases hb)

def Stepped (facts : List Fact) (steps : List (ℕ × String × ProviderResult)) (facts' : List Fact)
    (steps' : List (ℕ × String × ProviderResult)) : Prop :=
  ∃ more, facts' = facts ++ more ∧ steps' = steps ++ failures more ∧ ∀ fact ∈ more, fact.hedges = false

theorem stepped_nil : Stepped facts steps facts steps := ⟨[], by simp, by simp [failures], by simp⟩

theorem Stepped.cons {facts' more : List Fact} {steps' : List (ℕ × String × ProviderResult)}
    (h : Stepped (facts ++ more) (steps ++ failures more) facts' steps')
    (hmore : ∀ fact ∈ more, fact.hedges = false) : Stepped facts steps facts' steps' := by
  obtain ⟨rest, rfl, rfl, hrest⟩ := h
  refine ⟨more ++ rest, by simp, ?_, List.forall_mem_append.mpr ⟨hmore, hrest⟩⟩
  rw [failures, failures, failures, List.filterMap_append, List.append_assoc]

theorem failures_answered {i : ℕ} {p : String} {result : ProviderResult}
    (h : isFinal result = false) (facts : List Fact) :
    failures (.answered i p result :: facts) = (i, p, result) :: failures facts := by
  rw [failures, List.filterMap_cons, Fact.failure?, if_pos (isFinal_eq_false.mp h)]
  rfl

theorem failures_final {i : ℕ} {provider : String} {result : ProviderResult}
    (h : isFinal result = true) (facts : List Fact) :
    failures (.answered i provider result :: facts) = failures facts := by
  have hno : ¬ result.outcome.trippable = true := fun ht ↦ by
    rw [isFinal_eq_false.mpr ht] at h
    cases h
  rw [failures, List.filterMap_cons, Fact.failure?, if_neg hno]
  rfl

theorem records_walk (i : ℕ) (rest : List String) (attempts : List ProviderCallLog)
    (facts : List Fact) (steps : List (ℕ × String × ProviderResult)) :
    (Itinerary.walk i rest attempts).Obeys recording (facts, steps) (fun v ended ↦
      ∀ routed, ended = .ok routed → Stepped facts steps v.1 v.2) := by
  induction rest generalizing i attempts facts steps with
  | nil => exact fun _ _ ↦ stepped_nil
  | cons provider rest ih =>
    apply records_perform (P := fun facts' steps' _ ↦ Stepped facts steps facts' steps')
    rintro ⟨admits, reason⟩ -
    cases admits with
    | false =>
      apply (ih _ _ _ _).mono
      intro v ended h routed hrouted
      exact (h routed hrouted).cons (by simp [Move.facts, Fact.hedges])
    | true =>
      apply records_perform (P := fun facts' steps' _ ↦ Stepped facts steps facts' steps')
      intro result _
      split
      · next hfinal =>
        intro routed _
        have hnone : failures [.asked i provider true reason, .answered i provider result] = [] :=
          failures_final hfinal []
        refine ⟨[.asked i provider true reason, .answered i provider result], ?_, ?_, ?_⟩
        · simp [Move.facts]
        · simp [hnone, Move.step?]
        · simp [Fact.hedges]
      · next hfailed =>
        apply records_perform (P := fun facts' steps' _ ↦ Stepped facts steps facts' steps')
        intro _ _
        apply (ih _ _ _ _).mono
        intro v ended h routed hrouted
        have hone : failures [.asked i provider true reason, .answered i provider result] =
            [(i, provider, result)] := failures_answered (Bool.not_eq_true _ ▸ hfailed) []
        have hrest := h routed hrouted
        simp only [Move.facts, Move.step?, Option.toList_none, Option.toList_some, List.append_nil,
          List.append_assoc, List.singleton_append] at hrest
        rw [← hone] at hrest
        exact hrest.cons (by simp [Fact.hedges])

/-- A journal of a walk up to some point, with the steps it makes: a race that has ended the walk, a
step for each failure, or one step for the two failures of a race. -/
def Marked (facts : List Fact) (steps : List (ℕ × String × ProviderResult)) : Prop :=
  (∃ fact ∈ facts, fact.settles = true) ∨
    ((∀ fact ∈ facts, fact.hedges = false) ∧ steps = failures facts) ∨
    ((∃ fact ∈ facts, fact.hedges = true) ∧ steps.length + 1 = (failures facts).length)

theorem Marked.append (h : Marked facts steps) {facts' : List Fact}
    {steps' : List (ℕ × String × ProviderResult)} (hmore : Stepped facts steps facts' steps') :
    Marked facts' steps' := by
  obtain ⟨more, rfl, rfl, hunhedged⟩ := hmore
  have hfailures : failures (facts ++ more) = failures facts ++ failures more := List.filterMap_append
  rcases h with ⟨fact, hmem, hsettles⟩ | ⟨hnone, rfl⟩ | ⟨⟨fact, hmem, hhedges⟩, hlength⟩
  · exact .inl ⟨fact, List.mem_append_left _ hmem, hsettles⟩
  · exact .inr (.inl ⟨List.forall_mem_append.mpr ⟨hnone, hunhedged⟩, hfailures.symm⟩)
  · refine .inr (.inr ⟨⟨fact, List.mem_append_left _ hmem, hhedges⟩, ?_⟩)
    rw [hfailures, List.length_append, List.length_append]
    omega

theorem records_admissible (limit i : ℕ) (rungs : List String) (facts : List Fact)
    (steps : List (ℕ × String × ProviderResult)) :
    (Itinerary.admissible limit i rungs).Obeys recording (facts, steps) (fun v ended ↦
      ∀ admitted, ended = .ok admitted → Stepped facts steps v.1 v.2) := by
  induction rungs generalizing limit i facts steps with
  | nil => cases limit <;> exact fun _ _ ↦ stepped_nil
  | cons provider rest ih =>
    cases limit with
    | zero => exact fun _ _ ↦ stepped_nil
    | succ limit =>
      apply records_perform (P := fun facts' steps' _ ↦ Stepped facts steps facts' steps')
      rintro ⟨admits, reason⟩ -
      cases admits with
      | false =>
        apply (ih _ _ _ _).mono
        intro v ended h admitted hadmitted
        exact (h admitted hadmitted).cons (by simp [Move.facts, Fact.hedges])
      | true =>
        refine Obeys.bind (ih limit (i + 1) _ _) ?_ (fun v e _ admitted h ↦ by cases h)
        intro v others h admitted hadmitted
        exact (h others rfl).cons (by simp [Move.facts, Fact.hedges])

theorem records_finish (i : ℕ) (provider : String) (result : ProviderResult)
    (others : List ProviderCallLog) :
    (Itinerary.finish i provider result others).Obeys recording (facts, steps) (fun v ended ↦
      ∀ raced, ended = .ok raced → v.1 = facts ∧ (isFinal result = true ∨
        isFinal result = false ∧ v.2 = steps ++ [(i, provider, result)])) := by
  unfold Itinerary.finish
  split
  · next hfinal => exact fun raced _ ↦ ⟨rfl, .inl hfinal⟩
  · next hfailed =>
    apply records_perform (P := fun facts' steps' _ ↦ facts' = facts ∧ (isFinal result = true ∨
      isFinal result = false ∧ steps' = steps ++ [(i, provider, result)]))
    intro _ _ raced _
    exact ⟨by simp [Move.facts], .inr ⟨Bool.not_eq_true _ ▸ hfailed, rfl⟩⟩

theorem records_land {i j : ℕ} {first second : String} {raced : Raced} (hfair : raced.Fair first second)
    (hsteps : steps = failures facts) (hunhedged : ∀ fact ∈ facts, fact.hedges = false) :
    (Itinerary.land i first j raced).Obeys recording (facts ++ raced.facts i first j second, steps)
      (fun v ended ↦ ∀ raced, ended = .ok raced → Marked v.1 v.2) := by
  cases raced with
  | alone result =>
    apply (records_finish i first result []).mono
    intro v ended h raced hraced
    obtain ⟨hfacts, hfinal | ⟨hfailed, hstep⟩⟩ := h raced hraced
    · exact .inl ⟨.raced i j (.alone result), by simp [hfacts, Raced.facts], hfinal⟩
    · have hone : failures [.raced i j (.alone result), .answered i first result] =
          [(i, first, result)] := failures_answered hfailed []
      refine .inr (.inl ⟨?_, ?_⟩)
      · rw [hfacts]
        exact List.forall_mem_append.mpr ⟨hunhedged, by simp [Raced.facts, Fact.hedges]⟩
      · rw [hstep, hfacts, hsteps, ← hone]
        exact List.filterMap_append.symm
  | settled won result loser =>
    obtain ⟨-, -, hfail, -⟩ := hfair
    have hrace : ∃ fact ∈ facts ++ (Raced.settled won result loser).facts i first j second,
        fact = .raced i j (.settled won result loser) := by
      cases won <;> simp [Raced.facts]
    obtain ⟨_, hmem, rfl⟩ := hrace
    apply (records_finish j result.provider result _).mono
    intro v ended h raced hraced
    obtain ⟨hfacts, hfinal | ⟨hfailed, hstep⟩⟩ := h raced hraced
    · exact .inl ⟨.raced i j (.settled won result loser), hfacts ▸ hmem, hfinal⟩
    · obtain ⟨l, rfl, hl⟩ := hfail hfailed
      have htwo : (failures ((Raced.settled won result (some l)).facts i first j second)).length = 2 := by
        cases won with
        | true =>
          have hrest := failures_answered hfailed (i := j) (p := second) [.answered i first l]
          rw [failures_answered hl] at hrest
          exact congrArg List.length hrest
        | false =>
          have hrest := failures_answered hfailed (i := i) (p := first) [.answered j second l]
          rw [failures_answered hl] at hrest
          exact congrArg List.length hrest
      refine .inr (.inr ⟨⟨.raced i j (.settled won result (some l)), hfacts ▸ hmem, rfl⟩, ?_⟩)
      have happend : failures (facts ++ (Raced.settled won result (some l)).facts i first j second) =
          failures facts ++ failures ((Raced.settled won result (some l)).facts i first j second) :=
        List.filterMap_append
      rw [hstep, hfacts, happend, hsteps, List.length_append, List.length_append, htwo]
      rfl

theorem records_hedgedStart (ladder : List String) :
    (Itinerary.hedgedStart ladder).Obeys recording ([], []) (fun v ended ↦
      ∀ raced, ended = .ok raced → Marked v.1 v.2) := by
  refine Obeys.bind (records_admissible 2 0 ladder [] []) (fun v admitted h ↦ ?_)
    (fun v e _ raced h ↦ by cases h)
  obtain ⟨facts, steps⟩ := v
  obtain ⟨scan, hfacts, hsteps, hscan⟩ := h admitted rfl
  rw [List.nil_append] at hfacts hsteps
  simp only at hfacts hsteps
  subst hfacts hsteps
  have hstart : Marked facts (failures facts) := .inr (.inl ⟨hscan, rfl⟩)
  rcases admitted with _ | ⟨⟨i, first⟩, _ | ⟨⟨j, second⟩, others⟩⟩
  · exact fun _ _ ↦ hstart
  · exact fun _ _ ↦ hstart
  · apply records_perform (P := fun facts' steps' _ ↦ Marked facts' steps')
    intro raced hfair
    have hland := records_land hfair rfl hscan (i := i) (j := j)
    rwa [← List.append_nil (failures facts)] at hland

theorem records_route (hedged : Bool) (ladder : List String) :
    (Itinerary.route hedged ladder).Obeys recording ([], []) (fun v ended ↦
      ∀ routed, ended = .ok routed → Marked v.1 v.2) := by
  have hempty : Marked [] [] := .inr (.inl ⟨by simp, rfl⟩)
  cases hedged with
  | false =>
    apply (records_walk 0 ladder [] [] []).mono
    exact fun v ended h routed hrouted ↦ hempty.append (h routed hrouted)
  | true =>
    refine Obeys.bind (records_hedgedStart ladder) (fun v raced h ↦ ?_) (fun v e _ routed h ↦ by cases h)
    have hstart := h raced rfl
    unfold Itinerary.resume
    split
    · exact fun _ _ ↦ hstart
    · apply (records_walk _ _ _ v.1 v.2).mono
      exact fun v' ended h routed hrouted ↦ hstart.append (h routed hrouted)

end Steps

section Routed

variable {ladder : List String} {hedged : Bool} {i n : ℕ} {rest : List String} {facts facts' : List Fact}
  {ended : Option ProviderResult} {routed : RouteOutcome}

@[simp] theorem called_append (facts facts' : List Fact) :
    called (facts ++ facts') = called facts ++ called facts' := List.filterMap_append

@[simp] theorem admissions_append (facts facts' : List Fact) :
    admissions (facts ++ facts') = admissions facts ++ admissions facts' := List.filterMap_append

@[simp] theorem failures_append (facts facts' : List Fact) :
    failures (facts ++ facts') = failures facts ++ failures facts' := List.filterMap_append

theorem Walked.called_eq (h : Walked i rest facts ended) : called facts = admissions facts := by
  induction h with
  | out => rfl
  | refused _ _ ih => exact ih
  | served => rfl
  | @failed i provider _ _ _ _ _ _ _ _ ih => exact congrArg (List.cons (i, provider)) ih

theorem Walked.failures_ge (h : Walked i rest facts ended) : ∀ f ∈ failures facts, i ≤ f.1 := by
  induction h with
  | out => simp [failures]
  | refused _ _ ih => exact fun f hf ↦ (Nat.le_succ _).trans (ih f hf)
  | @served i provider _ result reason _ hfinal =>
    have hnone : failures [.asked i provider true reason, .answered i provider result] = [] :=
      failures_final hfinal []
    simp [hnone]
  | @failed i provider _ facts _ result reason _ hfailed _ ih =>
    have hcons : failures (.asked i provider true reason :: .answered i provider result :: facts) =
        (i, provider, result) :: failures facts := failures_answered hfailed facts
    rw [hcons]
    exact List.forall_mem_cons.mpr ⟨le_rfl, fun f hf ↦ (Nat.le_succ _).trans (ih f hf)⟩

theorem Scanned.quiet {limit : ℕ} {admitted : List (ℕ × String)}
    (h : Scanned limit i rest facts admitted) :
    called facts = [] ∧ admissions facts = [] ∧ failures facts = [] := by
  induction h with
  | enough | out => exact ⟨rfl, rfl, rfl⟩
  | passed _ ih | picked _ ih => exact ih

/-- Behind a failure the next call is of the next rung that lets the walk through. -/
theorem Routed.firstBehind_called (h : Routed ladder hedged facts routed)
    (hopen : ∀ fact ∈ facts, fact.settles = false) (hunhedged : ∀ fact ∈ facts, fact.hedges = false) :
    ∀ f ∈ failures facts, firstBehind (called facts) f.1 = firstBehind (admissions facts) f.1 := by
  cases h with
  | plain h => exact fun f _ ↦ by rw [h.called_eq]
  | few hscan _ h =>
    obtain ⟨hcalls, hadmissions, -⟩ := hscan.quiet
    exact fun f _ ↦ by simp [hcalls, hadmissions, h.called_eq]
  | raced hscan hlanded =>
    exfalso
    cases hlanded with
    | alone _ _ hfinal | primary _ _ _ hfinal | hedge _ _ _ hfinal =>
      have hrace := hopen _ (List.mem_append_right _ List.mem_cons_self)
      rw [Fact.settles, hfinal] at hrace
      cases hrace
  | @resumed scan landed walked i j n first second result hscan hlanded h =>
    obtain ⟨hcalls, hadmissions, hfailures⟩ := hscan.quiet
    cases hlanded with
    | primaryFailed | hedgeFailed =>
      have hrace := hunhedged _ (List.mem_append_left _
        (List.mem_append_right _ List.mem_cons_self))
      cases hrace
    | @aloneFailed result hprovider hfailed =>
      have hlanded : failures [.raced i j (.alone result), .answered i first result] =
          [(i, first, result)] := failures_answered hfailed []
      have hcalled : called [.raced i j (.alone result), .answered i first result] = [(i, first)] := rfl
      have hasked : admissions [.raced i j (.alone result), .answered i first result] = [] := rfl
      intro f hf
      have hle : i ≤ f.1 := by
        rw [failures_append, failures_append, hfailures, hlanded, List.nil_append,
          List.singleton_append, List.mem_cons] at hf
        rcases hf with rfl | hf
        · exact le_rfl
        · exact (Nat.le_succ i).trans (h.failures_ge f hf)
      rw [called_append, called_append, admissions_append, admissions_append, hcalls, hadmissions,
        hcalled, hasked, h.called_eq]
      simp [firstBehind, hle]

end Routed

/-- What a walk that ends without its race having ended it counts as failovers is what it should
count exactly when it goes step by step. -/
theorem failovers_due_iff {env : Environ} {config : GatewayConfig} {metadata : RequestMetadata}
    {payload : List (String × Json)} {ladder : List String} {schedule : RaceSchedule} {c : ClassConfig}
    {σ : Type} {h : Handler Cmd Reply σ} {s s' : σ} {routed : RouteOutcome}
    (hclass : config.classes.lookup metadata.requestClass = some c)
    (hrun : (route env config metadata payload ladder schedule).run h s = (.ok routed, s'))
    (hopen : ∀ fact ∈ journal env config metadata payload ladder schedule c h s, fact.settles = false) :
    failovers ((route env config metadata payload ladder schedule).trace h s) =
        dueFailovers metadata.requestClass (journal env config metadata payload ladder schedule c h s) ↔
      StepByStep ladder (journal env config metadata payload ladder schedule c h s) := by
  have hrouted := routed_run hclass hrun
  rw [failovers_route hclass]
  have hmarked : Marked (journal env config metadata payload ladder schedule c h s)
      (((Itinerary.route (hedges c) ladder).trace
        (h.through (unit env config metadata payload ladder schedule)) s).filterMap
          (fun e ↦ e.cmd.step?)) := by
    have hrecords := (records_route (hedges c) ladder).run
      (h := h.through (unit env config metadata payload ladder schedule))
      (fun _ m s answer hanswer ↦ unit_possible (Prod.ext hanswer rfl)) s
    rw [after_recording] at hrecords
    refine hrecords routed ?_
    rw [← run_expand, expand_route c hclass, hrun]
  generalize ((Itinerary.route (hedges c) ladder).trace _ s).filterMap _ = steps at hmarked ⊢
  generalize journal env config metadata payload ladder schedule c h s = facts at *
  rcases hmarked with ⟨fact, hmem, hsettles⟩ | ⟨hunhedged, rfl⟩ | ⟨⟨fact, hmem, hhedges⟩, hlength⟩
  · rw [hopen fact hmem] at hsettles
    cases hsettles
  · have hbehind := hrouted.firstBehind_called hopen hunhedged
    rw [dueFailovers, List.map_inj_left]
    constructor
    · intro hlabels
      refine ⟨hunhedged, fun f hf ↦ ?_⟩
      rw [← hbehind f hf]
      exact (congrArg Failover.target (hlabels f hf)).symm
    · intro hsteps f hf
      rw [label, hbehind f hf, hsteps.adjacent f hf]
  · constructor
    · intro hlabels
      have hcount := congrArg List.length hlabels
      rw [List.length_map, dueFailovers, List.length_map] at hcount
      omega
    · intro hsteps
      rw [hsteps.unhedged fact hmem] at hhedges
      cases hhedges

def quickPrimary : RaceSchedule := ⟨1000, [], 0⟩

/-- Every rung times out, one after the other. -/
theorem failovers_due_iff_timingOut :
    failovers ((route (fun _ ↦ none) .shipped classify [] classifyClass.ladder quickPrimary).trace timingOut
        (fun _ ↦ none)) =
      dueFailovers classify.requestClass (journal (fun _ ↦ none) .shipped classify []
        classifyClass.ladder quickPrimary classifyClass timingOut (fun _ ↦ none)) := by
  have hended : ((route (fun _ ↦ none) .shipped classify [] classifyClass.ladder quickPrimary).run timingOut
      (fun _ ↦ none)).1.isOk = true := by
    decide +kernel
  obtain ⟨routed, s', hrun⟩ := exists_run_of_isOk timingOut hended
  exact (failovers_due_iff rfl hrun (by decide +kernel)).mpr ⟨by decide +kernel, by decide +kernel⟩

def anthropicOpen : Redis.Db :=
  Function.update (fun _ ↦ none) (Breaker.key "anthropic")
    (some ⟨.hash (Breaker.fields .opened (some 0) ⟨300, 0⟩), none⟩)

/-- The first rung fails over to the third one, and is counted as failing over to the second. -/
theorem anthropicOpen_not_due :
    (∃ routed s', (route (fun _ ↦ none) .shipped classify [] classifyClass.ladder quickPrimary).run
        timingOut anthropicOpen = (.ok routed, s')) ∧
      (∀ fact ∈ journal (fun _ ↦ none) .shipped classify [] classifyClass.ladder quickPrimary
        classifyClass timingOut anthropicOpen, fact.settles = false) ∧
      failovers ((route (fun _ ↦ none) .shipped classify [] classifyClass.ladder quickPrimary).trace
          timingOut anthropicOpen) ≠
        dueFailovers classify.requestClass (journal (fun _ ↦ none) .shipped classify []
          classifyClass.ladder quickPrimary classifyClass timingOut anthropicOpen) := by
  have hended : ((route (fun _ ↦ none) .shipped classify [] classifyClass.ladder quickPrimary).run timingOut
      anthropicOpen).1.isOk = true := by
    decide +kernel
  exact ⟨exists_run_of_isOk timingOut hended, by decide +kernel, by decide +kernel⟩

end HealingGateway.Router
