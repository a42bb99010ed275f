import HealingGateway.Library.Histories
import HealingGateway.Failovers

namespace HealingGateway.Router

open Programs Programs.Prog Numerals JsonText Histories

def Fact.refusal? : Fact → Option String
  | scanned _ provider false | asked _ provider false _ => some provider
  | _ => none

def Fact.grant? : Fact → Option (ℕ × String)
  | scanned i provider true | asked i provider true _ => some (i, provider)
  | _ => none

def Fact.Called (fact : Fact) : Prop := ∃ rung, fact.call? = some rung

def refusals (facts : List Fact) : List String := facts.filterMap Fact.refusal?

def grants (facts : List Fact) : List (ℕ × String) := facts.filterMap Fact.grant?

def Fact.racers (ladder : List String) : Fact → List String
  | raced i _ (.alone _) => ladder[i]?.toList
  | raced i j (.settled ..) => ladder[i]?.toList ++ ladder[j]?.toList
  | _ => []

/-- A provider that is called was let through, and its circuit has not refused the request
before. -/
structure OneDraw (facts : List Fact) : Prop where
  granted : ∀ before fact after, facts = before ++ fact :: after →
    ∀ rung ∈ fact.call?, rung ∈ grants before
  kept : ∀ before fact after, facts = before ++ fact :: after →
    ∀ rung ∈ fact.call?, rung.2 ∉ refusals before

/-- A circuit that has refused refuses again when the walk asks it again, and no provider that is
raced was refused at another of its rungs. -/
structure Firm (ladder : List String) (facts : List Fact) : Prop where
  asked : ∀ before fact after, facts = before ++ fact :: after →
    ∀ rung ∈ fact.admitted?, rung.2 ∉ refusals before
  raced : ∀ before fact after, facts = before ++ fact :: after →
    ∀ provider ∈ fact.racers ladder, provider ∉ refusals before

section Walks

variable {ladder : List String} {hedged : Bool} {i j n : ℕ} {rest : List String} {first second : String}
  {before facts : List Fact} {ended : Option ProviderResult} {routed : RouteOutcome}

def Granted (before : List Fact) (fact : Fact) : Prop := ∀ rung ∈ fact.call?, rung ∈ grants before

def Spared (before : List Fact) (fact : Fact) : Prop := ∀ rung ∈ fact.call?, rung.2 ∉ refusals before

def Steadfast (before : List Fact) (fact : Fact) : Prop :=
  ∀ rung ∈ fact.admitted?, rung.2 ∉ refusals before

def Clear (ladder : List String) (before : List Fact) (fact : Fact) : Prop :=
  ∀ provider ∈ fact.racers ladder, provider ∉ refusals before

@[simp] theorem grants_append (facts facts' : List Fact) :
    grants (facts ++ facts') = grants facts ++ grants facts' := List.filterMap_append

@[simp] theorem refusals_append (facts facts' : List Fact) :
    refusals (facts ++ facts') = refusals facts ++ refusals facts' := List.filterMap_append

/-- Every call was let through, and none follows a refusal exactly where no circuit lets through
after one and no rung is raced after one. -/
def Matched (ladder : List String) (before facts : List Fact) : Prop :=
  Along Granted before facts ∧ (Along Spared before facts ↔
    Along Steadfast before facts ∧ Along (Clear ladder) before facts)

theorem matched_nil (before : List Fact) : Matched ladder before [] :=
  ⟨trivial, iff_of_true trivial ⟨trivial, trivial⟩⟩

theorem Matched.append {facts' : List Fact} (h : Matched ladder before facts)
    (h' : Matched ladder (before ++ facts) facts') : Matched ladder before (facts ++ facts') := by
  obtain ⟨hgranted, hspared⟩ := h
  obtain ⟨hgranted', hspared'⟩ := h'
  refine ⟨(along_append ..).mpr ⟨hgranted, hgranted'⟩, ?_⟩
  rw [along_append, along_append, along_append, hspared, hspared']
  tauto

theorem matched_idle {fact : Fact} (hcall : fact.call? = none) (hadmitted : fact.admitted? = none)
    (hracers : fact.racers ladder = []) (before : List Fact) : Matched ladder before [fact] := by
  have hgranted : Granted before fact := by simp [Granted, hcall]
  have hspared : Spared before fact := by simp [Spared, hcall]
  have hsteadfast : Steadfast before fact := by simp [Steadfast, hadmitted]
  have hclear : Clear ladder before fact := by simp [Clear, hracers]
  exact ⟨⟨hgranted, trivial⟩, iff_of_true ⟨hspared, trivial⟩ ⟨⟨hsteadfast, trivial⟩, ⟨hclear, trivial⟩⟩⟩

theorem matched_visit (i : ℕ) (provider reason : String) (result : ProviderResult)
    (before : List Fact) :
    Matched ladder before [.asked i provider true reason, .answered i provider result] := by
  have hrefusals : refusals (before ++ [.asked i provider true reason]) = refusals before :=
    (refusals_append _ _).trans (List.append_nil _)
  have hgrants : (i, provider) ∈ grants (before ++ [.asked i provider true reason]) := by
    rw [grants_append]
    exact List.mem_append_right _ List.mem_cons_self
  refine ⟨⟨?_, ?_, trivial⟩, ?_⟩
  · simp [Granted, Fact.call?]
  · simpa only [Granted, Fact.call?, Option.mem_def, Option.some.injEq, forall_eq'] using hgrants
  · simp only [Along, Spared, Steadfast, Clear, Fact.call?, Fact.admitted?, Fact.racers, hrefusals]
    simp

theorem Walked.matched (h : Walked i rest facts ended) (before : List Fact) :
    Matched ladder before facts := by
  induction h generalizing before with
  | out => exact matched_nil before
  | refused reason _ ih =>
    exact (matched_idle rfl rfl rfl before).append (ih _)
  | served reason => exact matched_visit _ _ reason _ before
  | failed reason _ _ _ ih => exact (matched_visit _ _ reason _ before).append (ih _)

theorem Scanned.matched {limit : ℕ} {admitted : List (ℕ × String)}
    (h : Scanned limit i rest facts admitted) (before : List Fact) : Matched ladder before facts := by
  induction h generalizing before with
  | enough | out => exact matched_nil before
  | passed _ ih | picked _ ih => exact (matched_idle rfl rfl rfl before).append (ih _)

theorem Scanned.grants {limit : ℕ} {admitted : List (ℕ × String)}
    (h : Scanned limit i rest facts admitted) : Router.grants facts = admitted := by
  induction h with
  | enough | out => rfl
  | passed _ ih => exact ih
  | picked _ ih => exact congrArg (List.cons _) ih

theorem along_calls {calls : List Fact} (hcalls : ∀ fact ∈ calls, fact.Called) (before : List Fact) :
    (Along Granted before calls ↔ ∀ rung ∈ called calls, rung ∈ grants before) ∧
      (Along Spared before calls ↔ ∀ rung ∈ called calls, rung.2 ∉ refusals before) ∧
      Along Steadfast before calls ∧ Along (Clear ladder) before calls := by
  induction calls generalizing before with
  | nil => simp [Along, called]
  | cons fact calls ih =>
    obtain ⟨⟨rung, hcall⟩, hrest⟩ := List.forall_mem_cons.mp hcalls
    have hadmitted : fact.admitted? = none := by cases fact <;> first | rfl | cases hcall
    have hracers : fact.racers ladder = [] := by cases fact <;> first | rfl | cases hcall
    have hgrants : grants (before ++ [fact]) = grants before := by
      cases fact <;> first | exact (grants_append _ _).trans (List.append_nil _) | cases hcall
    have hrefusals : refusals (before ++ [fact]) = refusals before := by
      cases fact <;> first | exact (refusals_append _ _).trans (List.append_nil _) | cases hcall
    have hcalled : called (fact :: calls) = rung :: called calls := List.filterMap_cons_some hcall
    obtain ⟨hgranted, hspared, hsteadfast, hclear⟩ := ih hrest (before ++ [fact])
    rw [hgrants] at hgranted
    rw [hrefusals] at hspared
    refine ⟨?_, ?_, ⟨?_, hsteadfast⟩, ⟨?_, hclear⟩⟩
    · rw [hcalled, List.forall_mem_cons, Along, hgranted, Granted, hcall]
      simp
    · rw [hcalled, List.forall_mem_cons, Along, hspared, Spared, hcall]
      simp
    · simp [Steadfast, hadmitted]
    · simp [Clear, hracers]

theorem matched_race {raced : Raced} {calls : List Fact} (hcalls : ∀ fact ∈ calls, fact.Called)
    (hgranted : ∀ rung ∈ called calls, rung ∈ grants before)
    (hracers : ∀ provider, provider ∈ (Fact.raced i j raced).racers ladder ↔
      ∃ rung ∈ called calls, rung.2 = provider) :
    Matched ladder before (.raced i j raced :: calls) := by
  have hgrants : grants (before ++ [.raced i j raced]) = grants before :=
    (grants_append _ _).trans (List.append_nil _)
  have hrefusals : refusals (before ++ [.raced i j raced]) = refusals before :=
    (refusals_append _ _).trans (List.append_nil _)
  obtain ⟨halong, hspared, hsteadfast, hclear⟩ := along_calls hcalls (before ++ [.raced i j raced])
  rw [hgrants] at halong
  rw [hrefusals] at hspared
  refine ⟨⟨fun rung hrung ↦ (by cases hrung), halong.mpr hgranted⟩, ?_⟩
  have hrace : Spared before (.raced i j raced) := fun rung hrung ↦ (by cases hrung)
  have hraced : Steadfast before (.raced i j raced) := fun rung hrung ↦ (by cases hrung)
  rw [Along, Along, Along, hspared]
  constructor
  · rintro ⟨-, hfree⟩
    refine ⟨⟨hraced, hsteadfast⟩, fun provider hprovider ↦ ?_, hclear⟩
    obtain ⟨rung, hrung, rfl⟩ := (hracers provider).mp hprovider
    exact hfree rung hrung
  · rintro ⟨-, hfree, -⟩
    exact ⟨hrace, fun rung hrung ↦ hfree rung.2 ((hracers rung.2).mpr ⟨rung, hrung, rfl⟩)⟩

theorem call?_answered (i : ℕ) (provider : String) (result : ProviderResult) :
    (Fact.answered i provider result).call? = some (i, provider) := rfl

theorem call?_loserFact (i : ℕ) (provider : String) (loser : Option ProviderResult) :
    (loserFact i provider loser).call? = some (i, provider) := by
  cases loser <;> rfl

theorem Landed.matched (h : Landed i first j second facts ended n) (hi : ladder[i]? = some first)
    (hj : ladder[j]? = some second) (hfirst : (i, first) ∈ grants before)
    (hsecond : (j, second) ∈ grants before) : Matched ladder before facts := by
  cases h with
  | alone | aloneFailed =>
    apply matched_race
    · simp [Fact.Called, Fact.call?]
    · simpa [called, Fact.call?] using hfirst
    · simp [Fact.racers, hi, called, Fact.call?, eq_comm]
  | primary | hedge | primaryFailed | hedgeFailed =>
    apply matched_race
    · simp [Fact.Called, call?_answered, call?_loserFact]
    · simp [called, call?_answered, call?_loserFact, hfirst, hsecond]
    · simp [Fact.racers, hi, hj, called, call?_answered, call?_loserFact, eq_comm, or_comm]

theorem Routed.matched (h : Routed ladder hedged facts routed) : Matched ladder [] facts := by
  cases h with
  | plain h => exact h.matched []
  | few hscan _ h => exact (hscan.matched []).append (h.matched _)
  | @raced scan landed i j n first second result hscan hlanded =>
    obtain ⟨-, hi, hj, -⟩ := hscan.pair
    refine (hscan.matched []).append (hlanded.matched hi hj ?_ ?_)
    · simp [hscan.grants]
    · simp [hscan.grants]
  | @resumed scan landed walked i j n first second result hscan hlanded h =>
    obtain ⟨-, hi, hj, -⟩ := hscan.pair
    refine ((hscan.matched []).append (hlanded.matched hi hj ?_ ?_)).append (h.matched _)
    · simp [hscan.grants]
    · simp [hscan.grants]

theorem Walked.steadfast (h : Walked i rest facts ended) (hnodup : rest.Nodup)
    (hfresh : ∀ provider ∈ rest, provider ∉ refusals before) : Along Steadfast before facts := by
  induction h generalizing before with
  | out => trivial
  | @refused i provider rest facts _ reason _ ih =>
    obtain ⟨hnew, hrest⟩ := List.nodup_cons.mp hnodup
    have hasked : Steadfast before (.asked i provider false reason) := fun rung hrung ↦ (by cases hrung)
    have hrefusals : refusals (before ++ [.asked i provider false reason]) =
        refusals before ++ [provider] := refusals_append ..
    refine ⟨hasked, ih hrest (fun other hother ↦ ?_)⟩
    rw [hrefusals, List.mem_append, List.mem_singleton]
    rintro (hold | rfl)
    · exact hfresh other (List.mem_cons_of_mem _ hother) hold
    · exact hnew hother
  | @served i provider _ result reason =>
    refine ⟨?_, fun rung hrung ↦ (by cases hrung), trivial⟩
    rintro rung ⟨⟩
    exact hfresh provider List.mem_cons_self
  | @failed i provider rest facts _ result reason _ _ _ ih =>
    obtain ⟨hnew, hrest⟩ := List.nodup_cons.mp hnodup
    have hrefusals : refusals (before ++ [.asked i provider true reason] ++ [.answered i provider result]) =
        refusals before := by
      rw [refusals_append, refusals_append]
      exact (List.append_nil _).trans (List.append_nil _)
    refine ⟨?_, fun rung hrung ↦ (by cases hrung), ih hrest (fun other hother ↦ ?_)⟩
    · rintro rung ⟨⟩
      exact hfresh provider List.mem_cons_self
    · rw [hrefusals]
      exact hfresh other (List.mem_cons_of_mem _ hother)

theorem Walked.clear (h : Walked i rest facts ended) (before : List Fact) :
    Along (Clear ladder) before facts := by
  induction h generalizing before with
  | out => trivial
  | refused _ _ ih => exact ⟨fun provider hprovider ↦ (by cases hprovider), ih _⟩
  | served => exact ⟨fun provider hprovider ↦ (by cases hprovider),
      fun provider hprovider ↦ (by cases hprovider), trivial⟩
  | failed _ _ _ _ ih => exact ⟨fun provider hprovider ↦ (by cases hprovider),
      fun provider hprovider ↦ (by cases hprovider), ih _⟩

theorem firm_iff : Firm ladder facts ↔
    Along Steadfast [] facts ∧ Along (Clear ladder) [] facts := by
  rw [along_iff, along_iff]
  exact ⟨fun h ↦ ⟨h.asked, h.raced⟩, fun h ↦ ⟨h.1, h.2⟩⟩

theorem oneDraw_iff : OneDraw facts ↔ Along Granted [] facts ∧ Along Spared [] facts := by
  rw [along_iff, along_iff]
  exact ⟨fun h ↦ ⟨h.granted, h.kept⟩, fun h ↦ ⟨h.1, h.2⟩⟩

theorem Routed.firm_plain (h : Routed ladder false facts routed) (hnodup : ladder.Nodup) :
    Firm ladder facts := by
  cases h with
  | plain h => exact firm_iff.mpr ⟨h.steadfast hnodup (by simp [refusals]), h.clear []⟩

end Walks

/-- A walk that ends draws once for each provider it calls exactly when no circuit that has refused
lets it through at a later draw. -/
theorem oneDraw_iff_firm {env : Environ} {config : GatewayConfig} {metadata : RequestMetadata}
    {payload : List (String × Json)} {ladder : List String} {schedule : RaceSchedule} {c : ClassConfig}
    {σ : Type} {h : Handler Cmd Reply σ} {s s' : σ} {routed : RouteOutcome}
    (hclass : config.classes.lookup metadata.requestClass = some c)
    (hrun : (route env config metadata payload ladder schedule).run h s = (.ok routed, s')) :
    OneDraw (journal env config metadata payload ladder schedule c h s) ↔
      Firm ladder (journal env config metadata payload ladder schedule c h s) := by
  obtain ⟨hgranted, hspared⟩ := (routed_run hclass hrun).matched
  rw [oneDraw_iff, firm_iff, ← hspared]
  exact and_iff_right hgranted

def groqDown : Outside where
  now := 0
  completion := fun kwargs ↦
    match kwargs.lookup "model" with
    | some (.str "groq/openai/gpt-oss-120b") => .error timeoutError
    | _ => .ok .null

/-- The same, with the draws of the circuits given in advance. -/
def drawing : Handler Cmd Reply (Redis.Db × List ℚ)
  | .random, (db, draws) => (draws.headD 0, db, draws.tail)
  | c, (db, draws) => ((groqDown.answers c db).1, (groqDown.answers c db).2, draws)

/-- The second rung's circuit takes half of the traffic. -/
def anthropicHalfOpen : Redis.Db :=
  Function.update (fun _ ↦ none) (Breaker.key "anthropic")
    (some ⟨.hash (Breaker.fields .halfOpen (some 0) ⟨300, 0⟩), none⟩)

/-- The second rung is refused at both draws, and the third one serves. -/
theorem oneDraw_iff_firm_refusedTwice :
    OneDraw (journal (fun _ ↦ none) .shipped classify [] classifyClass.ladder quickPrimary classifyClass
      drawing (anthropicHalfOpen, [9 / 10, 9 / 10])) := by
  have hended : ((route (fun _ ↦ none) .shipped classify [] classifyClass.ladder quickPrimary).run drawing
      (anthropicHalfOpen, [9 / 10, 9 / 10])).1.isOk = true := by
    decide +kernel
  obtain ⟨routed, s', hrun⟩ := exists_run_of_isOk drawing hended
  exact (oneDraw_iff_firm rfl hrun).mpr ⟨by decide +kernel, by decide +kernel⟩

/-- The second rung is refused at its first draw, and called after its second one. Its circuit is half
open to the end. -/
theorem drawnTwice_not_oneDraw :
    (∃ routed s', (route (fun _ ↦ none) .shipped classify [] classifyClass.ladder quickPrimary).run drawing
        (anthropicHalfOpen, [9 / 10, 1 / 10]) = (.ok routed, s') ∧
          (((Breaker.stateOf .shipped "anthropic" none).run drawing s').1.toOption.map
            (fun circuit ↦ circuit.state)) = some .halfOpen) ∧
      ¬ OneDraw (journal (fun _ ↦ none) .shipped classify [] classifyClass.ladder quickPrimary
        classifyClass drawing (anthropicHalfOpen, [9 / 10, 1 / 10])) := by
  have hended : ((route (fun _ ↦ none) .shipped classify [] classifyClass.ladder quickPrimary).run drawing
      (anthropicHalfOpen, [9 / 10, 1 / 10])).1.isOk = true := by
    decide +kernel
  have hstays : (((Breaker.stateOf .shipped "anthropic" none).run drawing
      ((route (fun _ ↦ none) .shipped classify [] classifyClass.ladder quickPrimary).run drawing
        (anthropicHalfOpen, [9 / 10, 1 / 10])).2).1.toOption.map (fun circuit ↦ circuit.state)) =
      some .halfOpen := by
    decide +kernel
  have hcalled : ¬ ∀ before fact after, journal (fun _ ↦ none) .shipped classify [] classifyClass.ladder
      quickPrimary classifyClass drawing (anthropicHalfOpen, [9 / 10, 1 / 10]) = before ++ fact :: after →
        ∀ rung ∈ fact.call?, rung.2 ∉ refusals before := by
    decide +kernel
  refine ⟨?_, fun hdraw ↦ hcalled hdraw.kept⟩
  obtain ⟨routed, s', hrun⟩ := exists_run_of_isOk drawing hended
  rw [hrun] at hstays
  exact ⟨routed, s', hrun, hstays⟩

end HealingGateway.Router
