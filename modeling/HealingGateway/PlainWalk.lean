import HealingGateway.HedgedWalk
import HealingGateway.Library.Runs
import HealingGateway.Rendering

namespace HealingGateway.Router

open Programs Programs.Prog Numerals JsonText

/-- What a plain walk did at one rung. -/
inductive Visit
  | skipped (reason : String)
  | called (reason : String) (result : ProviderResult)

namespace Visit

def result? : Visit → Option ProviderResult
  | skipped _ => none
  | called _ result => some result

def final? (visit : Visit) : Option ProviderResult := visit.result?.filter isFinal

def facts (i : ℕ) (provider : String) : Visit → List Fact
  | skipped reason => [.asked i provider false reason]
  | called reason result => [.asked i provider true reason, .answered i provider result]

def log (provider : String) : Visit → ProviderCallLog
  | skipped reason => Router.skipped provider reason
  | called _ result => logged result

end Visit

def learnt : ℕ → List String → List Visit → List Fact
  | i, provider :: rest, visit :: visits => visit.facts i provider ++ learnt (i + 1) rest visits
  | _, _, _ => []

@[simp] theorem learnt_nil (i : ℕ) (rest : List String) : learnt i rest [] = [] := by
  cases rest <;> rfl

def calls (visits : List Visit) : List ProviderResult := visits.filterMap Visit.result?

/-- The result that ended a walk, if one did. -/
def served (visits : List Visit) : Option ProviderResult := visits.getLast?.bind Visit.final?

/-- A walk in order over the rungs from position `i` on, up to the first final result. -/
structure Traversed (i : ℕ) (rest : List String) (visits : List Visit) (facts : List Fact)
    (ended : Option ProviderResult) : Prop where
  length_le : visits.length ≤ rest.length
  learnt : facts = learnt i rest visits
  passed : ∀ visit ∈ visits.dropLast, visit.final? = none
  ends : ended = served visits
  exhausted : ended = none → visits.length = rest.length
  called : ∀ k, k ∈ dispatches facts ↔
    ∃ (n : ℕ) (reason : String) (result : ProviderResult), k = i + n ∧
      visits[n]? = some (Visit.called reason result)
  ordered : (dispatches facts).Pairwise (· < ·)
  provider : ∀ (n : ℕ) (reason : String) (result : ProviderResult),
    visits[n]? = some (Visit.called reason result) →
    rest[n]? = some result.provider
  trail : trailOf facts = List.zipWith Visit.log rest visits
  results : results facts = calls visits

section Traversed

variable {i : ℕ} {provider : String} {rest : List String} {visits : List Visit} {visit : Visit}
  {facts : List Fact} {ended : Option ProviderResult}

theorem Traversed.dispatches_ge (h : Traversed i rest visits facts ended) :
    ∀ k ∈ dispatches facts, i ≤ k := by
  intro k hk
  obtain ⟨n, _, _, rfl, _⟩ := (h.called k).mp hk
  exact Nat.le_add_right i n

theorem served_cons (hvisit : visit.final? = none) : served (visit :: visits) = served visits := by
  cases visits with
  | nil => exact hvisit
  | cons other visits => simp [served]

theorem passed_cons (hvisit : visit.final? = none) (h : ∀ v ∈ visits.dropLast, v.final? = none) :
    ∀ v ∈ (visit :: visits).dropLast, v.final? = none := by
  cases visits with
  | nil => simp
  | cons other visits => exact List.forall_mem_cons.mpr ⟨hvisit, h⟩

theorem called_cons {k : ℕ} :
    (∃ (n : ℕ) (reason : String) (result : ProviderResult), k = i + n ∧
        (visit :: visits)[n]? = some (Visit.called reason result)) ↔
      (k = i ∧ ∃ reason result, visit = .called reason result) ∨
        ∃ (n : ℕ) (reason : String) (result : ProviderResult), k = i + 1 + n ∧
          visits[n]? = some (Visit.called reason result) := by
  constructor
  · rintro ⟨n, reason, result, rfl, hget⟩
    cases n with
    | zero => exact .inl ⟨rfl, reason, result, Option.some.inj hget⟩
    | succ n => exact .inr ⟨n, reason, result, by omega, hget⟩
  · rintro (⟨rfl, reason, result, rfl⟩ | ⟨n, reason, result, rfl, hget⟩)
    · exact ⟨0, reason, result, rfl, rfl⟩
    · exact ⟨n + 1, reason, result, by omega, hget⟩

theorem Traversed.skip (h : Traversed (i + 1) rest visits facts ended) (reason : String) :
    Traversed i (provider :: rest) (.skipped reason :: visits)
      (.asked i provider false reason :: facts) ended where
  length_le := Nat.succ_le_succ h.length_le
  learnt := by rw [Router.learnt, h.learnt, Visit.facts, List.singleton_append]
  passed := passed_cons rfl h.passed
  ends := h.ends.trans (served_cons rfl).symm
  exhausted hended := congrArg Nat.succ (h.exhausted hended)
  called k := by
    rw [dispatches_asked, h.called, called_cons]
    simp
  ordered := h.ordered
  provider n reason' result hget := by
    cases n with
    | zero => cases hget
    | succ n => exact h.provider n reason' result hget
  trail := by rw [trailOf_refused, h.trail, List.zipWith_cons_cons, Visit.log]
  results := h.results

theorem Traversed.fail (h : Traversed (i + 1) rest visits facts ended) (reason : String)
    {result : ProviderResult} (hprovider : result.provider = provider)
    (hfailed : isFinal result = false) :
    Traversed i (provider :: rest) (.called reason result :: visits)
      (.asked i provider true reason :: .answered i provider result :: facts) ended := by
  have hvisit : (Visit.called reason result).final? = none := by
    simp [Visit.final?, Visit.result?, hfailed]
  refine ⟨Nat.succ_le_succ h.length_le, ?_, passed_cons hvisit h.passed,
    h.ends.trans (served_cons hvisit).symm, fun hended ↦ congrArg Nat.succ (h.exhausted hended),
    fun k ↦ ?_, ?_, ?_, ?_, ?_⟩
  · rw [Router.learnt, h.learnt]
    rfl
  · rw [dispatches_asked, dispatches_answered, List.mem_cons, h.called, called_cons]
    simp
  · rw [dispatches_asked, dispatches_answered]
    refine List.pairwise_cons.mpr ⟨fun k hk ↦ ?_, h.ordered⟩
    exact h.dispatches_ge k hk
  · intro n reason' result' hget
    cases n with
    | zero =>
      cases hget
      exact congrArg some hprovider.symm
    | succ n => exact h.provider n reason' result' hget
  · rw [trailOf_admitted, trailOf_answered, h.trail, List.zipWith_cons_cons, Visit.log]
  · rw [results_asked, results_answered, h.results]
    rfl

theorem traversed_served (reason : String) {result : ProviderResult}
    (hprovider : result.provider = provider) (hfinal : isFinal result = true) :
    Traversed i (provider :: rest) [.called reason result]
      [.asked i provider true reason, .answered i provider result] (some result) := by
  refine ⟨by simp, by simp [learnt, Visit.facts], by simp, ?_, (fun h ↦ by cases h), fun k ↦ ?_,
    by simp, ?_, by simp [Visit.log], rfl⟩
  · simp [served, Visit.final?, Visit.result?, Option.filter, hfinal]
  · rw [called_cons]
    simp
  · intro n reason' result' hget
    cases n with
    | zero =>
      cases hget
      exact congrArg some hprovider.symm
    | succ n => cases hget

theorem Walked.traversed (h : Walked i rest facts ended) : ∃ visits, Traversed i rest visits facts ended := by
  induction h with
  | out i =>
    refine ⟨[], ?_⟩
    refine ⟨le_rfl, by simp, by simp, rfl, fun _ ↦ rfl, by simp, List.Pairwise.nil, by simp, rfl, rfl⟩
  | refused reason _ ih =>
    obtain ⟨visits, h⟩ := ih
    exact ⟨_, h.skip reason⟩
  | served reason hprovider hfinal => exact ⟨_, traversed_served reason hprovider hfinal⟩
  | failed reason hprovider hfailed _ ih =>
    obtain ⟨visits, h⟩ := ih
    exact ⟨_, h.fail reason hprovider hfailed⟩

end Traversed

section Runs

variable {σ : Type} {h : Handler Move (fun m ↦ Except Exn m.Answer) σ} {s : σ}

/-- A step that came to an answer. -/
def responded (e : Event Move (fun m ↦ Except Exn m.Answer)) : Prop := e.reply.isOk = true

instance : DecidablePred responded := fun _ ↦ inferInstanceAs (Decidable (_ = true))

theorem leads_perform {α : Type} {m : Move} {f : m.Answer → Itinerary α} {Q : Except Exn α → σ → Prop}
    (hf : ∀ a, (h m s).1 = .ok a → (f a).Leads h responded (h m s).2 Q) :
    (Plan.perform m >>= f).Leads h responded s Q := by
  apply leads_call
  intro hok
  cases hanswer : (h m s).1 with
  | ok a => exact hf a hanswer
  | error e =>
    rw [responded, hanswer] at hok
    cases hok

theorem leads_walk (i : ℕ) (rest : List String) (attempts : List ProviderCallLog) :
    (Itinerary.walk i rest attempts).Leads h responded s (fun r _ ↦ r.isOk = true) := by
  induction rest generalizing i attempts s with
  | nil => exact leads_done rfl
  | cons provider rest ih =>
    apply leads_perform
    rintro ⟨admits, reason⟩ -
    cases admits with
    | false => exact ih _ _
    | true =>
      apply leads_perform
      intro result _
      split
      · exact leads_done rfl
      · apply leads_perform
        intro _ _
        exact ih _ _

end Runs

end HealingGateway.Router

namespace HealingGateway.Main

open Programs Programs.Prog JsonText Schemas Router

/-- What a plain walk is answered with. -/
structure Answered (visits : List Visit) (ended : Except Exn (ℤ × Json)) : Prop where
  ok : (∃ body, ended = .ok (200, body)) ↔ ∃ result, served visits = some result ∧
    result.outcome.isOk = true ∧ renderable result = true
  fault : (∃ body, ended = .ok (400, body)) ↔
    ∃ result, served visits = some result ∧ result.outcome.callerFault = true
  failed : ∀ status, status = 429 ∨ status = 502 ∨ status = 504 →
    ((∃ body, ended = .ok (status, body)) ↔ (∀ result ∈ calls visits, result.outcome.trippable = true) ∧
      ∃ last, (calls visits).getLast? = some last ∧ statusByOutcome last.outcome = some status)
  unavailable : (∃ body, ended = .ok (503, body)) ↔ calls visits = []
  raised : ∀ e, ended = .error e → e.isInstance "KeyError" = false ∧
    ∃ result, served visits = some result ∧ result.outcome.isOk = true ∧ renderable result = false

section Raised

theorem not_keyError_bind {α β : Type} {x : Except Exn α} {f : α → Except Exn β}
    (hx : ∀ e, x = .error e → e.isInstance "KeyError" = false)
    (hf : ∀ a e, f a = .error e → e.isInstance "KeyError" = false) :
    ∀ e, (x >>= f) = .error e → e.isInstance "KeyError" = false := by
  intro e he
  rcases bind_eq_error.mp he with he | ⟨a, -, he⟩
  · exact hx e he
  · exact hf a e he

theorem not_keyError_validated {α : Type} (field : String) (a : Option α) :
    ∀ e, validated field a = .error e → e.isInstance "KeyError" = false := by
  intro e he
  cases a with
  | some a => cases he
  | none =>
    cases he
    rfl

theorem not_keyError_choiceOf (i : ℕ) (choice : Json) :
    ∀ e, choiceOf i choice = .error e → e.isInstance "KeyError" = false := by
  unfold choiceOf
  split
  · rintro e ⟨⟩
    rfl
  · refine not_keyError_bind (not_keyError_validated _ _) (fun _ ↦ ?_)
    refine not_keyError_bind (not_keyError_validated _ _) (fun _ ↦ ?_)
    refine not_keyError_bind (not_keyError_validated _ _) (fun _ ↦ ?_)
    exact not_keyError_bind (not_keyError_validated _ _) (fun _ _ he ↦ by cases he)

theorem not_keyError_choicesFrom (i : ℕ) (choices : List Json) :
    ∀ e, choicesFrom i choices = .error e → e.isInstance "KeyError" = false := by
  induction choices generalizing i with
  | nil => rintro e ⟨⟩
  | cons choice choices ih =>
    refine not_keyError_bind (not_keyError_choiceOf _ _) (fun _ ↦ ?_)
    exact not_keyError_bind (ih _) (fun _ _ he ↦ by cases he)

theorem not_keyError_choicesOf (response : Option Json) :
    ∀ e, choicesOf response = .error e → e.isInstance "KeyError" = false := by
  unfold choicesOf
  split
  · rintro e ⟨⟩
  · exact not_keyError_choicesFrom 0 _
  · rintro e ⟨⟩
    rfl

theorem not_keyError_build (id created model : Json) (choices : List Choice) (usage : Usage)
    (xGateway : GatewayMeta) :
    ∀ e, build id created model choices usage xGateway = .error e → e.isInstance "KeyError" = false := by
  refine not_keyError_bind (not_keyError_validated _ _) (fun _ ↦ ?_)
  refine not_keyError_bind (not_keyError_validated _ _) (fun _ ↦ ?_)
  exact not_keyError_bind (not_keyError_validated _ _) (fun _ _ he ↦ by cases he)

variable {σ : Type} (h : Handler Cmd Reply σ)

theorem not_keyError_toOpenaiResponse (result : ProviderResult) (metadata : RequestMetadata)
    (attempts : List ProviderCallLog) (s : σ) :
    ∀ e, ((toOpenaiResponse result metadata attempts).run h s).1 = .error e →
      e.isInstance "KeyError" = false := by
  intro e he
  simp only [toOpenaiResponse] at he
  cases hchoices : choicesOf result.response with
  | error e' =>
    rw [hchoices] at he
    cases he
    exact not_keyError_choicesOf _ _ hchoices
  | ok choices =>
    have hid : ∀ s, ∃ j s', newId.run h s = (.ok j, s') ∧ j.str?.isSome = true :=
      fun s ↦ ⟨_, _, rfl, rfl⟩
    have hcreated : ∀ s, ∃ j s', newCreated.run h s = (.ok j, s') ∧ (laxInt j).isSome = true :=
      fun s ↦ ⟨_, _, rfl, rfl⟩
    obtain ⟨id, s₁, hrun₁, -⟩ := run_presentOr h hid (result.response.bind (·.get? "id")) s
    obtain ⟨created, s₂, hrun₂, -⟩ :=
      run_presentOr h hcreated (result.response.bind (·.get? "created")) s₁
    rw [hchoices, ofExcept_ok, done_bind, run_bind_ok h hrun₁, run_bind_ok h hrun₂, run_ofExcept] at he
    exact not_keyError_build _ _ _ _ _ _ _ he

end Raised

theorem served_final {visits : List Visit} {result : ProviderResult} (h : served visits = some result) :
    isFinal result = true ∧ result ∈ calls visits := by
  obtain ⟨visit, hlast, hvisit⟩ := Option.bind_eq_some_iff.mp h
  obtain ⟨hresult, hfinal⟩ := Option.filter_eq_some_iff.mp hvisit
  exact ⟨hfinal, List.mem_filterMap.mpr ⟨visit, List.mem_of_getLast? hlast, hresult⟩⟩

theorem exists_body {status k : ℤ} {body : Json} :
    (∃ b, (Except.ok (status, body) : Except Exn (ℤ × Json)) = .ok (k, b)) ↔ status = k := by
  constructor
  · rintro ⟨b, hb⟩
    cases hb
    rfl
  · rintro rfl
    exact ⟨body, rfl⟩

section Answered

variable {visits : List Visit} {result : ProviderResult}

theorem answered_ok {ended : Except Exn (ℤ × Json)} (hserved : served visits = some result)
    (hisOk : result.outcome.isOk = true)
    (hok : renderable result = true → ∃ body, ended = .ok (200, body))
    (hraised : renderable result = false →
      ∃ e, ended = .error e ∧ e.isInstance "KeyError" = false) : Answered visits ended := by
  have hmem := (served_final hserved).2
  have htrip := Outcome.trippable_of_isOk hisOk
  have hcaller : result.outcome.callerFault = false := by simp [Outcome.callerFault_eq, hisOk]
  have hnot : ¬ ∀ result ∈ calls visits, result.outcome.trippable = true := by
    intro hall
    rw [hall result hmem] at htrip
    cases htrip
  have hne : calls visits ≠ [] := List.ne_nil_of_mem hmem
  cases hrender : renderable result with
  | true =>
    obtain ⟨body, rfl⟩ := hok hrender
    refine ⟨?_, ?_, fun status hstatus ↦ ?_, ?_, fun e he ↦ by cases he⟩
    · simp [hserved, hisOk, hrender]
    · simp [hserved, hcaller]
    · rw [exists_body]
      refine iff_of_false (by omega) (fun h ↦ hnot h.1)
    · simp [hne]
  | false =>
    obtain ⟨e, rfl, he⟩ := hraised hrender
    refine ⟨?_, ?_, fun status hstatus ↦ ?_, ?_, fun e' he' ↦ ?_⟩
    · simp [hserved, hrender]
    · simp [hserved, hcaller]
    · exact iff_of_false (by simp) (fun h ↦ hnot h.1)
    · simp [hne]
    · cases he'
      exact ⟨he, result, hserved, hisOk, hrender⟩

theorem answered_fault (hserved : served visits = some result) (hisOk : result.outcome.isOk = false)
    (body : Json) : Answered visits (.ok (400, body)) := by
  obtain ⟨hfinal, hmem⟩ := served_final hserved
  have htrip : result.outcome.trippable = false := by
    rcases isFinal_eq_true.mp hfinal with h | h
    · rw [hisOk] at h
      cases h
    · exact h
  refine ⟨?_, ?_, fun status hstatus ↦ ?_, ?_, fun e he ↦ by cases he⟩
  · simp [hserved, hisOk]
  · simp [hserved, Outcome.callerFault_eq, hisOk, htrip]
  · rw [exists_body]
    refine iff_of_false (by omega) (fun h ↦ ?_)
    rw [h.1 result hmem] at htrip
    cases htrip
  · simp [List.ne_nil_of_mem hmem]

theorem answered_unavailable (hserved : served visits = none) (hcalls : calls visits = [])
    (body : Json) : Answered visits (.ok (503, body)) := by
  refine ⟨?_, ?_, fun status hstatus ↦ ?_, ?_, fun e he ↦ by cases he⟩
  · simp [hserved]
  · simp [hserved]
  · rw [exists_body]
    exact iff_of_false (by omega) (by simp [hcalls])
  · simp [hcalls]

theorem answered_failed {status : ℤ} (hserved : served visits = none)
    (hall : ∀ result ∈ calls visits, result.outcome.trippable = true)
    (hlast : (calls visits).getLast? = some result) (hstatus : statusOf result.outcome = .ok status)
    (body : Json) : Answered visits (.ok (status, body)) := by
  have hmem := List.mem_of_getLast? hlast
  have htable : statusByOutcome result.outcome = some status := by
    rw [statusOf] at hstatus
    split at hstatus
    · next h =>
      cases hstatus
      exact h
    · cases hstatus
  obtain ⟨status', hok, hcases⟩ := statusOf_of_trippable (hall result hmem)
  obtain rfl : status' = status := Except.ok.inj (hok.symm.trans hstatus)
  refine ⟨?_, ?_, fun status hstatus ↦ ?_, ?_, fun e he ↦ by cases he⟩
  · rw [exists_body]
    exact iff_of_false (by omega) (by simp [hserved])
  · rw [exists_body]
    exact iff_of_false (by omega) (by simp [hserved])
  · rw [exists_body, and_iff_right hall]
    simp [hlast, htable]
  · rw [exists_body]
    exact iff_of_false (by omega) (List.ne_nil_of_mem hmem)

end Answered

section Walks

variable {env : Environ} {config : GatewayConfig} {r : ChatRequest} {ladder : List String}
  {schedule : RaceSchedule} {σ : Type} {h : Handler Cmd Reply σ} {s : σ}

theorem answered_answer {visits : List Visit} {facts : List Fact} {ended : Option ProviderResult}
    (hwalked : Walked 0 ladder facts ended) (htraversed : Traversed 0 ladder visits facts ended)
    (s : σ) : Answered visits ((answer r ⟨ended, trailOf facts⟩).run h s).1 := by
  have hserved := htraversed.ends.symm
  cases ended with
  | none =>
    simp only [answer]
    rw [exhaustedStatus_trailOf, htraversed.results]
    have hall : ∀ result ∈ calls visits, result.outcome.trippable = true := by
      intro result hmem
      rw [← htraversed.results] at hmem
      obtain ⟨i, provider, hmem⟩ := mem_results.mp hmem
      exact isFinal_eq_false.mp (hwalked.failed_of_none rfl _ hmem)
    cases hlast : (calls visits).getLast? with
    | none => exact answered_unavailable hserved (List.getLast?_eq_none_iff.mp hlast) _
    | some last =>
      obtain ⟨status, hstatus, -⟩ := statusOf_of_trippable (hall last (List.mem_of_getLast? hlast))
      simp only [hstatus]
      exact answered_failed hserved hall hlast hstatus _
  | some result =>
    simp only [answer]
    split
    · next hisOk =>
      have hrender := isOk_toOpenaiResponse h result r.metadata (trailOf facts) s
      have hraised := not_keyError_toOpenaiResponse h result r.metadata (trailOf facts) s
      rcases hrun : (toOpenaiResponse result r.metadata (trailOf facts)).run h s with ⟨e | response, s'⟩
      · rw [hrun] at hrender hraised
        rw [run_bind_error h hrun]
        exact answered_ok hserved hisOk (fun h ↦ by rw [← hrender] at h; cases h)
          (fun _ ↦ ⟨e, rfl, hraised e rfl⟩)
      · rw [hrun] at hrender
        rw [run_bind_ok h hrun]
        exact answered_ok hserved hisOk (fun _ ↦ ⟨_, rfl⟩) (fun h ↦ by rw [← hrender] at h; cases h)
    · next hisOk =>
      rw [Bool.not_eq_true] at hisOk
      have hstatus : statusOf result.outcome = .ok 400 := by
        have hfinal := (served_final hserved).1
        cases houtcome : result.outcome
        all_goals
          rw [isFinal, houtcome] at hfinal
          rw [houtcome] at hisOk
          first
          | rfl
          | exact absurd hfinal (by decide)
          | exact absurd hisOk (by decide)
      rw [hstatus]
      exact answered_fault hserved hisOk _

/-- A request that walks its ladder ends as the walk's answer does. -/
theorem run_serve {routed : RouteOutcome} {s' : σ} (hdefers : defers config r = .ok false)
    (hladder : resolveLadder env config r.metadata.requestClass r.provider = .ok ladder)
    (hrun : (route env config r.metadata r.body.toProviderKwargs ladder schedule).run h s =
      (.ok routed, s')) :
    (serve env config schedule r).run h s = (answer r routed).run h s' := by
  simp only [serve, hdefers, hladder, ofExcept_ok, done_bind]
  exact run_bind_ok h hrun

/-- A class without hedging walks its ladder in order, up to the first answer that ends the
walk, and the caller is told how. -/
theorem plainWalk_answered {c : ClassConfig}
    (hclass : config.classes.lookup r.metadata.requestClass = some c) (hplain : hedges c = false)
    (hresponded : ∀ e ∈ (Itinerary.route (hedges c) ladder).trace
      (h.through (unit env config r.metadata r.body.toProviderKwargs ladder schedule)) s, responded e) :
    ∃ visits routed s',
      (route env config r.metadata r.body.toProviderKwargs ladder schedule).run h s = (.ok routed, s') ∧
      routed.attempts = List.zipWith Visit.log ladder visits ∧
      Traversed 0 ladder visits
        (journal env config r.metadata r.body.toProviderKwargs ladder schedule c h s) routed.result ∧
      (defers config r = .ok false →
        resolveLadder env config r.metadata.requestClass r.provider = .ok ladder →
        Answered visits ((serve env config schedule r).run h s).1) := by
  have hended : (((route env config r.metadata r.body.toProviderKwargs ladder schedule).run h s).1).isOk =
      true := by
    rw [← expand_route c hclass, run_expand]
    rw [hplain] at hresponded ⊢
    exact leads_walk 0 ladder [] hresponded
  obtain ⟨routed, s', hrun⟩ := exists_run_of_isOk h hended
  have hrouted := routed_run hclass hrun
  rw [hplain] at hrouted
  cases hrouted with
  | plain hwalked =>
    obtain ⟨visits, htraversed⟩ := hwalked.traversed
    refine ⟨visits, _, s', hrun, htraversed.trail, htraversed, fun hdefers hladder ↦ ?_⟩
    rw [run_serve hdefers hladder hrun]
    exact answered_answer hwalked htraversed s'

end Walks

def greeting : ChatRequest where
  body := .ofText "hello"
  metadata := chat

theorem chatLadder_ne_nil : ["anthropic", "openai", "groq", "ollama"] ≠ [] := List.cons_ne_nil _ _

def chatClass : ClassConfig where
  ladder := ["anthropic", "openai", "groq", "ollama"]
  ladder_ne_nil := chatLadder_ne_nil

/-- Every rung times out. -/
theorem plainWalk_answered_timingOut :
    ∃ visits routed s',
      (route (fun _ ↦ some "key") .shipped chat greeting.body.toProviderKwargs chatClass.ladder
        ⟨0, [], 0⟩).run timingOut (fun _ ↦ none) = (.ok routed, s') ∧
      routed.attempts = List.zipWith Visit.log chatClass.ladder visits ∧
      Answered visits
        ((serve (fun _ ↦ some "key") .shipped ⟨0, [], 0⟩ greeting).run timingOut (fun _ ↦ none)).1 := by
  have hresponded : ∀ e ∈ (Itinerary.route (hedges chatClass) chatClass.ladder).trace
      (timingOut.through (unit (fun _ ↦ some "key") .shipped greeting.metadata
        greeting.body.toProviderKwargs chatClass.ladder ⟨0, [], 0⟩)) (fun _ ↦ none), responded e := by
    decide +kernel
  obtain ⟨visits, routed, s', hrun, htrail, -, hanswered⟩ := plainWalk_answered rfl rfl hresponded
  exact ⟨visits, routed, s', hrun, htrail, hanswered rfl (by decide +kernel)⟩

/-- A provider whose answer has a role no response may have. -/
def unfit : Handler Cmd Reply Redis.Db :=
  Outside.answers { now := 0, completion := fun _ ↦ .ok (.obj [("choices", .arr [
    .obj [("message", .obj [("role", .str "developer")])]])]) }

/-- The walk ends with a success, and the caller gets no 200. -/
theorem unfit_not_answered :
    (((route (fun _ ↦ some "key") .shipped chat greeting.body.toProviderKwargs chatClass.ladder
        ⟨0, [], 0⟩).run unfit (fun _ ↦ none)).1.toOption.bind RouteOutcome.result).map
          (fun result ↦ result.outcome.isOk) = some true ∧
      ¬ ∃ body, ((serve (fun _ ↦ some "key") .shipped ⟨0, [], 0⟩ greeting).run unfit
        (fun _ ↦ none)).1 = .ok (200, body) := by
  refine ⟨by decide +kernel, ?_⟩
  rintro ⟨body, hbody⟩
  have hraised : ((serve (fun _ ↦ some "key") .shipped ⟨0, [], 0⟩ greeting).run unfit
      (fun _ ↦ none)).1.isOk = false := by decide +kernel
  rw [hbody] at hraised
  cases hraised

end HealingGateway.Main
