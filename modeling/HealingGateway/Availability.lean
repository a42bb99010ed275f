import HealingGateway.Library.Shares
import HealingGateway.Metrics
import HealingGateway.Traffic
import Mathlib.Algebra.BigOperators.Ring.Finset

namespace HealingGateway.Metrics

open Collectors Numerals

abbrev Responses := Counter (String × String)

def responseSamples : Metric → List (Sample (String × String) ℚ)
  | .response route status => [((route, status), 1)]
  | _ => []

theorem responses_registry {reg : Registry} {metrics : List Metric} (h : registry metrics = some reg) :
    reg.responses = noteAll 0 plus [] (metrics.flatMap responseSamples) := by
  have hcollect : ∀ m (a a' : Registry), collect m a = some a' →
      a'.responses = noteAll 0 plus a.responses (responseSamples m) := by
    intro m a a' hm
    cases m with
    | observe result metadata =>
      obtain ⟨-, rfl⟩ := observe_eq_some.mp hm
      rfl
    | _ =>
      cases hm
      rfl
  exact series_collectAll hcollect h

def chatRoute : String := "/v1/chat/completions"

/-- `status=~"5.."`. -/
def errored (status : String) : Bool :=
  match status.toList with
  | ['5', _, _] => true
  | _ => false

theorem errored_intString (n : ℤ) : errored (intString n) = true ↔ 500 ≤ n ∧ n < 600 := by
  constructor
  · intro h
    unfold errored at h
    split at h
    · next a b hchars =>
      rw [intString, String.toList_ofList, intText] at hchars
      have hpos : ¬ n < 0 := by
        intro hneg
        rw [signText, if_pos hneg] at hchars
        cases hchars
      rw [signText, if_neg hpos, List.nil_append] at hchars
      have hdigit : ∀ c ∈ [a, b], c.toNat - '0'.toNat ≤ 9 := by
        intro c hc
        have hc' : c.isDigit = true := natText_isDigit (hchars ▸ List.mem_cons_of_mem _ hc)
        rw [Char.isDigit_iff_toNat] at hc'
        have hzero : '0'.toNat = 48 := rfl
        have hnine : '9'.toNat = 57 := rfl
        omega
      have ha := hdigit a (by simp)
      have hb := hdigit b (by simp)
      have hread := ofDigitChars_natText n.natAbs
      rw [hchars] at hread
      simp only [Nat.ofDigitChars_cons, Nat.ofDigitChars_nil] at hread
      have hfive : '5'.toNat - '0'.toNat = 5 := rfl
      omega
    · cases h
  · rintro ⟨hlow, hhigh⟩
    obtain ⟨k, rfl⟩ : ∃ k : ℕ, n = 500 + k := ⟨(n - 500).toNat, by omega⟩
    have hall : ∀ k < 100, errored (intString (500 + (k : ℕ))) = true := by decide +kernel
    exact hall k (by omega)

def sumOf (p : String × String → Bool) (c : Responses) : Option ℚ :=
  if c.any (fun s ↦ p s.1) then some (total p id c) else none

def delta (p : String × String → Bool) (before now : Responses) : ℚ :=
  match sumOf p now with
  | none => 0
  | some n => n - (sumOf p before).getD 0

def isServed (l : String × String) : Bool := l.1 = chatRoute

def isErrored (l : String × String) : Bool := l.1 = chatRoute && errored l.2

/-- What `scripts/availability.py` makes of a window, if anything was served in it. -/
def availability (before now : Registry) : Option ℚ :=
  let all := delta isServed before.responses now.responses
  let failed := delta isErrored before.responses now.responses
  if all = 0 then none else some (1 - failed / all)

theorem total_of_notAny {p : String × String → Bool} {c : Responses} (h : ¬ c.any (fun s ↦ p s.1) = true) :
    total p id c = 0 := by
  have hnone : c.filter (fun s ↦ p s.1) = [] := by simpa using h
  rw [total, hnone]
  rfl

theorem delta_eq (p : String × String → Bool) {before now : Responses}
    (hgrown : ∀ l ∈ before.map Prod.fst, l ∈ now.map Prod.fst) :
    delta p before now = total p id now - total p id before := by
  have hbefore : (sumOf p before).getD 0 = total p id before := by
    unfold sumOf
    split
    · rfl
    · next h => rw [total_of_notAny h]; rfl
  by_cases hany : now.any (fun s ↦ p s.1) = true
  · rw [delta, hbefore, sumOf, if_pos hany]
  · have hnone : ¬ before.any (fun s ↦ p s.1) = true := by
      intro hbefore
      obtain ⟨s, hs, hp⟩ := List.any_eq_true.mp hbefore
      obtain ⟨s', hs', hl⟩ := List.mem_map.mp (hgrown s.1 (List.mem_map_of_mem hs))
      exact hany (List.any_eq_true.mpr ⟨s', hs', by rwa [hl]⟩)
    rw [delta, sumOf, if_neg hany, total_of_notAny hany, total_of_notAny hnone, sub_zero]

end HealingGateway.Metrics

namespace HealingGateway.Service

open Programs Programs.Prog Collectors Metrics Main

/-- The processes of the gateway. Each has a registry of its own. -/
inductive Process
  | api | worker
  deriving DecidableEq

def Task.process : Task → Process
  | .worker _ => .worker
  | _ => .api

def update? : Cmd → Option Metric
  | .metric m => some m
  | _ => none

section Updates

variable {ι : Type} (tasks : ι → Task)

def updates (process : Process) (deeds : List (Deed ι)) : List Metric :=
  deeds.filterMap (fun a ↦ if (tasks a.thread).process = process then update? a.cmd else none)

end Updates

def answersCounted : Tariff Cmd Reply (Multiset (String × String)) where
  possible := fun _ _ ↦ True
  cost := fun _ c _ ↦
    match c with
    | .metric (.response route status) => {(route, status)}
    | _ => 0

def Task.Counts : Task → Multiset (String × String) → Except Exn (Option Response) → Prop
  | .request q, m, .ok (some response) =>
    m = {(q.route.path, Numerals.intString response.status)} ∨ (m = 0 ∧ response = internalServerError)
  | _, m, _ => m = 0

section Counting

variable {env : Environ} {config : GatewayConfig} {encoders : Encoders}

theorem cost_uncounted {c : Cmd} (h : c.counts = false) (g : Bool) (r : Reply c) :
    answersCounted.cost g c r = 0 := by
  cases c with
  | metric m => cases m <;> first | rfl | cases h
  | _ => rfl

theorem obeys_uncounted {α : Type} {p : Gateway α} (hp : p.Only (fun c ↦ c.counts = false)) :
    p.Obeys (answersCounted.tallying (· = 0)) 0 (fun m _ ↦ m = 0) := by
  refine hp.obeys_unseen (fun c hc ↦ ⟨rfl, fun g r ↦ ?_⟩)
  rw [Tariff.tallying_watch, cost_uncounted hc, add_zero]

theorem Task.obeys_body (task : Task) :
    (task.body env config encoders).Obeys (answersCounted.tallying (· = 0)) 0 task.Counts := by
  have hquiet : ∀ {task : Task}, ¬ (task.warrant env config).answers →
      (task.body env config encoders).Only (fun c ↦ c.counts = false) :=
    fun h ↦ (Task.within_body env config encoders _).mono (fun _ ↦ Issues.uncounted h)
  cases task with
  | lifespan => exact obeys_uncounted (hquiet id)
  | worker schedules => exact obeys_uncounted (hquiet id)
  | request q =>
    rw [Task.body, obeys_bind, answerTo, serverErrors, obeys_tryExcept, countResponses, obeys_bind]
    have hnext : (callNext (q.endpoint env config encoders).handle).Only (fun c ↦ c.counts = false) :=
      only_callNext
    refine (obeys_uncounted hnext).mono ?_
    rintro _ (e | response) rfl
    · dsimp only
      split
      · exact .inr ⟨rfl, rfl⟩
      · rfl
    · exact ⟨rfl, fun _ _ ↦ .inl (zero_add _)⟩

end Counting

section Figures

variable (env : Environ) (config : GatewayConfig) (encoders : Encoders) {ι : Type} [DecidableEq ι]
  (tasks : ι → Task)

def told (turns : List (ι × (Outside × Fate))) (i : ι) : Option Response :=
  match (after env config encoders tasks turns).rest i with
  | .done told => told
  | _ => none

def Task.chats : Task → Bool
  | .request ⟨.chat .., _⟩ => true
  | _ => false

/-- The callers of a chat who are told something in a window. -/
def served [Fintype ι] (earlier window : List (ι × (Outside × Fate))) : Finset ι :=
  Finset.univ.filter (fun i ↦ (tasks i).chats && (told env config encoders tasks earlier i).isNone &&
    (told env config encoders tasks (earlier ++ window) i).isSome)

/-- Those of them who are told of an error of the service. -/
def failed [Fintype ι] (earlier window : List (ι × (Outside × Fate))) : Finset ι :=
  (served env config encoders tasks earlier window).filter (fun i ↦
    (told env config encoders tasks (earlier ++ window) i).any (fun response ↦
      500 ≤ response.status ∧ response.status < 600))

variable {env config encoders tasks}

def countedBy (deeds : List (Deed ι)) (i : ι) : Multiset (String × String) :=
  answersCounted.total (Pool.share i deeds)

variable {turns : List (ι × (Outside × Fate))} {i : ι}

theorem countedBy_of_rest :
    (((after env config encoders tasks turns).rest i).ended? = none →
      countedBy (deeds env config encoders tasks turns) i = 0) ∧
    ∀ ended, ((after env config encoders tasks turns).rest i).ended? = some ended →
      (tasks i).Counts (countedBy (deeds env config encoders tasks turns) i) ended := by
  have hobeys : ((after env config encoders tasks turns).rest i).Obeys (answersCounted.tallying (· = 0))
      ((answersCounted.tallying (· = 0)).after 0 (Pool.share i (deeds env config encoders tasks turns)))
      (tasks i).Counts := Pool.obeys_rest (tasks i).obeys_body (fun _ _ _ ↦ trivial) turns
  rw [Tariff.after_tallying, zero_add] at hobeys
  exact ⟨fun h ↦ hobeys.kept h, fun ended h ↦ hobeys.ended h⟩

theorem path_eq_chatRoute {q : Request} : q.route.path = chatRoute ↔ (Task.request q).chats = true := by
  obtain ⟨route, headers⟩ := q
  cases route with
  | chat => exact iff_of_true rfl rfl
  | _ => exact iff_of_false (by simp [Route.path, chatRoute]) (by simp [Task.chats])

theorem countP_countedBy {p : String × String → Bool} (hp : ∀ l, p l = true → l.1 = chatRoute)
    (hinternal : ∀ response, (tasks i).chats = true → told env config encoders tasks turns i = some response →
      response.status ≠ 500) :
    (countedBy (deeds env config encoders tasks turns) i).countP (p ·) =
      if (tasks i).chats && (told env config encoders tasks turns i).any
        (fun response ↦ p (chatRoute, Numerals.intString response.status)) then 1 else 0 := by
  obtain ⟨hrunning, hended⟩ := @countedBy_of_rest env config encoders ι _ tasks turns i
  unfold told at hinternal ⊢
  cases hrest : (after env config encoders tasks turns).rest i with
  | call g c k =>
    rw [hrest] at hrunning
    simp [hrunning rfl]
  | throw e =>
    rw [hrest] at hended
    have hnone : countedBy (deeds env config encoders tasks turns) i = 0 := by
      have hcounts := hended _ rfl
      cases htask : tasks i <;> rw [htask] at hcounts <;> exact hcounts
    simp [hnone]
  | done answer =>
    rw [hrest] at hended hinternal
    have hcounts := hended _ rfl
    cases htask : tasks i with
    | lifespan | worker =>
      rw [htask] at hcounts
      simp [show countedBy (deeds env config encoders tasks turns) i = 0 from hcounts, Task.chats]
    | request q =>
      rw [htask] at hcounts hinternal
      cases answer with
      | none => simp [show countedBy (deeds env config encoders tasks turns) i = 0 from hcounts]
      | some response =>
        cases hchats : (Task.request q).chats with
        | true =>
          obtain hcounted | ⟨-, rfl⟩ := hcounts
          · rw [hcounted, path_eq_chatRoute.mpr hchats, ← Multiset.cons_zero, Multiset.countP_cons,
              Multiset.countP_zero, zero_add]
            rfl
          · exact absurd rfl (hinternal internalServerError hchats rfl)
        | false =>
          have hpath : ∀ status, ¬ p (q.route.path, status) = true := fun status h ↦ by
            rw [path_eq_chatRoute.mp (hp _ h)] at hchats
            cases hchats
          obtain hcounted | ⟨hnone, -⟩ := hcounts
          · rw [hcounted, ← Multiset.cons_zero, Multiset.countP_cons, if_neg (hpath _)]
            rfl
          · simp [hnone]

section Weights

variable (p : String × String → Bool)

def weightOf (e : Event Cmd Reply) : ℚ := ((answersCounted.cost e.guarded e.cmd e.reply).countP (p ·) : ℕ)

theorem countP_total (events : List (Event Cmd Reply)) :
    (((answersCounted.total events).countP (p ·) : ℕ) : ℚ) = (events.map (weightOf p)).sum := by
  induction events with
  | nil => simp
  | cons e events ih =>
    rw [Tariff.total_cons, Multiset.countP_add, Nat.cast_add, ih, List.map_cons, List.sum_cons, weightOf]

theorem weightOf_uncounted {e : Event Cmd Reply} (h : e.cmd.counts = false) : weightOf p e = 0 := by
  rw [weightOf, cost_uncounted h, Multiset.countP_zero, Nat.cast_zero]

theorem sum_samples (e : Event Cmd Reply) :
    (((update? e.cmd).toList.flatMap responseSamples).map (fun x ↦ if p x.1 then x.2 else 0)).sum =
      weightOf p e := by
  obtain ⟨g, c, r⟩ := e
  cases hcounts : c.counts with
  | false =>
    rw [weightOf_uncounted p hcounts]
    cases c with
    | metric m => cases m <;> first | rfl | cases hcounts
    | _ => rfl
  | true =>
    cases c with
    | metric m =>
      cases m with
      | response route status =>
        have hcost : answersCounted.cost g (.metric (.response route status)) r = {(route, status)} := rfl
        rw [weightOf, hcost, ← Multiset.cons_zero, Multiset.countP_cons]
        cases hp : p (route, status) <;> simp [update?, responseSamples, hp]
      | _ => cases hcounts
    | _ => cases hcounts

end Weights

theorem total_responses [Fintype ι] {reg : Registry}
    (h : registry (updates tasks .api (deeds env config encoders tasks turns)) = some reg)
    (p : String × String → Bool) :
    total p id reg.responses =
      ∑ i, ((countedBy (deeds env config encoders tasks turns) i).countP (p ·) : ℚ) := by
  have hdeeds : ∀ a ∈ deeds env config encoders tasks turns,
      (((if (tasks a.thread).process = .api then update? a.cmd else none).toList.flatMap
        responseSamples).map (fun x ↦ if p x.1 then x.2 else 0)).sum = weightOf p a.event := by
    intro a ha
    split
    · exact sum_samples p a.event
    · next hprocess =>
      have hquiet : ¬ ((tasks a.thread).warrant env config).answers := by
        cases htask : tasks a.thread with
        | worker => exact id
        | _ => exact absurd (by rw [htask]; rfl) hprocess
      have hcounts : a.event.cmd.counts = false :=
        (within_deeds env config encoders tasks turns a ha).uncounted hquiet
      rw [weightOf_uncounted p hcounts]
      rfl
  have hshares : ∀ i, (((countedBy (deeds env config encoders tasks turns) i).countP (p ·) : ℕ) : ℚ) =
      ((Pool.share i (deeds env config encoders tasks turns)).map (weightOf p)).sum :=
    fun i ↦ countP_total p _
  rw [responses_registry h, weighs_plus.total_noteAll, Finset.sum_congr rfl (fun i _ ↦ hshares i),
    ← Pool.sum_acts (fun _ ↦ weightOf p), ← congrArg List.sum (List.map_congr_left hdeeds), ← sum_flatMap, updates,
    flatMap_filterMap]
  exact zero_add _

variable {earlier window : List (ι × (Outside × Fate))} {before now : Registry}

theorem responses_grown
    (hbefore : registry (updates tasks .api (deeds env config encoders tasks earlier)) = some before)
    (hnow : registry (updates tasks .api (deeds env config encoders tasks (earlier ++ window))) = some now) :
    ∀ l ∈ before.responses.map Prod.fst, l ∈ now.responses.map Prod.fst := by
  intro l hl
  have hdeeds : deeds env config encoders tasks (earlier ++ window) = deeds env config encoders tasks earlier ++
      (after env config encoders tasks earlier).acts unwatched meets window := Pool.acts_append earlier window
  have hsplit : now.responses = noteAll 0 plus before.responses
      ((updates tasks .api ((after env config encoders tasks earlier).acts unwatched meets window)).flatMap
        responseSamples) := by
    rw [responses_registry hnow, responses_registry hbefore, hdeeds, updates, List.filterMap_append,
      List.flatMap_append, noteAll, List.foldl_append]
    rfl
  rw [hsplit]
  exact keys_noteAll _ _ l hl

theorem told_append {response : Response} (h : told env config encoders tasks earlier i = some response) :
    told env config encoders tasks (earlier ++ window) i = some response := by
  have hrest : (after env config encoders tasks earlier).rest i = ofExcept (.ok (some response)) := by
    unfold told at h
    split at h
    · next answer hanswer =>
      rw [hanswer, h]
      rfl
    · cases h
  have hafter : (after env config encoders tasks (earlier ++ window)).rest i = ofExcept (.ok (some response)) := by
    rw [after, Pool.run_append]
    exact Pool.rest_run_of_ended hrest window
  rw [told, hafter]
  rfl

/-- As long as no chat is answered with an internal error, the growth of the counter is the number
of those told so in the window. -/
theorem delta_told [Fintype ι]
    (hbefore : registry (updates tasks .api (deeds env config encoders tasks earlier)) = some before)
    (hnow : registry (updates tasks .api (deeds env config encoders tasks (earlier ++ window))) = some now)
    (hinternal : ∀ i response, (tasks i).chats = true →
      told env config encoders tasks (earlier ++ window) i = some response → response.status ≠ 500)
    {p : String × String → Bool} (hp : ∀ l, p l = true → l.1 = chatRoute) :
    delta p before.responses now.responses =
      (((served env config encoders tasks earlier window).filter (fun i ↦
        (told env config encoders tasks (earlier ++ window) i).any (fun response ↦
          p (chatRoute, Numerals.intString response.status)))).card : ℚ) := by
  have hinternal' : ∀ i response, (tasks i).chats = true →
      told env config encoders tasks earlier i = some response → response.status ≠ 500 :=
    fun i response hchats h ↦ hinternal i response hchats (told_append h)
  rw [delta_eq p (responses_grown hbefore hnow), total_responses hbefore, total_responses hnow,
    ← Finset.sum_sub_distrib, served, Finset.filter_filter, ← Finset.sum_boole]
  refine Finset.sum_congr rfl (fun i _ ↦ ?_)
  rw [countP_countedBy hp (hinternal i), countP_countedBy hp (hinternal' i)]
  cases hearlier : told env config encoders tasks earlier i with
  | none => cases (tasks i).chats <;> cases told env config encoders tasks (earlier ++ window) i <;> simp
  | some response => simp [told_append hearlier]

/-- As long as no chat is answered with an internal error, the figure is the share of those told
something in the window whom the service did not fail. -/
theorem availability_exact [Fintype ι]
    (hbefore : registry (updates tasks .api (deeds env config encoders tasks earlier)) = some before)
    (hnow : registry (updates tasks .api (deeds env config encoders tasks (earlier ++ window))) = some now)
    (hinternal : ∀ i response, (tasks i).chats = true →
      told env config encoders tasks (earlier ++ window) i = some response → response.status ≠ 500) :
    availability before now =
      if (served env config encoders tasks earlier window).card = 0 then none
      else some (1 - ((failed env config encoders tasks earlier window).card : ℚ) /
        (served env config encoders tasks earlier window).card) := by
  have hall : delta isServed before.responses now.responses =
      ((served env config encoders tasks earlier window).card : ℚ) := by
    rw [delta_told hbefore hnow hinternal (fun l h ↦ by simpa [isServed] using h), Finset.filter_true_of_mem]
    intro i hi
    have htold := (Finset.mem_filter.mp hi).2
    simp only [Bool.and_eq_true] at htold
    simpa [isServed] using htold.2
  have hfailed : delta isErrored before.responses now.responses =
      ((failed env config encoders tasks earlier window).card : ℚ) := by
    have hp : ∀ l : String × String, isErrored l = true → l.1 = chatRoute := fun l h ↦ by
      simp only [isErrored, Bool.and_eq_true, decide_eq_true_eq] at h
      exact h.1
    have hstatus : ∀ response : Response, isErrored (chatRoute, Numerals.intString response.status) =
        decide (500 ≤ response.status ∧ response.status < 600) := fun response ↦ by
      rw [Bool.eq_iff_iff, decide_eq_true_iff, ← errored_intString]
      simp [isErrored]
    rw [delta_told hbefore hnow hinternal hp]
    simp only [hstatus, failed]
  simp only [availability, hall, hfailed, Nat.cast_eq_zero]

end Figures

section Worlds

def monday : Bool → Task
  | true => .request ⟨.chat ⟨0, [], 0⟩ (.ofText "hello") none, callerHeaders "interactive.chat"⟩
  | false => .request ⟨.chat ⟨0, [], 0⟩ (.ofText "hello") (some "openai"), callerHeaders "interactive.chat"⟩

def mondayTurns : List (Bool × (Outside × Fate)) :=
  List.replicate 40 (true, { now := 0, completion := fun _ ↦ .ok reply }, .answered) ++
    List.replicate 5 (false, { now := 0 }, .answered)

/-- One of the two is failed. -/
theorem availability_exact_monday :
    ∃ before now, registry (updates monday .api (deeds (fun _ ↦ none) .shipped {} monday [])) = some before ∧
      registry (updates monday .api (deeds (fun _ ↦ none) .shipped {} monday mondayTurns)) = some now ∧
      availability before now = some (1 / 2) := by
  have hbillable : ∀ call ∈ calls (updates monday .api (deeds (fun _ ↦ none) .shipped {} monday mondayTurns)),
      call.1.Billable := by decide +kernel
  obtain ⟨now, hnow⟩ := exists_registry hbillable
  have hstatus : ∀ i, (told (fun _ ↦ none) .shipped {} monday mondayTurns i).all (·.status ≠ 500) = true := by
    decide +kernel
  refine ⟨{}, now, rfl, hnow, ?_⟩
  have htold : ∀ i response, (monday i).chats = true →
      told (fun _ ↦ none) .shipped {} monday ([] ++ mondayTurns) i = some response → response.status ≠ 500 := by
    intro i response _ h
    have hi := hstatus i
    rw [show told (fun _ ↦ none) .shipped {} monday mondayTurns i = some response from h] at hi
    simpa using hi
  have hfigure : availability {} now = _ := @availability_exact _ _ _ _ _ _ [] mondayTurns _ _ _ rfl hnow htold
  rw [hfigure, show (served (fun _ ↦ none) .shipped {} monday [] mondayTurns).card = 2 by decide +kernel,
    show (failed (fun _ ↦ none) .shipped {} monday [] mondayTurns).card = 1 by decide +kernel]
  norm_num

end Worlds

end HealingGateway.Service
