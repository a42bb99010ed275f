import HealingGateway.Library.Failures
import HealingGateway.Rungs

namespace HealingGateway.Router

open Programs Programs.Prog Numerals JsonText

/-- What a walk learns about the rung at one position: whether its circuit took traffic when
the rungs to race were looked for or when its turn came, how the race of two rungs came out,
what a call answered, that it was cancelled, or that it may have been under way when something
was raised. -/
inductive Fact
  | scanned (i : ℕ) (provider : String) (admits : Bool)
  | asked (i : ℕ) (provider : String) (admits : Bool) (reason : String)
  | raced (i j : ℕ) (raced : Raced)
  | answered (i : ℕ) (provider : String) (result : ProviderResult)
  | cancelled (i : ℕ) (provider : String)
  | lost (i : ℕ) (provider : String)

def Fact.log? : Fact → Option ProviderCallLog
  | asked _ provider false reason => some (skipped provider reason)
  | answered _ _ result => some (logged result)
  | _ => none

def trailOf (facts : List Fact) : List ProviderCallLog := facts.filterMap Fact.log?

section Trail

variable (i : ℕ) (provider : String) (facts : List Fact)

@[simp] theorem trailOf_nil : trailOf [] = [] := rfl

@[simp] theorem trailOf_append (facts' : List Fact) :
    trailOf (facts ++ facts') = trailOf facts ++ trailOf facts' := List.filterMap_append

@[simp] theorem trailOf_scanned (admits : Bool) :
    trailOf (.scanned i provider admits :: facts) = trailOf facts := rfl

@[simp] theorem trailOf_refused (reason : String) :
    trailOf (.asked i provider false reason :: facts) = skipped provider reason :: trailOf facts := rfl

@[simp] theorem trailOf_admitted (reason : String) :
    trailOf (.asked i provider true reason :: facts) = trailOf facts := rfl

@[simp] theorem trailOf_answered (result : ProviderResult) :
    trailOf (.answered i provider result :: facts) = logged result :: trailOf facts := rfl

@[simp] theorem trailOf_cancelled : trailOf (.cancelled i provider :: facts) = trailOf facts := rfl

@[simp] theorem trailOf_lost : trailOf (.lost i provider :: facts) = trailOf facts := rfl

@[simp] theorem trailOf_raced (j : ℕ) (raced : Raced) :
    trailOf (.raced i j raced :: facts) = trailOf facts := rfl

end Trail

def loserFact (i : ℕ) (provider : String) : Option ProviderResult → Fact
  | some result => .answered i provider result
  | none => .cancelled i provider

def Raced.facts (i : ℕ) (first : String) (j : ℕ) (second : String) : Raced → List Fact
  | alone result => [.raced i j (.alone result), .answered i first result]
  | settled true result loser =>
    [.raced i j (.settled true result loser), .answered j second result, loserFact i first loser]
  | settled false result loser =>
    [.raced i j (.settled false result loser), .answered i first result, loserFact j second loser]

def Move.facts : (m : Move) → m.Answer → List Fact
  | scan i provider, answer => [.scanned i provider answer.1]
  | allows i provider, answer => [.asked i provider answer.1 answer.2]
  | attempt i provider, result => [.answered i provider result]
  | race i first j second, raced => raced.facts i first j second
  | failover .., _ => []

def Move.lost : Move → List Fact
  | attempt i provider => [.lost i provider]
  | race i first j second => [.lost i first, .lost j second]
  | _ => []

def Move.Possible : (m : Move) → m.Answer → Prop
  | attempt _ provider, result => result.provider = provider
  | race _ first _ second, raced => raced.Fair first second
  | _, _ => True

/-- Keeping a journal of what a walk learns. -/
def journaling : Protocol Move (fun m ↦ Except Exn m.Answer) (List Fact) where
  possible := fun _ m answer ↦ ∀ a, answer = .ok a → m.Possible a
  watch := fun facts _ m answer ↦
    match answer with
    | .ok a => facts ++ m.facts a
    | .error _ => facts ++ m.lost

/-- The plain walk over the rungs from position `i` on. -/
inductive Walked : ℕ → List String → List Fact → Option ProviderResult → Prop
  | out (i : ℕ) : Walked i [] [] none
  | refused {i : ℕ} {provider : String} {rest : List String} {facts : List Fact}
      {result : Option ProviderResult} (reason : String) (h : Walked (i + 1) rest facts result) :
      Walked i (provider :: rest) (.asked i provider false reason :: facts) result
  | served {i : ℕ} {provider : String} {rest : List String} {result : ProviderResult}
      (reason : String) (hprovider : result.provider = provider) (hfinal : isFinal result = true) :
      Walked i (provider :: rest) [.asked i provider true reason, .answered i provider result]
        (some result)
  | failed {i : ℕ} {provider : String} {rest : List String} {facts : List Fact}
      {ended : Option ProviderResult} {result : ProviderResult} (reason : String)
      (hprovider : result.provider = provider) (hfailed : isFinal result = false)
      (h : Walked (i + 1) rest facts ended) :
      Walked i (provider :: rest)
        (.asked i provider true reason :: .answered i provider result :: facts) ended

/-- The search for the first rungs, at most so many, whose circuits take traffic. -/
inductive Scanned : ℕ → ℕ → List String → List Fact → List (ℕ × String) → Prop
  | enough (i : ℕ) (rungs : List String) : Scanned 0 i rungs [] []
  | out (limit i : ℕ) : Scanned (limit + 1) i [] [] []
  | passed {limit i : ℕ} {provider : String} {rest : List String} {facts : List Fact}
      {admitted : List (ℕ × String)} (h : Scanned (limit + 1) (i + 1) rest facts admitted) :
      Scanned (limit + 1) i (provider :: rest) (.scanned i provider false :: facts) admitted
  | picked {limit i : ℕ} {provider : String} {rest : List String} {facts : List Fact}
      {admitted : List (ℕ × String)} (h : Scanned limit (i + 1) rest facts admitted) :
      Scanned (limit + 1) i (provider :: rest) (.scanned i provider true :: facts)
        ((i, provider) :: admitted)

/-- A race of the rungs at two positions, what served if anything did, and where the walk goes
on if nothing did. -/
inductive Landed (i : ℕ) (first : String) (j : ℕ) (second : String) :
    List Fact → Option ProviderResult → ℕ → Prop
  | alone {result : ProviderResult} (hprovider : result.provider = first) (n : ℕ)
      (hfinal : isFinal result = true) :
      Landed i first j second [.raced i j (.alone result), .answered i first result] (some result) n
  | aloneFailed {result : ProviderResult} (hprovider : result.provider = first)
      (hfailed : isFinal result = false) :
      Landed i first j second [.raced i j (.alone result), .answered i first result] none (i + 1)
  | primary {result : ProviderResult} {loser : Option ProviderResult}
      (hprovider : result.provider = first) (hloser : ∀ l ∈ loser, l.provider = second) (n : ℕ)
      (hfinal : isFinal result = true) :
      Landed i first j second [.raced i j (.settled false result loser), .answered i first result,
        loserFact j second loser] (some result) n
  | hedge {result : ProviderResult} {loser : Option ProviderResult}
      (hprovider : result.provider = second) (hloser : ∀ l ∈ loser, l.provider = first) (n : ℕ)
      (hfinal : isFinal result = true) (hfailed : ∀ l ∈ loser, isFinal l = false) :
      Landed i first j second [.raced i j (.settled true result loser), .answered j second result,
        loserFact i first loser] (some result) n
  | primaryFailed {result loser : ProviderResult} (hprovider : result.provider = first)
      (hloser : loser.provider = second) (hfailed : isFinal result = false)
      (hfailed' : isFinal loser = false) :
      Landed i first j second [.raced i j (.settled false result (some loser)),
        .answered i first result, .answered j second loser] none (j + 1)
  | hedgeFailed {result loser : ProviderResult} (hprovider : result.provider = second)
      (hloser : loser.provider = first) (hfailed : isFinal result = false)
      (hfailed' : isFinal loser = false) :
      Landed i first j second [.raced i j (.settled true result (some loser)),
        .answered j second result, .answered i first loser] none (j + 1)

/-- A walk over a ladder: a plain one, one that found fewer than two rungs to race, one that
ended with the race, or one that went on after it. -/
inductive Routed (ladder : List String) : Bool → List Fact → RouteOutcome → Prop
  | plain {facts : List Fact} {result : Option ProviderResult}
      (h : Walked 0 ladder facts result) : Routed ladder false facts ⟨result, trailOf facts⟩
  | few {scan facts : List Fact} {admitted : List (ℕ × String)} {result : Option ProviderResult}
      (hscan : Scanned 2 0 ladder scan admitted) (hfew : admitted.length < 2)
      (h : Walked 0 ladder facts result) :
      Routed ladder true (scan ++ facts) ⟨result, trailOf (scan ++ facts)⟩
  | raced {scan facts : List Fact} {i j n : ℕ} {first second : String} {result : ProviderResult}
      (hscan : Scanned 2 0 ladder scan [(i, first), (j, second)])
      (hlanded : Landed i first j second facts (some result) n) :
      Routed ladder true (scan ++ facts) ⟨some result, trailOf (scan ++ facts)⟩
  | resumed {scan landed facts : List Fact} {i j n : ℕ} {first second : String}
      {result : Option ProviderResult} (hscan : Scanned 2 0 ladder scan [(i, first), (j, second)])
      (hlanded : Landed i first j second landed none n)
      (h : Walked n (ladder.drop n) facts result) :
      Routed ladder true (scan ++ landed ++ facts) ⟨result, trailOf (scan ++ landed ++ facts)⟩

theorem Routed.attempts {ladder : List String} {hedged : Bool} {facts : List Fact} {routed : RouteOutcome}
    (h : Routed ladder hedged facts routed) : routed.attempts = trailOf facts := by
  cases h <;> rfl

theorem Scanned.trail {limit i : ℕ} {rungs : List String} {facts : List Fact}
    {admitted : List (ℕ × String)} (h : Scanned limit i rungs facts admitted) : trailOf facts = [] := by
  induction h with
  | enough | out => rfl
  | passed _ ih => exact ih
  | picked _ ih => exact ih

theorem Scanned.length_le {limit i : ℕ} {rungs : List String} {facts : List Fact}
    {admitted : List (ℕ × String)} (h : Scanned limit i rungs facts admitted) :
    admitted.length ≤ limit := by
  induction h with
  | enough => rfl
  | out => exact Nat.zero_le _
  | passed _ ih => exact ih
  | picked _ ih => exact Nat.succ_le_succ ih

/-- The start of a hedged walk: too few rungs to race, or a race. -/
inductive Started (ladder : List String) : List Fact → RouteOutcome × ℕ → Prop
  | few {facts : List Fact} {admitted : List (ℕ × String)}
      (hscan : Scanned 2 0 ladder facts admitted) (hfew : admitted.length < 2) :
      Started ladder facts (⟨none, []⟩, 0)
  | raced {scan landed : List Fact} {i j n : ℕ} {first second : String} {raced : RouteOutcome × ℕ}
      (hscan : Scanned 2 0 ladder scan [(i, first), (j, second)])
      (hlanded : Landed i first j second landed raced.1.result n)
      (hattempts : raced.1.attempts = trailOf landed) (hn : raced.1.result = none → raced.2 = n) :
      Started ladder (scan ++ landed) raced

section Obeys

theorem obeys_perform {α : Type} {m : Move} {facts : List Fact} {f : m.Answer → Itinerary α}
    {P : List Fact → α → Prop}
    (h : ∀ a, m.Possible a → (f a).Obeys journaling (facts ++ m.facts a)
      (fun facts' ended ↦ ∀ b, ended = .ok b → P facts' b)) :
    (Plan.perform m >>= f).Obeys journaling facts
      (fun facts' ended ↦ ∀ b, ended = .ok b → P facts' b) :=
  obeys_perform_bind trivial (fun a ha ↦ h a (ha a rfl)) (fun e _ b hb ↦ by cases hb)

theorem obeys_walk (i : ℕ) (rest : List String) (attempts : List ProviderCallLog)
    (facts : List Fact) :
    (Itinerary.walk i rest attempts).Obeys journaling facts (fun facts' ended ↦
      ∀ routed, ended = .ok routed → ∃ more, facts' = facts ++ more ∧
        Walked i rest more routed.result ∧ routed.attempts = attempts ++ trailOf more) := by
  induction rest generalizing i attempts facts with
  | nil =>
    intro routed h
    cases h
    exact ⟨[], by simp, .out i, by simp⟩
  | cons provider rest ih =>
    apply obeys_perform
    rintro ⟨admits, reason⟩ -
    cases admits with
    | false =>
      apply (ih _ _ _).mono
      intro facts' ended h routed hrouted
      obtain ⟨more, rfl, hwalked, hattempts⟩ := h routed hrouted
      refine ⟨_, by simp [Move.facts], .refused reason hwalked, ?_⟩
      simpa using hattempts
    | true =>
      apply obeys_perform
      intro result hprovider
      split
      · next hfinal =>
        intro routed h
        cases h
        exact ⟨_, by simp [Move.facts], .served reason hprovider hfinal, by simp⟩
      · next hfailed =>
        apply obeys_perform
        intro _ _
        apply (ih _ _ _).mono
        intro facts' ended h routed hrouted
        obtain ⟨more, rfl, hwalked, hattempts⟩ := h routed hrouted
        refine ⟨_, by simp [Move.facts],
          .failed reason hprovider (Bool.not_eq_true _ ▸ hfailed) hwalked, ?_⟩
        simpa using hattempts

theorem obeys_admissible (limit i : ℕ) (rungs : List String) (facts : List Fact) :
    (Itinerary.admissible limit i rungs).Obeys journaling facts (fun facts' ended ↦
      ∀ admitted, ended = .ok admitted → ∃ more, facts' = facts ++ more ∧
        Scanned limit i rungs more admitted) := by
  induction rungs generalizing limit i facts with
  | nil =>
    cases limit with
    | zero =>
      intro admitted h
      cases h
      exact ⟨[], by simp, .enough _ _⟩
    | succ limit =>
      intro admitted h
      cases h
      exact ⟨[], by simp, .out _ _⟩
  | cons provider rest ih =>
    cases limit with
    | zero =>
      intro admitted h
      cases h
      exact ⟨[], by simp, .enough _ _⟩
    | succ limit =>
      apply obeys_perform
      rintro ⟨admits, reason⟩ -
      cases admits with
      | false =>
        apply (ih _ _ _).mono
        intro facts' ended h admitted hadmitted
        obtain ⟨more, rfl, hscanned⟩ := h admitted hadmitted
        exact ⟨_, by simp [Move.facts], .passed hscanned⟩
      | true =>
        refine Obeys.bind (ih limit (i + 1) _) ?_ ?_
        · intro facts' others h admitted hadmitted
          cases hadmitted
          obtain ⟨more, rfl, hscanned⟩ := h others rfl
          exact ⟨_, by simp [Move.facts], .picked hscanned⟩
        · intro facts' e _ admitted hadmitted
          cases hadmitted

theorem trailOf_loserFact (i : ℕ) (provider : String) (loser : Option ProviderResult) :
    trailOf [loserFact i provider loser] = loser.toList.map logged := by
  cases loser <;> rfl

theorem obeys_finish (i : ℕ) (provider : String) (result : ProviderResult)
    (others : List ProviderCallLog) (facts : List Fact) :
    (Itinerary.finish i provider result others).Obeys journaling facts (fun facts' ended ↦
      ∀ raced, ended = .ok raced → facts' = facts ∧ raced.1.attempts = logged result :: others ∧
        (isFinal result = true ∧ raced.1.result = some result ∨
          isFinal result = false ∧ raced.1.result = none ∧ raced.2 = i + 1)) := by
  unfold Itinerary.finish
  split
  · next hfinal =>
    intro raced h
    cases h
    exact ⟨rfl, rfl, .inl ⟨hfinal, rfl⟩⟩
  · next hfailed =>
    apply obeys_perform
    intro _ _ raced h
    cases h
    exact ⟨by simp [Move.facts], rfl, .inr ⟨Bool.not_eq_true _ ▸ hfailed, rfl, rfl⟩⟩

theorem obeys_land {i j : ℕ} {first second : String} {raced : Raced} (h : raced.Fair first second)
    (facts : List Fact) :
    (Itinerary.land i first j raced).Obeys journaling facts
      (fun facts' ended ↦ ∀ raced', ended = .ok raced' → facts' = facts ∧
        raced'.1.attempts = trailOf (raced.facts i first j second) ∧
        ∃ n, Landed i first j second (raced.facts i first j second) raced'.1.result n ∧
          (raced'.1.result = none → raced'.2 = n)) := by
  cases raced with
  | alone result =>
    apply (obeys_finish i first result [] facts).mono
    intro facts' ended h' raced' hended
    obtain ⟨rfl, hattempts, ⟨hfinal, hresult⟩ | ⟨hfailed, hresult, hn⟩⟩ := h' raced' hended
    · refine ⟨rfl, hattempts, 0, ?_, fun hnone ↦ ?_⟩
      · rw [hresult]
        exact .alone h 0 hfinal
      · rw [hresult] at hnone
        cases hnone
    · refine ⟨rfl, hattempts, i + 1, ?_, fun _ ↦ hn⟩
      rw [hresult]
      exact .aloneFailed h hfailed
  | settled won result loser =>
    obtain ⟨hprovider, hloser, hfail, hhedge⟩ := h
    apply (obeys_finish j result.provider result _ facts).mono
    intro facts' ended h' raced' hended
    obtain ⟨rfl, hattempts, hcases⟩ := h' raced' hended
    refine ⟨rfl, ?_, ?_⟩
    · cases won
      all_goals
        rw [hattempts, Raced.facts, trailOf_raced, trailOf_answered, trailOf_loserFact]
    · rcases hcases with ⟨hfinal, hresult⟩ | ⟨hfailed, hresult, hn⟩
      · rw [hresult]
        refine ⟨0, ?_, fun hnone ↦ by cases hnone⟩
        cases won with
        | true => exact .hedge hprovider hloser 0 hfinal (hhedge rfl)
        | false => exact .primary hprovider hloser 0 hfinal
      · obtain ⟨l, rfl, hl⟩ := hfail hfailed
        rw [hresult]
        refine ⟨j + 1, ?_, fun _ ↦ hn⟩
        cases won with
        | true => exact .hedgeFailed hprovider (hloser l rfl) hfailed hl
        | false => exact .primaryFailed hprovider (hloser l rfl) hfailed hl

theorem obeys_hedgedStart (ladder : List String) :
    (Itinerary.hedgedStart ladder).Obeys journaling [] (fun facts ended ↦
      ∀ raced, ended = .ok raced → Started ladder facts raced) := by
  refine Obeys.bind (obeys_admissible 2 0 ladder []) (fun scan admitted h ↦ ?_)
    (fun scan e _ raced h ↦ by cases h)
  obtain ⟨_, rfl, hscanned⟩ := h admitted rfl
  have hlength := hscanned.length_le
  rcases admitted with _ | ⟨⟨i, first⟩, _ | ⟨⟨j, second⟩, _ | ⟨third, others⟩⟩⟩
  · intro raced h
    cases h
    exact .few hscanned (by simp)
  · intro raced h
    cases h
    exact .few hscanned (by simp)
  · apply obeys_perform
    intro answer hfair
    apply (obeys_land hfair _).mono
    intro facts ended h raced hraced
    obtain ⟨rfl, hattempts, n, hlanded, hn⟩ := h raced hraced
    exact .raced hscanned hlanded hattempts hn
  · simp at hlength

theorem obeys_route (hedged : Bool) (ladder : List String) :
    (Itinerary.route hedged ladder).Obeys journaling [] (fun facts ended ↦
      ∀ routed, ended = .ok routed → Routed ladder hedged facts routed) := by
  cases hedged with
  | false =>
    apply (obeys_walk 0 ladder [] []).mono
    intro facts ended h routed hrouted
    obtain ⟨more, rfl, hwalked, hattempts⟩ := h routed hrouted
    have hplain := Routed.plain hwalked
    rw [List.nil_append] at hattempts
    rwa [← hattempts] at hplain
  | true =>
    refine Obeys.bind (obeys_hedgedStart ladder) (fun facts raced h ↦ ?_)
      (fun _ e _ routed h ↦ by cases h)
    cases h raced rfl with
    | @few facts admitted hscanned hfew =>
      apply (obeys_walk 0 ladder _ facts).mono
      intro facts' ended h routed hrouted
      obtain ⟨more, rfl, hwalked, hattempts⟩ := h routed hrouted
      have hroute := Routed.few hscanned hfew hwalked
      rw [trailOf_append, hscanned.trail] at hroute
      rwa [← hattempts] at hroute
    | @raced scan landed i j n first second _ hscanned hlanded hattempts hn =>
      obtain ⟨⟨result, attempts⟩, m⟩ := raced
      simp only at hlanded hattempts hn
      subst hattempts
      cases result with
      | some result =>
        intro routed h
        cases h
        have hroute := Routed.raced hscanned hlanded
        rwa [trailOf_append, hscanned.trail] at hroute
      | none =>
        obtain rfl := hn rfl
        apply (obeys_walk m (ladder.drop m) (trailOf landed) (scan ++ landed)).mono
        intro facts' ended h routed hrouted
        obtain ⟨more, rfl, hwalked, hattempts⟩ := h routed hrouted
        have hroute := Routed.resumed hscanned hlanded hwalked
        rw [trailOf_append, trailOf_append, hscanned.trail, List.nil_append] at hroute
        rwa [← hattempts] at hroute

end Obeys

section Runs

variable (env : Environ) (config : GatewayConfig) (metadata : RequestMetadata)
  (payload : List (String × Json)) (ladder : List String) (schedule : RaceSchedule) (c : ClassConfig)
  {σ : Type} (h : Handler Cmd Reply σ) (s : σ)

/-- What a run of a walk learns. -/
def journal : List Fact :=
  journaling.after [] ((Itinerary.route (hedges c) ladder).trace
    (h.through (unit env config metadata payload ladder schedule)) s)

variable {env config metadata payload ladder schedule c h s}

theorem unit_possible {m : Move} {answer : m.Answer} {s' : σ}
    (hrun : (unit env config metadata payload ladder schedule m).run h s = (.ok answer, s')) :
    m.Possible answer := by
  cases m with
  | attempt i provider => exact (returns_attempt provider).run hrun
  | race i first j second => exact returns_race.run hrun
  | scan | allows | failover => trivial

/-- Every run of a walk that ends is one of the four kinds. -/
theorem routed_run (hclass : config.classes.lookup metadata.requestClass = some c)
    {routed : RouteOutcome} {s' : σ}
    (hrun : (route env config metadata payload ladder schedule).run h s = (.ok routed, s')) :
    Routed ladder (hedges c) (journal env config metadata payload ladder schedule c h s) routed := by
  rw [← expand_route c hclass, run_expand] at hrun
  refine (obeys_route (hedges c) ladder).run (fun _ m s answer hanswer ↦ ?_) s routed ?_
  · exact unit_possible (Prod.ext hanswer rfl)
  · rw [hrun]

end Runs

end HealingGateway.Router
