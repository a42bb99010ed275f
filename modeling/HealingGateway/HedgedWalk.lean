import HealingGateway.FailOpen
import HealingGateway.Trails
import Mathlib.Data.List.Nodup

namespace HealingGateway.Router

open Programs Programs.Prog Numerals JsonText

def Refused (ladder : List String) (facts : List Fact) (i : ℕ) : Prop :=
  ∃ provider, ladder[i]? = some provider ∧
    (.scanned i provider false ∈ facts ∨ ∃ reason, .asked i provider false reason ∈ facts)

/-- What a walk may come to: serve what a call answered, and give up only when every rung was
called and failed or was refused. -/
structure Sound (ladder : List String) (facts : List Fact) (routed : RouteOutcome) : Prop where
  served : ∀ result, routed.result = some result →
    (result.outcome.isOk = true ∨ result.outcome.trippable = false) ∧
      ∃ i provider, .answered i provider result ∈ facts
  failed : routed.result = none → ∀ i ∈ dispatches facts,
    ∃ provider result, .answered i provider result ∈ facts ∧ result.outcome.trippable = true
  refused : routed.result = none → ∀ i < ladder.length, i ∉ dispatches facts → Refused ladder facts i
  status : routed.result = none → ∃ status, Main.exhaustedStatus routed = .ok status ∧
    400 ≤ status ∧ (status = 503 ↔ dispatches facts = [])

theorem Refused.mono {ladder : List String} {facts facts' : List Fact} {i : ℕ}
    (h : Refused ladder facts i) (hsub : facts ⊆ facts') : Refused ladder facts' i := by
  obtain ⟨provider, hget, hmem | ⟨reason, hmem⟩⟩ := h
  · exact ⟨provider, hget, .inl (hsub hmem)⟩
  · exact ⟨provider, hget, .inr ⟨reason, hsub hmem⟩⟩

section Walked

variable {i : ℕ} {rest : List String} {facts : List Fact} {ended : Option ProviderResult}

theorem Walked.served_mem (h : Walked i rest facts ended) {result : ProviderResult}
    (hended : ended = some result) : isFinal result = true ∧ result ∈ results facts := by
  induction h with
  | out => cases hended
  | refused _ _ ih => exact ih hended
  | served _ _ hfinal =>
    cases hended
    exact ⟨hfinal, by simp⟩
  | failed _ _ _ _ ih =>
    obtain ⟨hfinal, hmem⟩ := ih hended
    exact ⟨hfinal, by simp [hmem]⟩

theorem Walked.failed_of_none (h : Walked i rest facts ended) (hended : ended = none) :
    ∀ fact ∈ facts, fact.Failed := by
  induction h with
  | out => simp
  | refused _ _ ih => exact List.forall_mem_cons.mpr ⟨trivial, ih hended⟩
  | served => cases hended
  | failed _ _ hfailed _ ih =>
    exact List.forall_mem_cons.mpr ⟨trivial, List.forall_mem_cons.mpr ⟨hfailed, ih hended⟩⟩

theorem Walked.refused_of_none (h : Walked i rest facts ended) (hended : ended = none)
    {k : ℕ} (hk : k < rest.length) (hcalled : i + k ∉ dispatches facts) :
    ∃ provider reason, rest[k]? = some provider ∧ .asked (i + k) provider false reason ∈ facts := by
  induction h generalizing k with
  | out => simp at hk
  | @refused i provider rest facts ended reason h ih =>
    cases k with
    | zero => exact ⟨_, reason, rfl, List.mem_cons_self ..⟩
    | succ k =>
      have hshift : i + (k + 1) = i + 1 + k := by omega
      rw [hshift] at hcalled ⊢
      obtain ⟨provider, reason, hget, hmem⟩ := ih hended (Nat.lt_of_succ_lt_succ hk) hcalled
      exact ⟨provider, reason, hget, List.mem_cons_of_mem _ hmem⟩
  | served => cases hended
  | @failed i provider rest facts ended result reason _ _ h ih =>
    cases k with
    | zero => simp at hcalled
    | succ k =>
      have hshift : i + (k + 1) = i + 1 + k := by omega
      rw [hshift] at hcalled ⊢
      rw [dispatches_asked, dispatches_answered, List.mem_cons, not_or] at hcalled
      obtain ⟨provider, reason, hget, hmem⟩ := ih hended (Nat.lt_of_succ_lt_succ hk) hcalled.2
      exact ⟨provider, reason, hget, List.mem_cons_of_mem _ (List.mem_cons_of_mem _ hmem)⟩

end Walked

section Scanned

variable {limit i : ℕ} {rungs : List String} {facts : List Fact} {admitted : List (ℕ × String)}

theorem Scanned.dispatches (h : Scanned limit i rungs facts admitted) :
    Router.dispatches facts = [] := by
  induction h with
  | enough | out => rfl
  | passed _ ih => exact ih
  | picked _ ih => exact ih

theorem Scanned.failed (h : Scanned limit i rungs facts admitted) :
    ∀ fact ∈ facts, fact.Failed := by
  induction h with
  | enough | out => simp
  | passed _ ih | picked _ ih => exact List.forall_mem_cons.mpr ⟨trivial, ih⟩

theorem Scanned.positions (h : Scanned limit i rungs facts admitted) :
    (∀ a ∈ admitted, i ≤ a.1 ∧ rungs[a.1 - i]? = some a.2) ∧
      admitted.Pairwise (fun a b ↦ a.1 < b.1) := by
  induction h with
  | enough | out => simp
  | @passed limit i provider rest facts admitted h ih =>
    refine ⟨fun a ha ↦ ?_, ih.2⟩
    obtain ⟨hle, hget⟩ := ih.1 a ha
    have hshift : a.1 - i = a.1 - (i + 1) + 1 := by omega
    exact ⟨by omega, by rw [hshift]; exact hget⟩
  | @picked limit i provider rest facts admitted h ih =>
    constructor
    · intro a ha
      rcases List.mem_cons.mp ha with rfl | ha
      · simp
      · obtain ⟨hle, hget⟩ := ih.1 a ha
        have hshift : a.1 - i = a.1 - (i + 1) + 1 := by omega
        exact ⟨by omega, by rw [hshift]; exact hget⟩
    · refine List.pairwise_cons.mpr ⟨fun a ha ↦ ?_, ih.2⟩
      exact (ih.1 a ha).1

/-- Before a rung that was picked, the others were picked or refused. -/
theorem Scanned.before (h : Scanned limit i rungs facts admitted) {a : ℕ × String}
    (ha : a ∈ admitted) {k : ℕ} (hk : i + k < a.1) :
    (∃ b ∈ admitted, b.1 = i + k) ∨
      ∃ provider, rungs[k]? = some provider ∧ .scanned (i + k) provider false ∈ facts := by
  induction h generalizing k with
  | enough | out => cases ha
  | @passed limit i provider rest facts admitted h ih =>
    cases k with
    | zero => exact .inr ⟨provider, rfl, List.mem_cons_self ..⟩
    | succ k =>
      have hshift : i + (k + 1) = i + 1 + k := by omega
      rw [hshift] at hk ⊢
      rcases ih ha hk with hpicked | ⟨provider, hget, hmem⟩
      · exact .inl hpicked
      · exact .inr ⟨provider, hget, List.mem_cons_of_mem _ hmem⟩
  | @picked limit i provider rest facts admitted h ih =>
    cases k with
    | zero => exact .inl ⟨_, List.mem_cons_self .., rfl⟩
    | succ k =>
      have hshift : i + (k + 1) = i + 1 + k := by omega
      rw [hshift] at hk ⊢
      rcases List.mem_cons.mp ha with rfl | ha
      · omega
      · rcases ih ha hk with ⟨b, hb, hbk⟩ | ⟨provider, hget, hmem⟩
        · exact .inl ⟨b, List.mem_cons_of_mem _ hb, hbk⟩
        · exact .inr ⟨provider, hget, List.mem_cons_of_mem _ hmem⟩

end Scanned

theorem Scanned.pair {ladder : List String} {scan : List Fact} {i j : ℕ} {first second : String}
    (h : Scanned 2 0 ladder scan [(i, first), (j, second)]) :
    i < j ∧ ladder[i]? = some first ∧ ladder[j]? = some second ∧
      ∀ k < j, k ≠ i → ∃ provider, ladder[k]? = some provider ∧ .scanned k provider false ∈ scan := by
  obtain ⟨hget, horder⟩ := h.positions
  have hij : i < j := by simpa using horder
  have hi := hget (i, first) (by simp)
  have hj := hget (j, second) (by simp)
  refine ⟨hij, by simpa using hi, by simpa using hj, fun k hk hne ↦ ?_⟩
  rcases h.before (a := (j, second)) (by simp) (k := k) (by simpa using hk) with
    ⟨b, hb, hbk⟩ | ⟨provider, hprovider, hmem⟩
  · rw [Nat.zero_add] at hbk
    simp only [List.mem_cons, List.not_mem_nil, or_false] at hb
    rcases hb with rfl | rfl
    · exact absurd hbk.symm hne
    · simp only at hbk
      omega
  · rw [Nat.zero_add] at hmem
    exact ⟨provider, hprovider, hmem⟩

section Landed

variable {i j n : ℕ} {first second : String} {facts : List Fact} {ended : Option ProviderResult}

theorem Landed.served_mem {result : ProviderResult}
    (h : Landed i first j second facts (some result) n) :
    isFinal result = true ∧ result ∈ results facts := by
  cases h with
  | alone _ _ hfinal => exact ⟨hfinal, by simp⟩
  | primary _ _ _ hfinal => exact ⟨hfinal, by simp⟩
  | hedge _ _ _ hfinal => exact ⟨hfinal, by simp⟩

theorem Landed.failed_of_none (h : Landed i first j second facts none n) :
    ∀ fact ∈ facts, fact.Failed := by
  cases h with
  | aloneFailed _ hfailed => simpa [Fact.Failed] using hfailed
  | primaryFailed _ _ hfailed hfailed' | hedgeFailed _ _ hfailed hfailed' =>
    simpa [Fact.Failed] using ⟨hfailed, hfailed'⟩

/-- Where a walk goes on after a race: past the rungs called, and past no other rung from the
second one on. -/
theorem Landed.resumes (h : Landed i first j second facts none n) (hij : i < j) :
    (∀ k ∈ dispatches facts, k < n) ∧ i ∈ dispatches facts ∧
      ∀ k < n, k ∉ dispatches facts → k < j := by
  cases h with
  | aloneFailed =>
    refine ⟨by simp, by simp, fun k hk _ ↦ ?_⟩
    omega
  | primaryFailed | hedgeFailed =>
    refine ⟨fun k hk ↦ ?_, by simp, fun k hk hcalled ↦ ?_⟩
    · simp at hk
      omega
    · simp at hcalled
      omega

end Landed

section Sound

variable {ladder : List String} {facts : List Fact}

/-- A walk is sound where a race left it, given what was found of the rungs before. -/
theorem Walked.sound {n : ℕ} {before : List Fact} {ended : Option ProviderResult}
    (h : Walked n (ladder.drop n) facts ended) (hfailed : ∀ fact ∈ before, fact.Failed)
    (hrefused : ∀ k < n, k ∉ dispatches before → Refused ladder before k) :
    Sound ladder (before ++ facts) ⟨ended, trailOf (before ++ facts)⟩ := by
  have hall : ended = none → ∀ fact ∈ before ++ facts, fact.Failed := by
    intro hended
    exact List.forall_mem_append.mpr ⟨hfailed, h.failed_of_none hended⟩
  refine ⟨fun result hresult ↦ ?_, fun hended i hi ↦ answered_of_failed (hall hended) hi,
    fun hended k hk hcalled ↦ ?_, fun hended ↦ status_of_failed (hall hended) ended⟩
  · obtain ⟨hfinal, hmem⟩ := h.served_mem hresult
    refine ⟨isFinal_eq_true.mp hfinal, mem_results.mp ?_⟩
    rw [results_append]
    exact List.mem_append_right _ hmem
  · rw [dispatches_append, List.mem_append, not_or] at hcalled
    by_cases hkn : k < n
    · exact (hrefused k hkn hcalled.1).mono (List.subset_append_left _ _)
    · have hshift : n + (k - n) = k := by omega
      obtain ⟨provider, reason, hget, hmem⟩ := h.refused_of_none (k := k - n) hended
        (by rw [List.length_drop]; omega) (by rw [hshift]; exact hcalled.2)
      rw [List.getElem?_drop, hshift] at hget
      rw [hshift] at hmem
      exact ⟨provider, hget, .inr ⟨reason, List.mem_append_right _ hmem⟩⟩

theorem Routed.sound {hedged : Bool} {routed : RouteOutcome} (h : Routed ladder hedged facts routed) :
    Sound ladder facts routed := by
  cases h with
  | @plain facts result h =>
    have hsound : Sound ladder ([] ++ facts) ⟨result, trailOf ([] ++ facts)⟩ :=
      Walked.sound (n := 0) h (by simp) (fun k hk ↦ by omega)
    exact hsound
  | few hscan _ h => exact Walked.sound (n := 0) h hscan.failed (fun k hk ↦ by omega)
  | @raced scan facts i j n first second result hscan hlanded =>
    obtain ⟨hfinal, hmem⟩ := hlanded.served_mem
    refine ⟨fun result' hresult ↦ ?_, (fun h ↦ by cases h), (fun h ↦ by cases h),
      (fun h ↦ by cases h)⟩
    cases hresult
    refine ⟨isFinal_eq_true.mp hfinal, mem_results.mp ?_⟩
    rw [results_append]
    exact List.mem_append_right _ hmem
  | @resumed scan landed facts i j n first second result hscan hlanded h =>
    obtain ⟨hij, hi, hj, hscanned⟩ := hscan.pair
    obtain ⟨-, hcalled, hbelow⟩ := hlanded.resumes hij
    refine Walked.sound h (List.forall_mem_append.mpr ⟨hscan.failed, hlanded.failed_of_none⟩) ?_
    intro k hk hnot
    rw [dispatches_append, hscan.dispatches, List.nil_append] at hnot
    have hki : k ≠ i := fun heq ↦ hnot (heq ▸ hcalled)
    obtain ⟨provider, hget, hmem⟩ := hscanned k (hbelow k hk hnot) hki
    exact ⟨provider, hget, .inl (List.mem_append_left _ hmem)⟩

theorem Routed.failed_of_none {hedged : Bool} {routed : RouteOutcome} (h : Routed ladder hedged facts routed)
    (hended : routed.result = none) : ∀ fact ∈ facts, fact.Failed := by
  cases h with
  | plain h => exact h.failed_of_none hended
  | few hscan _ h => exact List.forall_mem_append.mpr ⟨hscan.failed, h.failed_of_none hended⟩
  | raced => cases hended
  | resumed hscan hlanded h =>
    exact List.forall_mem_append.mpr
      ⟨List.forall_mem_append.mpr ⟨hscan.failed, hlanded.failed_of_none⟩, h.failed_of_none hended⟩

theorem Routed.lastFailure_eq_none_iff {hedged : Bool} {routed : RouteOutcome}
    (h : Routed ladder hedged facts routed) (hended : routed.result = none) :
    routed.lastFailure = none ↔ dispatches facts = [] := by
  have hrouted : routed = ⟨routed.result, trailOf facts⟩ := by rw [← h.attempts]
  rw [hrouted, lastFailure_trailOf, Option.map_eq_none_iff, List.getLast?_eq_none_iff]
  exact results_eq_nil_iff (h.failed_of_none hended)

end Sound

section Once

theorem dispatches_watch {facts : List Fact} {m : Move} {answer : Except Exn m.Answer}
    (hfacts : ∀ a, dispatches (m.facts a) = []) (hlost : dispatches m.lost = []) :
    dispatches (journaling.watch facts false m answer) = dispatches facts := by
  cases answer with
  | ok a => simp [journaling, hfacts]
  | error e => simp [journaling, hlost]

theorem obeys_silent {α : Type} {m : Move} {facts : List Fact} {f : m.Answer → Itinerary α}
    {Q : List Fact → Except Exn α → Prop} (hfacts : ∀ a, dispatches (m.facts a) = [])
    (hlost : dispatches m.lost = [])
    (hok : ∀ a facts', dispatches facts' = dispatches facts → (f a).Obeys journaling facts' Q)
    (herror : ∀ e facts', dispatches facts' = dispatches facts → Q facts' (.error e)) :
    (Plan.perform m >>= f).Obeys journaling facts Q :=
  obeys_perform_bind trivial (fun a _ ↦ hok a _ (dispatches_watch hfacts hlost))
    (fun e _ ↦ herror e _ (dispatches_watch hfacts hlost))

theorem once_walk (i : ℕ) (rest : List String) (attempts : List ProviderCallLog)
    (facts : List Fact) (honce : (dispatches facts).Nodup) (hlt : ∀ k ∈ dispatches facts, k < i) :
    (Itinerary.walk i rest attempts).Obeys journaling facts
      (fun facts' _ ↦ (dispatches facts').Nodup) := by
  induction rest generalizing i attempts facts with
  | nil => exact honce
  | cons provider rest ih =>
    apply obeys_silent (fun _ ↦ rfl) rfl
    · rintro ⟨admits, reason⟩ facts' hfacts'
      rw [← hfacts'] at honce hlt
      cases admits with
      | false => exact ih _ _ _ honce (fun k hk ↦ Nat.lt_succ_of_lt (hlt k hk))
      | true =>
        have hsnoc : (dispatches facts' ++ [i]).Nodup := by
          refine List.nodup_append'.mpr ⟨honce, by simp, fun k hk hki ↦ ?_⟩
          have hlt := hlt k hk
          obtain rfl := List.mem_singleton.mp hki
          omega
        refine obeys_perform_bind trivial (fun result _ ↦ ?_) (fun e _ ↦ ?_)
        · have hfacts'' : dispatches (journaling.watch facts' false (.attempt i provider) (.ok result)) =
              dispatches facts' ++ [i] := by simp [journaling, Move.facts]
          split
          · simp only [pure_eq, obeys_done]
            rw [hfacts'']
            exact hsnoc
          · apply obeys_silent (fun _ ↦ rfl) rfl
            · intro _ facts hfacts
              rw [hfacts''] at hfacts
              refine ih _ _ _ (hfacts ▸ hsnoc) (fun k hk ↦ ?_)
              rw [hfacts, List.mem_append, List.mem_singleton] at hk
              rcases hk with hk | rfl
              · exact Nat.lt_succ_of_lt (hlt k hk)
              · exact Nat.lt_succ_self k
            · intro _ facts hfacts
              rw [hfacts, hfacts'']
              exact hsnoc
        · simpa [journaling, Move.lost] using hsnoc
    · intro _ facts' hfacts'
      rw [hfacts']
      exact honce

theorem silent_admissible (limit i : ℕ) (rungs : List String) (facts : List Fact) :
    (Itinerary.admissible limit i rungs).Obeys journaling facts
      (fun facts' _ ↦ dispatches facts' = dispatches facts) := by
  induction rungs generalizing limit i facts with
  | nil => cases limit <;> rfl
  | cons provider rest ih =>
    cases limit with
    | zero => rfl
    | succ limit =>
      apply obeys_silent (fun _ ↦ rfl) rfl
      · rintro ⟨admits, reason⟩ facts' hfacts'
        cases admits with
        | false => exact hfacts' ▸ ih (limit + 1) (i + 1) facts'
        | true => exact Obeys.bind (hfacts' ▸ ih limit (i + 1) facts') (fun _ _ h ↦ h) (fun _ _ h ↦ h)
      · exact fun _ _ h ↦ h

theorem silent_finish (i : ℕ) (provider : String) (result : ProviderResult)
    (others : List ProviderCallLog) (facts : List Fact) :
    (Itinerary.finish i provider result others).Obeys journaling facts
      (fun facts' _ ↦ dispatches facts' = dispatches facts) := by
  unfold Itinerary.finish
  split
  · rfl
  · exact obeys_silent (fun _ ↦ rfl) rfl (fun _ _ h ↦ h) (fun _ _ h ↦ h)

theorem silent_land (i : ℕ) (first : String) (j : ℕ) (raced : Raced) (facts : List Fact) :
    (Itinerary.land i first j raced).Obeys journaling facts
      (fun facts' _ ↦ dispatches facts' = dispatches facts) := by
  cases raced with
  | alone result => exact silent_finish ..
  | settled won result loser => exact silent_finish ..

theorem Raced.nodup_facts (raced : Raced) {i j : ℕ} (hij : i < j) {first second : String} :
    (dispatches (raced.facts i first j second)).Nodup := by
  have hne : i ≠ j := Nat.ne_of_lt hij
  cases raced with
  | alone result => simp [Raced.facts]
  | settled won result loser =>
    cases won
    · simp [Raced.facts, hne]
    · simp [Raced.facts, hne.symm]

/-- A race calls no rung twice, and where it serves nothing the walk goes on past what it
called. -/
theorem once_hedgedStart (ladder : List String) :
    (Itinerary.hedgedStart ladder).Obeys journaling [] (fun facts ended ↦ (dispatches facts).Nodup ∧
      ∀ raced, ended = .ok raced → raced.1.result = none → ∀ k ∈ dispatches facts, k < raced.2) := by
  refine Obeys.bind ((obeys_admissible 2 0 ladder []).and (silent_admissible 2 0 ladder []))
    (fun scan admitted h ↦ ?_) (fun scan e h ↦ ?_)
  · obtain ⟨hok, hscan⟩ := h
    obtain ⟨_, rfl, hscanned⟩ := hok admitted rfl
    have hlength := hscanned.length_le
    rcases admitted with _ | ⟨⟨i, first⟩, _ | ⟨⟨j, second⟩, _ | ⟨third, others⟩⟩⟩
    · exact ⟨by simp [hscan], by simp [hscan]⟩
    · exact ⟨by simp [hscan], by simp [hscan]⟩
    · obtain ⟨hij, -⟩ := hscanned.pair
      refine obeys_perform_bind trivial (fun raced hfair ↦ ?_) (fun e _ ↦ ?_)
      · apply ((obeys_land (hfair raced rfl) _).and (silent_land i first j raced _)).mono
        intro facts ended h
        obtain ⟨hland, hfacts⟩ := h
        have hcalled : dispatches facts = dispatches (raced.facts i first j second) := by
          simp [hfacts, journaling, Move.facts, hscan]
        refine ⟨hcalled ▸ raced.nodup_facts hij, fun raced' hended hnone ↦ ?_⟩
        obtain ⟨-, -, n, hlanded, hn⟩ := hland raced' hended
        rw [hnone] at hlanded
        rw [hcalled, hn hnone]
        exact (hlanded.resumes hij).1
      · refine ⟨?_, fun _ h ↦ by cases h⟩
        simp [journaling, Move.lost, hscan, Nat.ne_of_lt hij]
    · simp at hlength
  · rw [h.2]
    exact ⟨by simp, fun _ h ↦ by cases h⟩

/-- No walk calls a rung twice, however it ends. -/
theorem once_route (hedged : Bool) (ladder : List String) :
    (Itinerary.route hedged ladder).Obeys journaling [] (fun facts _ ↦ (dispatches facts).Nodup) := by
  cases hedged with
  | false => exact once_walk 0 ladder [] [] (by simp) (by simp)
  | true =>
    refine (once_hedgedStart ladder).bind (fun facts raced h ↦ ?_) (fun _ _ h ↦ h.1)
    obtain ⟨honce, hlt⟩ := h
    rw [Itinerary.resume]
    split
    · exact honce
    · next hnone => exact once_walk _ _ _ _ honce (hlt raced rfl hnone)

end Once

section Runs

variable {env : Environ} {config : GatewayConfig} {metadata : RequestMetadata}
  {payload : List (String × Json)} {ladder : List String} {schedule : RaceSchedule} {c : ClassConfig}
  {σ : Type} {h : Handler Cmd Reply σ} {s : σ}

/-- However its calls are timed and its circuits answer, a walk calls no rung twice and passes
none over. -/
theorem route_sound (hclass : config.classes.lookup metadata.requestClass = some c) :
    (dispatches (journal env config metadata payload ladder schedule c h s)).Nodup ∧
      ∀ routed s', (route env config metadata payload ladder schedule).run h s = (.ok routed, s') →
        Sound ladder (journal env config metadata payload ladder schedule c h s) routed := by
  refine ⟨?_, fun routed s' hrun ↦ (routed_run hclass hrun).sound⟩
  refine (once_route (hedges c) ladder).run (fun _ m s answer hanswer ↦ ?_) s
  exact unit_possible (Prod.ext hanswer rfl)

end Runs

def timeoutError : Exn := .raised ["Timeout", "Exception", "BaseException"] "timed out"

/-- Providers that all time out. -/
def timingOut : Handler Cmd Reply Redis.Db :=
  Outside.answers { now := 0, completion := fun _ ↦ .error timeoutError }

theorem classifyLadder_ne_nil : ["groq", "anthropic", "ollama"] ≠ [] := List.cons_ne_nil _ _

/-- A class that hedges. -/
def classifyClass : ClassConfig where
  ladder := ["groq", "anthropic", "ollama"]
  ladder_ne_nil := classifyLadder_ne_nil
  hedgeAfterMs := some 400

theorem route_sound_timingOut :
    ∃ routed, Sound classifyClass.ladder (journal (fun _ ↦ none) .shipped classify [] classifyClass.ladder
      ⟨0, [], 0⟩ classifyClass timingOut (fun _ ↦ none)) routed ∧ routed.result = none := by
  have hended : (((route (fun _ ↦ none) .shipped classify [] classifyClass.ladder ⟨0, [], 0⟩).run timingOut
      (fun _ ↦ none)).1.toOption.map (fun routed ↦ routed.result.isNone)) = some true := by
    decide +kernel
  obtain ⟨routed, s', hrun, hnone⟩ := exists_run_of_map timingOut hended
  exact ⟨routed, (route_sound rfl).2 routed s' hrun, Option.isNone_iff_eq_none.mp hnone⟩

end HealingGateway.Router
