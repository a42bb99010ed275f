import HealingGateway.Credentials
import HealingGateway.Outages

namespace HealingGateway.Router

open Programs Programs.Prog Numerals JsonText

section Races

variable {env : Environ} {config : GatewayConfig} {metadata : RequestMetadata}
  {payload : List (String × Json)} {ladder : List String}

abbrev Tells {α : Type} (config : GatewayConfig) (p : Gateway α) : Prop :=
  p.Obeys (failures config).watching false (fun seen r ↦ seen = !r.isOk)

theorem obeys_metric {α : Type} {m : Metric} {p : Gateway α} {seen : Bool}
    {Q : Bool → Except Exn α → Prop} (hm : refused (.metric m) = false)
    (h : p.Obeys (failures config).watching seen Q) :
    (do
      metric m
      p).Obeys (failures config).watching seen Q := by
  refine ⟨trivial, fun _ _ ↦ ?_⟩
  simp only [Failures.watching_watch, failures, hm, unreadable, Bool.or_self, Bool.and_false, Bool.or_false]
  exact h

def Settles (seen : Bool) : Except Exn Settled → Prop
  | .ok settled => seen = !(loserLog settled.loser).isOk
  | .error _ => seen = true

theorem settles_landedTogether (primary hedge : Except Exn ProviderResult) :
    Settles (!primary.isOk || !hedge.isOk) (landedTogether primary hedge) := by
  cases primary with
  | error e => rfl
  | ok result =>
    change Settles _ (if isFinal result then .ok ⟨false, result, some hedge⟩
      else hedge >>= fun result' ↦ .ok ⟨true, result', some (.ok result)⟩)
    split
    · cases hedge <;> rfl
    · cases hedge <;> rfl

theorem settles_landedFirst (firstIsHedge : Bool) (ended : Except Exn ProviderResult)
    {other : Gateway ProviderResult} (hother : other.Brittle (failures config)) :
    (landedFirst firstIsHedge ended other).Obeys (failures config).watching (!ended.isOk)
      Settles := by
  cases ended with
  | error e => rfl
  | ok first =>
    simp only [landedFirst, ofExcept_ok, done_bind]
    split
    · rfl
    · refine Obeys.bind hother.obeys (fun seen second hseen ↦ ?_) (fun seen e hseen ↦ hseen)
      split
      · exact hseen
      · exact hseen

theorem settles_remains {ended : Except Exn ProviderResult} {rest : Gateway ProviderResult}
    {seen : Bool} (hrest : Remains (failures config) (!ended.isOk) seen rest) :
    match rest.ended? with
    | some ended' => seen = (!ended.isOk || !ended'.isOk)
    | none => seen = (!ended.isOk) ∧ rest.Brittle (failures config) := by
  rcases hrest with ⟨rfl, hrest⟩ | ⟨rfl, e, rfl⟩
  · cases rest with
    | done result => exact (Bool.or_false _).symm
    | throw e => cases hrest
    | call g c k => exact ⟨rfl, hrest⟩
  · exact (Bool.or_true _).symm

theorem settles_firstUsable (schedule : RaceSchedule) {primary hedge : Gateway ProviderResult}
    (hprimary : primary.Brittle (failures config)) (hhedge : hedge.Brittle (failures config)) :
    (firstUsable schedule primary hedge).Obeys (failures config).watching false Settles := by
  refine Obeys.bind (hprimary.race hhedge schedule.turns) ?_ ?_
  · rintro seen landing ⟨_, ⟨⟩, hlands⟩
    cases landing with
    | left ended other =>
      obtain ⟨rfl, hother⟩ := hlands
      refine Obeys.bind (hother.advance schedule.afterFirst _) ?_ ?_
      · rintro seen rest ⟨_, ⟨⟩, hrest⟩
        have hremains := settles_remains hrest
        split
        · next ended' hended =>
          rw [hended] at hremains
          rw [obeys_ofExcept, hremains]
          exact settles_landedTogether ended ended'
        · next hended =>
          rw [hended] at hremains
          obtain ⟨rfl, hother⟩ := hremains
          exact settles_landedFirst false ended hother
      · rintro seen e ⟨_, ⟨⟩, _⟩
    | right ended other =>
      obtain ⟨rfl, hother⟩ := hlands
      refine Obeys.bind (hother.advance schedule.afterFirst _) ?_ ?_
      · rintro seen rest ⟨_, ⟨⟩, hrest⟩
        have hremains := settles_remains hrest
        split
        · next ended' hended =>
          rw [hended] at hremains
          rw [obeys_ofExcept, hremains, Bool.or_comm]
          exact settles_landedTogether ended' ended
        · next hended =>
          rw [hended] at hremains
          obtain ⟨rfl, hother⟩ := hremains
          exact settles_landedFirst true ended hother
      · rintro seen e ⟨_, ⟨⟩, _⟩
  · rintro seen e ⟨_, ⟨⟩, _⟩

theorem tells_hedged (schedule : RaceSchedule) {primary hedge : Gateway ProviderResult}
    (hprimary : primary.Brittle (failures config)) (hhedge : hedge.Brittle (failures config))
    (secondI : ℕ) :
    Tells config (hedged metadata ladder schedule primary hedge secondI) := by
  refine obeys_metric rfl (Obeys.bind (settles_firstUsable schedule hprimary hhedge) ?_
    (fun _ _ h ↦ h))
  intro seen settled hsettled
  refine obeys_metric rfl ?_
  cases hloser : loserLog settled.loser with
  | error e =>
    simp only [Settles, hloser] at hsettled
    exact hsettled
  | ok others =>
    simp only [Settles, hloser] at hsettled
    obtain rfl : seen = false := hsettled
    simp only [ofExcept_ok, done_bind]
    split
    · rfl
    · exact obeys_metric rfl rfl

theorem tells_unhedged (first : String) (firstI : ℕ) (ended : Except Exn ProviderResult) :
    (unhedged metadata ladder first firstI ended).Obeys (failures config).watching (!ended.isOk)
      (fun seen r ↦ seen = !r.isOk) := by
  cases ended with
  | error e => rfl
  | ok result =>
    simp only [unhedged, ofExcept_ok, done_bind]
    split
    · rfl
    · exact obeys_metric rfl rfl

theorem tells_admissible (limit i : ℕ) (ladder : List String) :
    (admissible config limit i ladder).Obeys (failures config).watching false
      (fun seen r ↦ seen = (!r.isOk) ∧ ∀ rungs, r = .ok rungs → ∀ x ∈ rungs, x.2 ∈ ladder) := by
  induction ladder generalizing limit i with
  | nil =>
    cases limit <;> exact ⟨rfl, by rintro _ ⟨⟩ x hx; cases hx⟩
  | cons provider ladder ih =>
    cases limit with
    | zero => exact ⟨rfl, by rintro _ ⟨⟩ x hx; cases hx⟩
    | succ limit =>
      refine Obeys.bind brittle_allows.obeys ?_ ?_
      · intro seen answer hseen
        obtain rfl : seen = false := hseen
        split
        · refine Obeys.bind (ih limit (i + 1)) ?_ ?_
          · rintro seen others ⟨hseen, hothers⟩
            refine ⟨hseen, ?_⟩
            rintro _ ⟨⟩ x hx
            rcases List.mem_cons.mp hx with rfl | hx
            · exact List.mem_cons_self ..
            · exact List.mem_cons_of_mem _ (hothers _ rfl x hx)
          · rintro seen e ⟨hseen, -⟩
            exact ⟨hseen, by rintro _ ⟨⟩⟩
        · refine (ih (limit + 1) (i + 1)).mono ?_
          rintro seen r ⟨hseen, hr⟩
          exact ⟨hseen, fun rungs he x hx ↦ List.mem_cons_of_mem _ (hr rungs he x hx)⟩
      · intro seen e hseen
        exact ⟨hseen, by rintro _ ⟨⟩⟩

theorem tells_hedgedStart (hladder : ∀ p ∈ ladder, (config.providers.lookup p).isSome)
    (schedule : RaceSchedule) :
    Tells config (hedgedStart env config metadata payload ladder schedule) := by
  refine Obeys.bind (tells_admissible 2 0 ladder) ?_ (fun _ _ h ↦ h.1)
  rintro seen admitted ⟨hseen, hadmitted⟩
  obtain rfl : seen = false := hseen
  split
  · next firstI first secondI second others =>
    have hfirst := hladder first (hadmitted _ rfl (firstI, first) (by simp))
    have hsecond := hladder second (hadmitted _ rfl (secondI, second) (by simp))
    refine Obeys.bind ((brittle_attempt hfirst).advance schedule.beforeHedge false) ?_ ?_
    · rintro seen primary ⟨_, ⟨⟩, ⟨rfl, hprimary⟩ | ⟨rfl, e, rfl⟩⟩
      · cases primary with
        | done result => exact tells_unhedged first firstI (.ok result)
        | throw e => cases hprimary
        | call g c k => exact tells_hedged schedule hprimary (brittle_attempt hsecond) secondI
      · exact tells_unhedged first firstI (.error e)
    · rintro seen e ⟨_, ⟨⟩, _⟩
  · rfl

theorem tells_route (hclass : (config.classes.lookup metadata.requestClass).isSome)
    (hladder : ∀ p ∈ ladder, (config.providers.lookup p).isSome) (schedule : RaceSchedule) :
    Tells config (route env config metadata payload ladder schedule) := by
  obtain ⟨c, hc⟩ := Option.isSome_iff_exists.mp hclass
  have hwalk : ∀ i (rest : List String), rest ⊆ ladder → ∀ attempts,
      Tells config (walk env config metadata payload ladder i rest attempts) :=
    fun i rest hsub attempts ↦ (brittle_walk (fun p hp ↦ hladder p (hsub hp)) i attempts).obeys
  rw [route, hc, orRaise_some, done_bind]
  split
  · refine Obeys.bind (tells_hedgedStart hladder schedule) ?_ (fun _ _ h ↦ h)
    intro seen raced hseen
    obtain rfl : seen = false := hseen
    unfold resume
    split
    · rfl
    · exact hwalk _ _ (List.drop_subset _ _) _
  · exact hwalk _ _ (List.Subset.refl _) _

end Races

section Mending

variable {config : GatewayConfig}

theorem mend_of_sound {c : Cmd} {r : Reply c} (hr : (failures config).fails c r = false) :
    mend config c r = r := by
  cases c with
  | redis c =>
    have hread : unreadable config (.redis c) r = false := hr
    simp only [mend, hread, Bool.false_eq_true, if_false]
  | _ => rfl

end Mending

section Claim

variable (env : Environ) (config : GatewayConfig) (metadata : RequestMetadata)
  (payload : List (String × Json)) (ladder : List String) (schedule : RaceSchedule)
  {σ : Type} (h : Handler Cmd Reply σ) (s : σ)

def Unreachable : Prop := ∀ c s, ∃ e, (h (.redis c) s).1 = .error e

/-- A walk answers as it would with every failure of Redis mended. With Redis unreachable it
goes to the first rung. -/
structure FailsOpen : Prop where
  answered : ∃ routed,
    ((route env config metadata payload ladder schedule).run h s).1 = .ok routed ∧
    (((route env config metadata payload ladder schedule).recover (mend config)).run h s).1 =
      .ok routed
  firstRung : Unreachable h → ∀ provider ∈ ladder.head?, ∀ p,
    config.providers.lookup provider = some p →
      (Providers.sent ((route env config metadata payload ladder schedule).trace h s)).head? =
        some (Providers.kwargs env p payload)

variable {env config metadata payload ladder schedule h s}

theorem run_allows_unreachable (config : GatewayConfig) (hh : Unreachable h) (provider : String)
    (s : σ) :
    ∃ e s', (Breaker.allows config provider none).run h s = (.error e, s') := by
  obtain ⟨e, he⟩ := hh (.hgetall (Breaker.key provider)) (h .time s).2
  refine ⟨e, (h (.redis (.hgetall (Breaker.key provider))) (h .time s).2).2, ?_⟩
  refine run_bind_error h ?_
  rw [Breaker.stateOf, nowOr, nowMs, ask_bind, call_bind, run_call]
  exact run_redis_bind_error h (Prod.ext he rfl) _

theorem run_route_unreachable (hh : Unreachable h) {provider : String} {rest : List String}
    {c : ClassConfig} (hc : config.classes.lookup metadata.requestClass = some c) (s : σ) :
    ∃ e s', (route env config metadata payload (provider :: rest) schedule).run h s =
      (.error e, s') := by
  obtain ⟨e, s', hallows⟩ := run_allows_unreachable config hh provider s
  refine ⟨e, s', ?_⟩
  rw [route, hc, orRaise_some, done_bind]
  split
  · refine run_bind_error h (run_bind_error h ?_)
    exact run_bind_error h hallows
  · exact run_bind_error h hallows

/-- The walk returns exactly where no failure meets it outside the guard around the recording of
a call: neither one of Redis nor a counter that refuses the call. -/
theorem isOk_route_iff (hh : ∀ c s, Ordinary c (h c s).1)
    (hclass : (config.classes.lookup metadata.requestClass).isSome)
    (hladder : ∀ p ∈ ladder, (config.providers.lookup p).isSome) :
    ((route env config metadata payload ladder schedule).run h s).1.isOk = true ↔
      ∀ e ∈ (route env config metadata payload ladder schedule).trace h s,
        e.guarded = false → (failures config).fails e.cmd e.reply = false := by
  have htells : Tells config (route env config metadata payload ladder schedule) :=
    tells_route hclass hladder schedule
  have hseen := htells.run (fun _ ↦ hh) s
  have hfailures := (failures config).after_watching false
    ((route env config metadata payload ladder schedule).trace h s)
  rw [hseen] at hfailures
  constructor
  · intro hok e he hg
    rw [hok] at hfailures
    cases hread : (failures config).fails e.cmd e.reply with
    | false => rfl
    | true => cases hfailures.mpr (.inr ⟨e, he, hg, hread⟩)
  · intro hread
    cases hok : ((route env config metadata payload ladder schedule).run h s).1.isOk with
    | true => rfl
    | false =>
      rw [hok] at hfailures
      rcases hfailures.mp rfl with hfalse | ⟨e, he, hg, hf⟩
      · cases hfalse
      · exact absurd ((hread e he hg).symm.trans hf) (by decide)

/-- Routing is fail-open exactly where no failure meets the walk outside the guard around the
recording of a call. -/
theorem failsOpen_iff_onlyGuardedFailures (hh : ∀ c s, Ordinary c (h c s).1)
    (hclass : (config.classes.lookup metadata.requestClass).isSome)
    (hladder : ∀ p ∈ ladder, (config.providers.lookup p).isSome) :
    FailsOpen env config metadata payload ladder schedule h s ↔
      ∀ e ∈ (route env config metadata payload ladder schedule).trace h s,
        e.guarded = false → (failures config).fails e.cmd e.reply = false := by
  have hok := @isOk_route_iff env config metadata payload ladder schedule σ h s hh hclass hladder
  constructor
  · rintro ⟨⟨routed, hrouted, -⟩, -⟩
    exact hok.mp (by rw [hrouted]; rfl)
  · intro hread
    have hanswered : ∃ routed,
        ((route env config metadata payload ladder schedule).run h s).1 = .ok routed := by
      have hisOk := hok.mpr hread
      cases hrun : ((route env config metadata payload ladder schedule).run h s).1 with
      | ok routed => exact ⟨routed, rfl⟩
      | error e =>
        rw [hrun] at hisOk
        cases hisOk
    obtain ⟨routed, hrouted⟩ := hanswered
    refine ⟨⟨routed, hrouted, ?_⟩, ?_⟩
    · rw [run_recover (fun e he hg ↦ mend_of_sound (hread e he hg))]
      exact hrouted
    · intro hunreachable provider hprovider p _
      obtain ⟨c, hc⟩ := Option.isSome_iff_exists.mp hclass
      cases ladder with
      | nil => cases hprovider
      | cons provider' rest =>
        obtain ⟨e, s', hrun⟩ : ∃ e s', (route env config metadata payload (provider' :: rest)
          schedule).run h s = (.error e, s') := run_route_unreachable hunreachable hc s
        rw [hrun] at hrouted
        cases hrouted

end Claim

section Worlds

theorem isException_errorExn (e : Redis.Error) : (errorExn e).isException = true := by
  cases e <;> rfl

theorem ordinary_redis (o : Outside) (c : Redis.Command) (db : Redis.Db) :
    Ordinary (.redis c) (o.answers (.redis c) db).1 := by
  intro e he
  simp only [Outside.answers] at he
  cases hr : (Redis.exec o.now c db).1 with
  | ok r =>
    rw [hr] at he
    cases he
  | error e' =>
    rw [hr] at he
    obtain rfl : errorExn e' = e := Option.some.inj he
    exact isException_errorExn e'

def refusing (refuses : Redis.Command → Bool) (e : Exn) (o : Outside) :
    Handler Cmd Reply Redis.Db
  | .redis c, db => if refuses c then (.error e, db) else o.answers (.redis c) db
  | c, db => o.answers c db

theorem ordinary_refusing (refuses : Redis.Command → Bool) {e : Exn} (he : e.isException = true)
    (now : ℤ) (c : Cmd) (db : Redis.Db) :
    Ordinary c (refusing refuses e { now := now } c db).1 := by
  cases c with
  | redis c =>
    simp only [refusing]
    split
    · rintro e' ⟨⟩
      exact he
    · exact ordinary_redis _ c db
  | sleep | acompletion | llmProvider | completionCost => rintro e ⟨⟩
  | time | perfCounter | random | uniform | uuid4 | metric => trivial

def connectionError : Exn :=
  .raised ["ConnectionError", "RedisError", "Exception", "BaseException"]
    "Error 111 connecting to localhost:6379. Connection refused."

def readOnlyError : Exn :=
  .raised ["ReadOnlyError", "ResponseError", "RedisError", "Exception", "BaseException"]
    "You can't write against a read only replica."

def outage : Handler Cmd Reply Redis.Db := refusing (fun _ ↦ true) connectionError { now := 0 }

def readOnly : Handler Cmd Reply Redis.Db :=
  refusing (fun c ↦ !c.reads) readOnlyError { now := 0 }

def chat : RequestMetadata := ⟨"acme", "chat", "r1", "interactive.chat"⟩

def classify : RequestMetadata := ⟨"acme", "chat", "r1", "interactive.classify"⟩

/-- Two racing calls, neither of which can be recorded. -/
theorem failsOpen_iff_onlyGuardedFailures_readOnly :
    FailsOpen (fun _ ↦ none) .shipped classify [] ["groq", "anthropic"] ⟨2, [false, true], 3⟩
      readOnly (fun _ ↦ none) :=
  (failsOpen_iff_onlyGuardedFailures (ordinary_refusing _ rfl 0) rfl (by decide)).mpr
    (by decide +kernel)

/-- With Redis unreachable the request fails, and no provider is called. -/
theorem outage_not_failsOpen :
    (∀ c s, Ordinary c (outage c s).1) ∧ Unreachable outage ∧
      ((route (fun _ ↦ none) .shipped chat [] ["groq"] ⟨0, [], 0⟩).run outage (fun _ ↦ none)).1 =
        .error connectionError ∧
      Providers.sent ((route (fun _ ↦ none) .shipped chat [] ["groq"] ⟨0, [], 0⟩).trace outage
        (fun _ ↦ none)) = [] ∧
      ¬ FailsOpen (fun _ ↦ none) .shipped chat [] ["groq"] ⟨0, [], 0⟩ outage (fun _ ↦ none) := by
  have hrun : ((route (fun _ ↦ none) .shipped chat [] ["groq"] ⟨0, [], 0⟩).run outage
      (fun _ ↦ none)).1 = .error connectionError := rfl
  refine ⟨ordinary_refusing _ rfl 0, fun c s ↦ ⟨_, rfl⟩, hrun, rfl, fun hopen ↦ ?_⟩
  obtain ⟨routed, hrouted, -⟩ := hopen.answered
  rw [hrun] at hrouted
  cases hrouted

end Worlds

end HealingGateway.Router
