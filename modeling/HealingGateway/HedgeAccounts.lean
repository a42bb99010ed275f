import HealingGateway.HedgedAnswers

namespace HealingGateway.Router

open Programs Programs.Prog Numerals JsonText

def hedging? : Cmd → Option (String × HedgeLabel)
  | .metric (.hedge requestClass label) => some (requestClass, label)
  | _ => none

/-- What a run adds to the hedge counters. -/
def hedgings : Tariff Cmd Reply (Multiset (String × HedgeLabel)) where
  possible := fun _ _ ↦ True
  cost := fun _ c _ ↦ Multiset.ofList (hedging? c).toList

section Arrivals

variable {σ : Type} (h : Handler Cmd Reply σ) (s : σ)

/-- The hedge's call comes back with a result as `P` says, and the primary's has not come back
before it, or has failed in a way to walk on from. -/
def Arrival.HedgeServes (P : ProviderResult → Prop) : Arrival → Prop
  | together primary hedge => Delivered (isFinal · = false) primary ∧ Delivered P hedge
  | alone true ended _ => Delivered P ended
  | alone false ended other => Delivered (isFinal · = false) ended ∧ Delivered P (other.run h s).1

/-- Both calls of a race that are awaited come back with a result. -/
def Arrival.Answered : Arrival → Prop
  | together primary hedge => Delivered (fun _ ↦ True) primary ∧ Delivered (fun _ ↦ True) hedge
  | alone _ ended other =>
    Delivered (fun result ↦ isFinal result = false → Delivered (fun _ ↦ True) (other.run h s).1) ended

instance (P : ProviderResult → Prop) [DecidablePred P] : DecidablePred (Arrival.HedgeServes h s P)
  | .together .. => inferInstanceAs (Decidable (_ ∧ _))
  | .alone true ended _ => inferInstanceAs (Decidable (Delivered P ended))
  | .alone false .. => inferInstanceAs (Decidable (_ ∧ _))

instance : DecidablePred (Arrival.Answered h s)
  | .together .. => inferInstanceAs (Decidable (_ ∧ _))
  | .alone _ ended other => inferInstanceAs (Decidable (Delivered
      (fun result ↦ isFinal result = false → Delivered (fun _ ↦ True) (other.run h s).1) ended))

end Arrivals

/-- A request of a class that hedges, with the world it meets. -/
structure HedgedRequest (σ : Type) where
  env : Environ
  config : GatewayConfig
  metadata : RequestMetadata
  payload : List (String × Json)
  ladder : List String
  schedule : RaceSchedule
  answers : Handler Cmd Reply σ
  c : ClassConfig
  class_eq : config.classes.lookup metadata.requestClass = some c
  hedges : Router.hedges c = true

namespace HedgedRequest

variable {σ : Type} (r : HedgedRequest σ) (s : σ)

def route : Gateway RouteOutcome := Router.route r.env r.config r.metadata r.payload r.ladder r.schedule

def start : Gateway Start := Router.start r.env r.config r.metadata r.payload r.ladder r.schedule

def race? : Option (Arrival × σ) :=
  match r.start.run r.answers s with
  | (.ok (.racing _ arrival), s') => some (arrival, s')
  | _ => none

def Serves (result : ProviderResult) : Prop :=
  Delivered (fun routed : RouteOutcome ↦ routed.result = some result) (r.route.run r.answers s).1

def exec : σ := (r.route.run r.answers s).2

def counted : Multiset (String × HedgeLabel) := hedgings.total (r.route.trace r.answers s)

/-- A request is counted as fired when its second call is started, and then as won by the hedge
when the hedge's result is well and is served, and else as wasted. -/
structure CountsRight : Prop where
  idle : r.race? s = none → r.counted s = 0
  raced : ∀ a ∈ r.race? s, ∃ label, (label = .wonByHedge ∨ label = .wasted) ∧
    r.counted s = {(r.metadata.requestClass, .fired), (r.metadata.requestClass, label)} ∧
    (label = .wonByHedge ↔ a.1.HedgeServes r.answers a.2
      (fun result ↦ result.outcome.isOk = true ∧ r.Serves s result))

def Answered : Prop := ∀ a ∈ r.race? s, a.1.Answered r.answers a.2

/-- The hedge's call settles the race with a fault of the caller. -/
def FaultWins : Prop :=
  ∃ a ∈ r.race? s, a.1.HedgeServes r.answers a.2 (·.outcome.callerFault = true)

instance : Decidable (r.Answered s) :=
  inferInstanceAs (Decidable (∀ a ∈ r.race? s, a.1.Answered r.answers a.2))

instance : Decidable (r.FaultWins s) :=
  inferInstanceAs (Decidable (∃ a ∈ r.race? s, a.1.HedgeServes r.answers a.2
    (·.outcome.callerFault = true)))

end HedgedRequest

section Sequences

variable {σ : Type}

/-- Every request of a sequence is as `P` says where its turn comes. -/
def Each (P : HedgedRequest σ → σ → Prop) : List (HedgedRequest σ) → σ → Prop
  | [], _ => True
  | r :: requests, s => P r s ∧ Each P requests (r.exec s)

instance (P : HedgedRequest σ → σ → Prop) [∀ r s, Decidable (P r s)] :
    (requests : List (HedgedRequest σ)) → (s : σ) → Decidable (Each P requests s)
  | [], _ => inferInstanceAs (Decidable True)
  | r :: requests, s =>
    have := instDecidableEach P requests (r.exec s)
    inferInstanceAs (Decidable (_ ∧ _))

def counters : List (HedgedRequest σ) → σ → Multiset (String × HedgeLabel)
  | [], _ => 0
  | r :: requests, s => r.counted s + counters requests (r.exec s)

structure HedgesAccounted (requests : List (HedgedRequest σ)) (s : σ) : Prop where
  each : Each HedgedRequest.CountsRight requests s
  balanced : ∀ cls, (counters requests s).count (cls, .fired) =
    (counters requests s).count (cls, .wonByHedge) + (counters requests s).count (cls, .wasted)

end Sequences

section Counting

variable {env : Environ} {config : GatewayConfig} {metadata : RequestMetadata}
  {payload : List (String × Json)} {ladder : List String} {schedule : RaceSchedule} {σ : Type}
  {h : Handler Cmd Reply σ} {s : σ}

/-- A command that is on no hedge counter. -/
def Unhedged (c : Cmd) : Prop := hedging? c = none

theorem suits_unhedged : Suits Unhedged := by
  apply suits_of_metrics _ (fun _ _ ↦ rfl) (fun _ _ ↦ rfl)
  intro c hc
  cases c with
  | metric m => exact absurd rfl (hc m)
  | _ => rfl

theorem Arrival.HedgeServes.mono {P Q : ProviderResult → Prop} {arrival : Arrival}
    (hp : arrival.HedgeServes h s P) (hPQ : ∀ result, P result → Q result) :
    arrival.HedgeServes h s Q := by
  cases arrival with
  | together primary hedge =>
    obtain ⟨hfailed, result, hresult, hP⟩ := hp
    exact ⟨hfailed, result, hresult, hPQ result hP⟩
  | alone isHedge ended other =>
    cases isHedge with
    | true =>
      obtain ⟨result, hresult, hP⟩ := hp
      exact ⟨result, hresult, hPQ result hP⟩
    | false =>
      obtain ⟨hfailed, result, hresult, hP⟩ := hp
      exact ⟨hfailed, result, hresult, hPQ result hP⟩

theorem total_unhedged {α : Type} {p : Gateway α} (hp : p.Only Unhedged) :
    hedgings.total (p.trace h s) = 0 := by
  refine List.sum_eq_zero (fun m hm ↦ ?_)
  obtain ⟨e, he, rfl⟩ := List.mem_map.mp hm
  have hnone : hedging? e.cmd = none := hp.trace h s e he
  simp [hedgings, hnone]

theorem obeys_unhedged {α : Type} {p : Gateway α} {Q : Unit → Except Exn α → Prop}
    (hp : p.Obeys (keepingTo Unhedged) () Q) (m : Multiset (String × HedgeLabel)) :
    p.Obeys (hedgings.tallying fun _ ↦ True) m (fun m' ended ↦ m' = m ∧ Q () ended) := by
  refine hp.unseen (fun c hc ↦ ⟨trivial, fun g r ↦ ?_⟩)
  have hnone : hedging? c = none := hc
  simp [Tariff.tallying_watch, hedgings, hnone]

def Arrival.Quiet : Arrival → Prop
  | together .. => True
  | alone _ _ other => other.Only Unhedged

theorem obeys_arrive (schedule : RaceSchedule) {primary hedge : Gateway ProviderResult}
    (hprimary : primary.Only Unhedged) (hhedge : hedge.Only Unhedged) :
    (arrive schedule primary hedge).Obeys (keepingTo Unhedged) ()
      (fun _ ended ↦ ∃ arrival, ended = .ok arrival ∧ arrival.Quiet) := by
  refine (hprimary.race hhedge schedule.turns).bind ?_ (fun _ _ h ↦ by obtain ⟨_, ⟨⟩, -⟩ := h)
  rintro _ landing ⟨_, ⟨⟩, hlanding⟩
  cases landing with
  | left ended other | right ended other =>
    refine (Only.advance hlanding schedule.afterFirst).bind ?_ (fun _ _ h ↦ by obtain ⟨_, ⟨⟩, -⟩ := h)
    rintro _ rest ⟨_, ⟨⟩, hrest⟩
    split
    · exact ⟨_, rfl, trivial⟩
    · exact ⟨_, rfl, hrest⟩

theorem obeys_start : (start env config metadata payload ladder schedule).Obeys
    (hedgings.tallying fun _ ↦ True) 0 (fun m ended ↦
      (∃ j arrival, ended = .ok (.racing j arrival) ∧ arrival.Quiet ∧
        m = {(metadata.requestClass, .fired)}) ∨
      (∀ j arrival, ended ≠ .ok (.racing j arrival)) ∧ m = 0) := by
  have hscan : (admissible config 2 0 ladder).Only Unhedged := only_admissible suits_unhedged.looks 2 0 ladder
  have hcalls : ∀ provider, (attempt env config metadata payload provider).Only Unhedged :=
    fun provider ↦ only_attempt suits_unhedged.looks (suits_unhedged.calls env config payload provider)
  refine (obeys_unhedged (hscan.obeys (fun _ _ hc ↦ hc) ()) 0).bind (fun m admitted hm ↦ ?_)
    (fun m e hm ↦ .inr ⟨fun _ _ h ↦ (by cases h), hm.1⟩)
  rw [hm.1]
  split
  · next i first j second others =>
    refine (obeys_unhedged ((hcalls first).advance schedule.beforeHedge) 0).bind ?_
      (fun _ _ h ↦ by obtain ⟨-, _, ⟨⟩, -⟩ := h)
    rintro m primary ⟨rfl, _, ⟨⟩, hprimary⟩
    split
    · exact .inr ⟨fun _ _ h ↦ (by cases h), rfl⟩
    · refine ⟨trivial, fun _ _ ↦ ?_⟩
      refine (obeys_unhedged (obeys_arrive schedule hprimary (hcalls second)) _).bind ?_
        (fun _ _ h ↦ by obtain ⟨-, _, ⟨⟩, -⟩ := h)
      rintro m arrival ⟨rfl, _, ⟨⟩, hquiet⟩
      exact .inl ⟨j, arrival, rfl, hquiet, rfl⟩
  · exact .inr ⟨fun _ _ h ↦ (by cases h), rfl⟩

theorem Arrival.Answered.settle {arrival : Arrival} (ha : arrival.Answered h s) :
    ∃ settled s', arrival.settle.run h s = (.ok settled, s') ∧
      Delivered (fun _ ↦ True) (loserLog settled.loser) ∧
      ∀ P : ProviderResult → Prop, (∀ result, P result → isFinal result = true) →
        (arrival.HedgeServes h s P ↔ settled.wonByHedge = true ∧ P settled.result) := by
  cases arrival with
  | together primary hedge =>
    obtain ⟨⟨result, rfl, -⟩, ⟨result', rfl, -⟩⟩ := ha
    cases hfinal : isFinal result with
    | true =>
      refine ⟨⟨false, result, some (.ok result')⟩, s, ?_, ⟨_, rfl, trivial⟩, fun P _ ↦ ?_⟩
      · simp [Arrival.settle, landedTogether_ok, hfinal]
      · simp [Arrival.HedgeServes, Delivered, hfinal]
    | false =>
      refine ⟨⟨true, result', some (.ok result)⟩, s, ?_, ⟨_, rfl, trivial⟩, fun P _ ↦ ?_⟩
      · simp [Arrival.settle, landedTogether_ok, hfinal]
      · simp [Arrival.HedgeServes, Delivered, hfinal]
  | alone isHedge ended other =>
    obtain ⟨result, rfl, hother⟩ := ha
    cases hfinal : isFinal result with
    | true =>
      refine ⟨⟨isHedge, result, none⟩, s, ?_, ⟨_, rfl, trivial⟩, fun P _ ↦ ?_⟩
      · simp [Arrival.settle, landedFirst, hfinal]
      · cases isHedge <;> simp [Arrival.HedgeServes, Delivered, hfinal]
    | false =>
      obtain ⟨result', hrun, -⟩ := hother hfinal
      have hsettle : (Arrival.settle (.alone isHedge (.ok result) other)).run h s =
          (.ok (if isFinal result' then ⟨!isHedge, result', some (.ok result)⟩
            else ⟨isHedge, result, some (.ok result')⟩), (other.run h s).2) := by
        simp only [Arrival.settle, landedFirst, ofExcept_ok, done_bind, hfinal]
        exact run_bind_ok h (Prod.ext hrun rfl)
      refine ⟨_, _, hsettle, ?_, fun P hP ↦ ?_⟩
      · split <;> exact ⟨_, rfl, trivial⟩
      · have hnot : ¬ P result := fun hp ↦ by rw [hP _ hp] at hfinal; cases hfinal
        cases hfinal' : isFinal result' with
        | true => cases isHedge <;> simp [Arrival.HedgeServes, Delivered, hfinal, hnot, hrun]
        | false =>
          have hnot' : ¬ P result' := fun hp ↦ by rw [hP _ hp] at hfinal'; cases hfinal'
          cases isHedge <;> simp [Arrival.HedgeServes, Delivered, hfinal, hnot, hnot', hrun]

theorem only_settle {arrival : Arrival} (hquiet : arrival.Quiet) : arrival.settle.Only Unhedged := by
  cases arrival with
  | together primary hedge => exact only_ofExcept _
  | alone isHedge ended other => exact only_landedFirst isHedge ended hquiet

theorem unhedged_failover (provider next cls reason : String) :
    Unhedged (.metric (.failover provider next cls reason)) := rfl

theorem only_resume (raced : RouteOutcome × ℕ) :
    (resume env config metadata payload ladder raced).Only Unhedged := by
  unfold resume
  split
  · trivial
  · exact only_walk suits_unhedged.looks unhedged_failover _
      (fun p _ ↦ suits_unhedged.calls env config payload p) _

theorem only_finish {st : Start} (hst : ∀ j arrival, st ≠ .racing j arrival) :
    (st.finish metadata ladder).Only Unhedged := by
  cases st with
  | few => trivial
  | early i first ended =>
    refine Only.bind (only_ofExcept _) (fun result ↦ ?_)
    split
    · trivial
    · exact Only.bind (only_ask rfl) (fun _ ↦ trivial)
  | racing j arrival => exact absurd rfl (hst j arrival)

def Settled.conclude (metadata : RequestMetadata) (ladder : List String) (j : ℕ) (settled : Settled) :
    Gateway (RouteOutcome × ℕ) := do
  let others ← ofExcept (loserLog settled.loser)
  if isFinal settled.result then return (⟨some settled.result, logged settled.result :: others⟩, 0)
  else do
    countFailover settled.result.provider ladder j metadata settled.result
    return (⟨none, logged settled.result :: others⟩, j + 1)

theorem finish_racing (j : ℕ) (arrival : Arrival) :
    (Start.racing j arrival).finish metadata ladder = arrival.settle >>= fun settled ↦
      metric (.hedge metadata.requestClass
        (if settled.wonByHedge && isFinal settled.result then .wonByHedge else .wasted)) >>= fun _ ↦
          settled.conclude metadata ladder j := rfl

theorem only_conclude (settled : Settled) (j : ℕ) :
    (settled.conclude metadata ladder j).Only Unhedged := by
  refine Only.bind (only_ofExcept _) (fun others ↦ ?_)
  split
  · trivial
  · exact Only.bind (only_ask rfl) (fun _ ↦ trivial)

end Counting

namespace HedgedRequest

variable {σ : Type} {r : HedgedRequest σ} {s s' : σ} {arrival : Arrival}

theorem route_eq (r : HedgedRequest σ) : r.route = r.start >>= fun st ↦
    st.finish r.metadata r.ladder >>= resume r.env r.config r.metadata r.payload r.ladder := by
  rw [route, Router.route, r.class_eq, orRaise_some, done_bind, if_pos r.hedges, hedgedStart_eq,
    LawfulMonad.bind_assoc]
  rfl

theorem start_cases (r : HedgedRequest σ) (s : σ) :
    (∃ j arrival s', r.start.run r.answers s = (.ok (.racing j arrival), s') ∧
      r.race? s = some (arrival, s') ∧ arrival.Quiet ∧
      hedgings.total (r.start.trace r.answers s) = {(r.metadata.requestClass, .fired)}) ∨
    r.race? s = none ∧ r.counted s = 0 := by
  have hobeys := @obeys_start r.env r.config r.metadata r.payload r.ladder r.schedule
  have hstart := hobeys.run_trace (h := r.answers) (s := s) (fun _ _ _ ↦ trivial)
  rw [Tariff.after_tallying, zero_add] at hstart
  rcases hrun : r.start.run r.answers s with ⟨ended, s'⟩
  have hended : (Router.start r.env r.config r.metadata r.payload r.ladder r.schedule).run r.answers s =
      (ended, s') := hrun
  rw [hended] at hstart
  rcases hstart with ⟨j, arrival, rfl, hquiet, htotal⟩ | ⟨hnone, htotal⟩
  · exact .inl ⟨j, arrival, s', rfl, by rw [race?, hrun], hquiet, htotal⟩
  · cases ended with
    | error e =>
      refine .inr ⟨by rw [race?, hrun], ?_⟩
      rw [counted, route_eq, trace_bind_error r.answers hrun]
      exact htotal
    | ok st =>
      have hst : ∀ j arrival, st ≠ .racing j arrival := fun j arrival h ↦ hnone j arrival (by rw [h])
      refine .inr ⟨?_, ?_⟩
      · rw [race?, hrun]
        cases st with
        | racing j arrival => exact absurd rfl (hst j arrival)
        | few | early => rfl
      · rw [counted, route_eq, trace_bind_ok r.answers hrun, Tariff.total_append,
          total_unhedged (Only.bind (only_finish hst) only_resume), add_zero]
        exact htotal

theorem counted_race {j : ℕ} (hraces : r.start.run r.answers s = (.ok (.racing j arrival), s'))
    (hfired : hedgings.total (r.start.trace r.answers s) = {(r.metadata.requestClass, .fired)})
    (hquiet : arrival.Quiet) (ha : arrival.Answered r.answers s') :
    ∃ settled : Settled, r.counted s = {(r.metadata.requestClass, .fired), (r.metadata.requestClass,
        if settled.wonByHedge && isFinal settled.result then .wonByHedge else .wasted)} ∧
      (isFinal settled.result = true → r.Serves s settled.result) ∧
      ∀ P : ProviderResult → Prop, (∀ result, P result → isFinal result = true) →
        (arrival.HedgeServes r.answers s' P ↔ settled.wonByHedge = true ∧ P settled.result) := by
  obtain ⟨settled, s₁, hsettle, ⟨others, hothers, -⟩, hserves⟩ := ha.settle
  have hrest : (settled.conclude r.metadata r.ladder j >>=
      resume r.env r.config r.metadata r.payload r.ladder).Only Unhedged :=
    Only.bind (only_conclude settled j) only_resume
  refine ⟨settled, ?_, fun hfinal ↦ ?_, hserves⟩
  · rw [counted, route_eq, trace_bind_ok r.answers hraces, Tariff.total_append, hfired,
      finish_racing, LawfulMonad.bind_assoc, trace_bind_ok r.answers hsettle, Tariff.total_append,
      total_unhedged (only_settle hquiet), zero_add]
    have hcounted : ∀ label, hedgings.total ((metric (.hedge r.metadata.requestClass label) >>= fun _ ↦
        settled.conclude r.metadata r.ladder j >>= resume r.env r.config r.metadata r.payload
          r.ladder).trace r.answers s₁) = {(r.metadata.requestClass, label)} := by
      intro label
      have hcons := hedgings.total_cons ⟨false, .metric (.hedge r.metadata.requestClass label), ()⟩
        ((settled.conclude r.metadata r.ladder j >>= resume r.env r.config r.metadata r.payload
          r.ladder).trace r.answers (r.answers (.metric (.hedge r.metadata.requestClass label)) s₁).2)
      rw [total_unhedged hrest] at hcons
      exact hcons
    exact congrArg _ (hcounted _)
  · have hserved : ∀ s₂, (settled.conclude r.metadata r.ladder j >>= resume r.env r.config r.metadata
        r.payload r.ladder).run r.answers s₂ =
          (.ok ⟨some settled.result, logged settled.result :: others⟩, s₂) := by
      intro s₂
      rw [Settled.conclude, hothers, ofExcept_ok, done_bind, if_pos hfinal]
      rfl
    refine ⟨⟨some settled.result, logged settled.result :: others⟩, ?_, rfl⟩
    rw [route_eq, run_bind_ok r.answers hraces, finish_racing, LawfulMonad.bind_assoc,
      run_bind_ok r.answers hsettle]
    exact congrArg Prod.fst (hserved _)

/-- A request is counted as it should be exactly when no fault of the caller wins its race. -/
theorem countsRight_iff (ha : r.Answered s) : r.CountsRight s ↔ ¬ r.FaultWins s := by
  rcases r.start_cases s with ⟨j, arrival, s', hrun, hrace, hquiet, hfired⟩ | ⟨hrace, hzero⟩
  · obtain ⟨settled, hcounted, hserved, hserves⟩ := counted_race hrun hfired hquiet (ha _ hrace)
    have hok := hserves (fun result ↦ result.outcome.isOk = true ∧ r.Serves s result)
      (fun result h ↦ (final_iff _).mpr (.inl h.1))
    have hfault := hserves (·.outcome.callerFault = true) (fun result h ↦ (final_iff _).mpr (.inr h))
    constructor
    · rintro hright ⟨a, ha', hwins⟩
      obtain rfl := Option.some.inj (hrace.symm.trans ha')
      obtain ⟨hwon, hbad⟩ := hfault.mp hwins
      obtain ⟨label, -, hcounted', hlabel⟩ := hright.raced _ hrace
      have hfinal : isFinal settled.result = true := (final_iff _).mpr (.inr hbad)
      rw [hcounted, hwon, hfinal] at hcounted'
      obtain rfl : HedgeLabel.wonByHedge = label := by simpa using hcounted'
      obtain ⟨-, hisOk, -⟩ := hok.mp (hlabel.mp rfl)
      rw [Outcome.callerFault_eq, hisOk] at hbad
      cases hbad
    · intro hnever
      refine ⟨fun hnone ↦ (by rw [hrace] at hnone; cases hnone), fun a ha' ↦ ?_⟩
      obtain rfl := Option.some.inj (hrace.symm.trans ha')
      refine ⟨_, ?_, hcounted, ?_⟩
      · split
        · exact .inl rfl
        · exact .inr rfl
      · rw [hok]
        constructor
        · intro hlabel
          split at hlabel
          · next hcode =>
            rw [Bool.and_eq_true] at hcode
            rcases (final_iff _).mp hcode.2 with hisOk | hbad
            · exact ⟨hcode.1, hisOk, hserved hcode.2⟩
            · exact absurd ⟨_, hrace, hfault.mpr ⟨hcode.1, hbad⟩⟩ hnever
          · cases hlabel
        · rintro ⟨hwon, hisOk, -⟩
          have hfinal : isFinal settled.result = true := (final_iff _).mpr (.inl hisOk)
          rw [hwon, hfinal]
          rfl
  · refine iff_of_true ⟨fun _ ↦ hzero, fun a ha' ↦ ?_⟩ ?_
    · rw [hrace] at ha'
      cases ha'
    · rintro ⟨a, ha', -⟩
      rw [hrace] at ha'
      cases ha'

theorem balanced (ha : r.Answered s) (cls : String) : (r.counted s).count (cls, .fired) =
    (r.counted s).count (cls, .wonByHedge) + (r.counted s).count (cls, .wasted) := by
  rcases r.start_cases s with ⟨j, arrival, s', hrun, hrace, hquiet, hfired⟩ | ⟨-, hzero⟩
  · obtain ⟨settled, hcounted, -⟩ := counted_race hrun hfired hquiet (ha _ hrace)
    rw [hcounted]
    by_cases hcls : cls = r.metadata.requestClass
    · subst hcls
      split <;> simp
    · split <;> simp [hcls]
  · rw [hzero]
    rfl

end HedgedRequest

section Sequences

variable {σ : Type} {requests : List (HedgedRequest σ)} {s : σ}

theorem Each.imp {P Q : HedgedRequest σ → σ → Prop} (h : Each P requests s)
    (hPQ : ∀ r s, P r s → Q r s) : Each Q requests s := by
  induction requests generalizing s with
  | nil => trivial
  | cons r requests ih => exact ⟨hPQ r s h.1, ih h.2⟩

theorem Each.and {P Q : HedgedRequest σ → σ → Prop} (h : Each P requests s)
    (h' : Each Q requests s) : Each (fun r s ↦ P r s ∧ Q r s) requests s := by
  induction requests generalizing s with
  | nil => trivial
  | cons r requests ih => exact ⟨⟨h.1, h'.1⟩, ih h.2 h'.2⟩

theorem Each.balanced (ha : Each HedgedRequest.Answered requests s) (cls : String) :
    (counters requests s).count (cls, .fired) =
      (counters requests s).count (cls, .wonByHedge) + (counters requests s).count (cls, .wasted) := by
  induction requests generalizing s with
  | nil => rfl
  | cons r requests ih =>
    have hr := HedgedRequest.balanced ha.1 cls
    have hrest := ih ha.2
    simp only [counters, Multiset.count_add]
    omega

end Sequences

/-- The hedge counters of a sequence of requests are right exactly when no fault of the caller
wins a race. -/
theorem hedgesAccounted_iff {σ : Type} (requests : List (HedgedRequest σ)) (s : σ)
    (ha : Each HedgedRequest.Answered requests s) :
    HedgesAccounted requests s ↔ Each (fun r s ↦ ¬ r.FaultWins s) requests s := by
  constructor
  · intro h
    exact (ha.and h.each).imp (fun r s ⟨hanswered, hright⟩ ↦ (r.countsRight_iff hanswered).mp hright)
  · intro h
    refine ⟨(ha.and h).imp (fun r s ⟨hanswered, hnever⟩ ↦ ?_), ha.balanced⟩
    exact (r.countsRight_iff hanswered).mpr hnever

def classifying (answers : Handler Cmd Reply Redis.Db) (turns : List Bool) : HedgedRequest Redis.Db where
  env := fun _ ↦ none
  config := .shipped
  metadata := classify
  payload := []
  ladder := classifyClass.ladder
  schedule := ⟨0, turns, 0⟩
  answers
  c := classifyClass
  class_eq := rfl
  hedges := rfl

def wonAndWasted : List (HedgedRequest Redis.Db) :=
  [classifying answering (List.replicate 50 false), classifying answering (List.replicate 50 true)]

theorem hedgesAccounted_iff_wonAndWasted :
    HedgesAccounted wonAndWasted (fun _ ↦ none) ∧
      counters wonAndWasted (fun _ ↦ none) =
        {(classify.requestClass, .fired), (classify.requestClass, .wonByHedge),
          (classify.requestClass, .fired), (classify.requestClass, .wasted)} :=
  ⟨(hedgesAccounted_iff _ _ (by decide +kernel)).mpr (by decide +kernel), by decide +kernel⟩

/-- The hedge comes back first, and the provider has rejected the request. -/
theorem rejectedHedge_not_accounted :
    Each HedgedRequest.Answered [classifying rejecting.answers (List.replicate 50 false)] (fun _ ↦ none) ∧
      ¬ HedgesAccounted [classifying rejecting.answers (List.replicate 50 false)] (fun _ ↦ none) := by
  refine ⟨by decide +kernel, fun h ↦ ?_⟩
  have hrace : ∃ a ∈ (classifying rejecting.answers (List.replicate 50 false)).race? (fun _ ↦ none),
      ¬ a.1.HedgeServes rejecting.answers a.2 (·.outcome.isOk = true) := by
    decide +kernel
  have hcounted : (classifying rejecting.answers (List.replicate 50 false)).counted (fun _ ↦ none) =
      {(classify.requestClass, .fired), (classify.requestClass, .wonByHedge)} := by
    decide +kernel
  obtain ⟨a, ha, hnot⟩ := hrace
  obtain ⟨label, -, hcounted', hlabel⟩ := h.each.1.raced a ha
  rw [hcounted] at hcounted'
  obtain rfl : HedgeLabel.wonByHedge = label := by simpa [classifying] using hcounted'
  exact hnot ((hlabel.mp rfl).mono (fun _ hresult ↦ hresult.1))

end HealingGateway.Router
