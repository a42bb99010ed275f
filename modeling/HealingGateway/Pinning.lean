import HealingGateway.Actions
import HealingGateway.KeyedRequests

namespace HealingGateway.Router

open Programs Programs.Prog JsonText

section Rungs

variable {env : Environ} {config : GatewayConfig} {metadata : RequestMetadata}
  {payload : List (String × Json)} {ladder : List String} {allowed : Cmd → Prop}

theorem allows_refuses (config : GatewayConfig) (provider : String) :
    ∃ (o : Outside) (db : Redis.Db) (reason : String),
      ((Breaker.allows config provider none).run o.answers db).1 = .ok (false, reason) := by
  have hcircuit : Breaker.CircuitAt config provider (.opened 0 ⟨10, 0⟩)
      (Function.update (fun _ ↦ none) (Breaker.key provider)
        (some ⟨.hash (Dicts.merge [] (Breaker.fields .opened (some 0) ⟨10, 0⟩)), none⟩)) :=
    Breaker.circuitAt_fields [] rfl (Function.update_self _ _ _)
  obtain ⟨s, db', hrun, hshows, -⟩ := Breaker.run_stateOf_circuit (o := { now := 0 }) hcircuit
  rw [← Breaker.stateOf_now] at hrun
  have hcool : (Breaker.Circuit.opened 0 ⟨10, 0⟩).cooled 0 = false := by decide +kernel
  have hstate : s.state = .opened := by
    rw [hshows.1, Breaker.Circuit.advance, hcool]
    rfl
  exact ⟨{ now := 0 }, _, _, by rw [Breaker.run_allows hrun, hstate]⟩

theorem allows_admits (config : GatewayConfig) (provider : String) :
    ∃ (o : Outside) (db : Redis.Db) (reason : String),
      ((Breaker.allows config provider none).run o.answers db).1 = .ok (true, reason) := by
  have hcircuit : Breaker.CircuitAt config provider .closed (fun _ ↦ none) :=
    Breaker.kept_empty.circuit
  obtain ⟨s, db', hrun, hshows, -⟩ := Breaker.run_stateOf_circuit (o := { now := 0 }) hcircuit
  rw [← Breaker.stateOf_now] at hrun
  have hstate : s.state = .closed := hshows.1
  exact ⟨{ now := 0 }, _, _, by rw [Breaker.run_allows hrun, hstate]⟩

theorem called_of_only_attempt {name : String} (hname : (config.providers.lookup name).isSome)
    (h : (attempt env config metadata payload name).Only allowed) :
    allowed (.redis (.get (Chaos.key name))) := by
  obtain ⟨p, hp⟩ := Option.isSome_iff_exists.mp hname
  rw [attempt, hp, orRaise_some, done_bind] at h
  exact h.left.left.1

theorem called_of_only_walk {name : String} (hname : (config.providers.lookup name).isSome)
    {i : ℕ} {rest : List String} {attempts : List ProviderCallLog} (hmem : name ∈ rest)
    (h : (walk env config metadata payload ladder i rest attempts).Only allowed) :
    allowed (.redis (.get (Chaos.key name))) := by
  induction rest generalizing i attempts with
  | nil => cases hmem
  | cons provider rest ih =>
    rcases List.mem_cons.mp hmem with rfl | hmem
    · obtain ⟨o, db, reason, hrun⟩ := allows_admits config name
      exact called_of_only_attempt hname (h.right (Prod.ext hrun rfl)).left
    · obtain ⟨o, db, reason, hrun⟩ := allows_refuses config provider
      exact ih hmem (h.right (Prod.ext hrun rfl))

theorem only_after_admissible {α : Type} {limit i : ℕ} {rungs : List String}
    {f : List (ℕ × String) → Gateway α} (h : (admissible config limit i rungs >>= f).Only allowed) :
    (f []).Only allowed := by
  induction rungs generalizing i with
  | nil => cases limit <;> exact h
  | cons provider rungs ih =>
    cases limit with
    | zero => exact h
    | succ limit =>
      obtain ⟨o, db, reason, hrun⟩ := allows_refuses config provider
      rw [admissible, LawfulMonad.bind_assoc] at h
      exact ih (h.right (Prod.ext hrun rfl))

theorem called_of_only_route {c : ClassConfig} {name : String} {schedule : RaceSchedule}
    (hclass : config.classes.lookup metadata.requestClass = some c)
    (hname : (config.providers.lookup name).isSome) (hmem : name ∈ ladder)
    (h : (route env config metadata payload ladder schedule).Only allowed) :
    allowed (.redis (.get (Chaos.key name))) := by
  rw [route, hclass, orRaise_some, done_bind] at h
  split at h
  · rw [hedgedStart, LawfulMonad.bind_assoc] at h
    exact called_of_only_walk hname hmem (only_after_admissible h)
  · exact called_of_only_walk hname hmem h

end Rungs

end HealingGateway.Router

namespace HealingGateway.Main

open Programs Programs.Prog JsonText Schemas Router

/-- No call of a provider but of this one: a call looks for the faults to inject into it, and
asks the library for one completion. -/
def CallsOnly (env : Environ) (config : GatewayConfig) (payload : List (String × Json))
    (name : String) (c : Cmd) : Prop :=
  (∀ other, Chaos.key other ∈ c.keys → other = name) ∧
    ∀ kwargs, c = .acompletion kwargs → ∃ p, config.providers.lookup name = some p ∧
      kwargs = Providers.kwargs env p payload

def CallsNone (c : Cmd) : Prop :=
  (∀ other, Chaos.key other ∉ c.keys) ∧ ∀ kwargs, c ≠ .acompletion kwargs

def storeCommands (events : List (Event Cmd Reply)) : List Redis.Command :=
  events.filterMap (fun e ↦ match e.cmd with
    | .redis c => some c
    | _ => none)

def TurnedAway (p : Gateway (ℤ × Json)) : Prop :=
  ∃ status detail, (status = 400 ∨ status = 503) ∧ p = Prog.throw (.http status detail)

/-- The work is taken for later: no provider is called, one job is written and nothing else,
and the caller gets a 202 with the job's id, unless the store failed to take it. -/
structure Taken (config : GatewayConfig) (metadata : RequestMetadata)
    (payload : List (String × Json)) (p : Gateway (ℤ × Json)) : Prop where
  calls : p.Only CallsNone
  enqueues : ∀ {σ : Type} (h : Handler Cmd Reply σ) (s : σ), ∃ id now,
    storeCommands (p.trace h s) =
      [.pipeline (Queue.enqueueWrites config id metadata payload now)] ∧
    ((∃ body, (p.run h s).1 = .ok (202, body) ∧ body.get? "job_id" = some (.str id)) ∨
      ∃ e, (p.run h s).1 = .error e ∧ ⟨false, .redis (.pipeline
        (Queue.enqueueWrites config id metadata payload now)), .error e⟩ ∈ p.trace h s)

section Pins

variable (env : Environ) (config : GatewayConfig) (schedule : RaceSchedule) (r : ChatRequest)
  (c : ClassConfig)

def WalksOwnLadder : Prop :=
  let ladder := config.ladderFor env r.metadata.requestClass
  (ladder = [] ∧ TurnedAway (serve env config schedule r)) ∨
    (ladder ≠ [] ∧ serve env config schedule r = (do
      let routed ← route env config r.metadata r.body.toProviderKwargs ladder schedule
      answer r routed))

def ComesTo : Option String → Prop
  | some name => TurnedAway (serve env config schedule r) ∨
      (serve env config schedule r).Only (CallsOnly env config r.body.toProviderKwargs name)
  | none =>
    if c.deferrable then Taken config r.metadata r.body.toProviderKwargs (serve env config schedule r)
    else WalksOwnLadder env config schedule r

/-- The request is pinned throughout or nowhere. An empty value may be read either way. -/
def Consistent : Prop :=
  ∃ pin, (pin = r.provider ∨ r.provider = some "" ∧ pin = none) ∧
    ComesTo env config schedule r c pin

end Pins

section Commands

variable {env : Environ} {config : GatewayConfig} {payload : List (String × Json)} {name : String}

theorem chaosKey_ne (p q : String) :
    Chaos.key p ≠ Breaker.key q ∧ Chaos.key p ≠ Health.key q ∧ Chaos.key p ≠ Queue.key q ∧
      Chaos.key p ≠ Queue.ready := by
  simp [Chaos.key, Breaker.key, Health.key, Queue.key, Queue.ready, ← String.toList_inj]

theorem CallsNone.only {c : Cmd} (h : CallsNone c) : CallsOnly env config payload name c :=
  ⟨fun other hother ↦ absurd hother (h.1 other), fun kwargs hkwargs ↦ absurd hkwargs (h.2 kwargs)⟩

theorem callsNone_inward (c : Cmd) (h : c.inward = true) : CallsNone c := by
  refine ⟨fun other hother ↦ ?_, fun kwargs hkwargs ↦ ?_⟩
  · rw [c.keys_of_quiet (Cmd.quiet_of_inward h)] at hother
    cases hother
  · subst hkwargs
    cases h

theorem callsNone_redis {c : Redis.Command}
    (h : ∀ k ∈ c.keys, ∃ q, k = Breaker.key q ∨ k = Health.key q ∨ k = Queue.key q ∨ k = Queue.ready) :
    CallsNone (.redis c) := by
  refine ⟨fun other hother ↦ ?_, fun kwargs hkwargs ↦ by cases hkwargs⟩
  obtain ⟨q, hq⟩ := h _ hother
  obtain ⟨hbreaker, hhealth, hqueue, hready⟩ := chaosKey_ne other q
  rcases hq with hq | hq | hq | hq
  · exact hbreaker hq
  · exact hhealth hq
  · exact hqueue hq
  · exact hready hq

theorem callsNone_metric (m : Metric) : CallsNone (.metric m) :=
  ⟨fun _ hother ↦ (by cases hother), fun _ hkwargs ↦ (by cases hkwargs)⟩

theorem looks_callsNone : Looks CallsNone where
  inward := callsNone_inward
  breaker := by
    intro c p hc
    refine callsNone_redis (fun k hk ↦ ⟨p, .inl ?_⟩)
    rw [hc] at hk
    exact List.mem_singleton.mp hk
  health := fun p c hc ↦ callsNone_redis (fun k hk ↦ ⟨p, .inr (.inl (hc k hk))⟩)
  circuit := fun _ _ ↦ callsNone_metric _
  observed := fun _ _ ↦ callsNone_metric _

theorem counts_callsNone : Counts CallsNone where
  failover := fun _ _ _ _ ↦ callsNone_metric _
  hedge := fun _ _ ↦ callsNone_metric _

theorem calls_callsOnly : Calls env config payload (CallsOnly env config payload name) name where
  chaos := by
    intro c hc
    refine ⟨fun other hother ↦ ?_, fun kwargs hkwargs ↦ by cases hkwargs⟩
    rw [Cmd.keys, hc, List.mem_singleton] at hother
    exact String.append_right_inj _ |>.mp hother
  completion := by
    intro p hp
    refine ⟨fun other hother ↦ (by cases hother), fun kwargs hkwargs ↦ ⟨p, hp, ?_⟩⟩
    cases hkwargs
    rfl

end Commands

theorem taken_accept (config : GatewayConfig) (metadata : RequestMetadata)
    (request : ChatCompletionRequest) :
    Taken config metadata request.toProviderKwargs (accept config metadata request) where
  calls := by
    refine Only.bind ?_ (fun jobId ↦ trivial)
    refine Only.bind (only_nowMs (callsNone_inward _ rfl)) (fun now ↦ ?_)
    refine Only.bind (only_ask (callsNone_inward _ rfl)) (fun u ↦ ?_)
    refine Only.bind (only_redis (callsNone_redis (fun k hk ↦ ⟨u.hex, ?_⟩))) (fun _ ↦ trivial)
    simp only [Redis.Command.keys, Queue.enqueueWrites, List.map_cons, List.map_nil, Redis.Write.key,
      List.mem_cons, List.not_mem_nil, or_false] at hk
    rcases hk with hk | hk | hk
    · exact .inr (.inr (.inl hk))
    · exact .inr (.inr (.inl hk))
    · exact .inr (.inr (.inr hk))
  enqueues := by
    intro σ h s
    refine ⟨(h .uuid4 (h .time s).2).1.hex, ((h .time s).1 * 1000).floor, ?_⟩
    simp only [accept, Queue.enqueue, nowMs, redis, ask_bind, call_bind, pure_eq, done_bind, trace,
      run_call]
    generalize (h (.redis (.pipeline _)) (h .uuid4 (h .time s).2).2).1 = reply
    cases reply with
    | ok _ => exact ⟨rfl, .inl ⟨_, rfl, rfl⟩⟩
    | error e => exact ⟨rfl, .inr ⟨e, rfl, by simp⟩⟩

section Serve

variable {env : Environ} {config : GatewayConfig} {schedule : RaceSchedule} {r : ChatRequest}
  {c : ClassConfig}

theorem resolveLadder_class {provider : Option String} {requestClass : String}
    (h : provider.filter (· ≠ "") = none) :
    (config.ladderFor env requestClass = [] ∧
      ∃ detail, resolveLadder env config requestClass provider = .error (.http 503 detail)) ∨
    (config.ladderFor env requestClass ≠ [] ∧
      resolveLadder env config requestClass provider = .ok (config.ladderFor env requestClass)) := by
  unfold resolveLadder
  rw [h]
  simp only
  split
  · next hnil => exact .inl ⟨hnil, _, rfl⟩
  · next hne => exact .inr ⟨hne, rfl⟩

theorem resolveLadder_pin {name requestClass : String} (h : name ≠ "") :
    (∃ status detail, (status = 400 ∨ status = 503) ∧
      resolveLadder env config requestClass (some name) = .error (.http status detail)) ∨
    resolveLadder env config requestClass (some name) = .ok [name] := by
  unfold resolveLadder
  rw [Option.filter_some, if_pos (decide_eq_true h)]
  simp only
  cases config.providers.lookup name with
  | none => exact .inl ⟨400, _, .inl rfl, rfl⟩
  | some p =>
    by_cases havailable : p.available env = true
    · exact .inr (if_pos havailable)
    · exact .inl ⟨503, _, .inr rfl, if_neg havailable⟩

theorem serve_taken (hdefers : defers config r = .ok true) :
    serve env config schedule r = accept config r.metadata r.body := by
  simp only [serve, hdefers, ofExcept_ok, done_bind]

theorem serve_walks {ladder : List String} (hdefers : defers config r = .ok false)
    (hladder : resolveLadder env config r.metadata.requestClass r.provider = .ok ladder) :
    serve env config schedule r = (do
      let routed ← route env config r.metadata r.body.toProviderKwargs ladder schedule
      answer r routed) := by
  simp only [serve, hdefers, hladder, ofExcept_ok, done_bind]

theorem serve_turnedAway {status : ℕ} {detail : String} (hdefers : defers config r = .ok false)
    (hstatus : status = 400 ∨ status = 503)
    (hladder : resolveLadder env config r.metadata.requestClass r.provider = .error (.http status detail)) :
    TurnedAway (serve env config schedule r) := by
  refine ⟨status, detail, hstatus, ?_⟩
  simp only [serve, hdefers, hladder, ofExcept_ok, done_bind, ofExcept_error, throw_bind]

theorem defers_some {name : String} (h : r.provider = some name) : defers config r = .ok false := by
  simp [defers, h]

theorem defers_none (hclass : config.classes.lookup r.metadata.requestClass = some c)
    (h : r.provider = none) : defers config r = .ok c.deferrable := by
  simp [defers, h, hclass]

/-- A walk over rungs that are all one provider calls no other. -/
theorem only_serve_rungs {ladder : List String} {name : String} (hdefers : defers config r = .ok false)
    (hladder : resolveLadder env config r.metadata.requestClass r.provider = .ok ladder)
    (hall : ∀ q ∈ ladder, q = name) :
    (serve env config schedule r).Only (CallsOnly env config r.body.toProviderKwargs name) := by
  have hnone : ∀ c, CallsNone c → CallsOnly env config r.body.toProviderKwargs name c :=
    fun _ hc ↦ hc.only
  rw [serve_walks hdefers hladder]
  refine Only.bind (only_routeOf (looks_callsNone.mono hnone) (counts_callsNone.mono hnone)
    (fun q hq ↦ ?_) schedule) (fun routed ↦ ?_)
  · rw [hall q hq]
    exact calls_callsOnly
  · exact only_answer (fun c hc ↦ hnone c (callsNone_inward c hc)) routed

theorem walksOwnLadder (hdefers : defers config r = .ok false)
    (hprovider : r.provider.filter (· ≠ "") = none) : WalksOwnLadder env config schedule r := by
  rcases resolveLadder_class hprovider with ⟨hnil, detail, hladder⟩ | ⟨hne, hladder⟩
  · exact .inl ⟨hnil, serve_turnedAway hdefers (.inr rfl) hladder⟩
  · exact .inr ⟨hne, serve_walks hdefers hladder⟩

theorem comesTo_absent (hclass : config.classes.lookup r.metadata.requestClass = some c)
    (hprovider : r.provider = none) : ComesTo env config schedule r c none := by
  have hdefers := defers_none hclass hprovider
  unfold ComesTo
  cases hdeferrable : c.deferrable with
  | true =>
    rw [hdeferrable] at hdefers
    rw [if_pos rfl, serve_taken hdefers]
    exact taken_accept config r.metadata r.body
  | false =>
    rw [hdeferrable] at hdefers
    rw [if_neg Bool.false_ne_true]
    exact walksOwnLadder hdefers (by rw [hprovider]; rfl)

theorem comesTo_named {name : String} (hname : name ≠ "") (hprovider : r.provider = some name) :
    ComesTo env config schedule r c (some name) := by
  have hdefers : defers config r = .ok false := defers_some hprovider
  rcases @resolveLadder_pin env config name r.metadata.requestClass hname with
    ⟨status, detail, hstatus, hladder⟩ | hladder
  · exact .inl (serve_turnedAway hdefers hstatus (by rw [hprovider]; exact hladder))
  · exact .inr (only_serve_rungs hdefers (by rw [hprovider]; exact hladder) (by simp))

/-- An empty value is a pin to one function and none to the other. -/
theorem not_consistent (hclass : config.classes.lookup r.metadata.requestClass = some c)
    (hempty : r.provider = some "") (hdeferrable : c.deferrable = true)
    (hrung : ∃ name ∈ config.ladderFor env r.metadata.requestClass, name ≠ "") :
    ¬ Consistent env config schedule r c := by
  obtain ⟨name, hmem, hne⟩ := hrung
  rintro ⟨pin, hpin, hcomes⟩
  have honly : (serve env config schedule r).Only
      (CallsOnly env config r.body.toProviderKwargs "") := by
    rcases hpin with rfl | ⟨-, rfl⟩
    · rw [hempty] at hcomes
      rcases hcomes with ⟨status, detail, -, hthrow⟩ | honly
      · rw [hthrow]
        trivial
      · exact honly
    · rw [ComesTo, if_pos hdeferrable] at hcomes
      exact hcomes.calls.mono (fun _ hc ↦ hc.only)
  have hprovider : r.provider.filter (· ≠ "") = none := by
    rw [hempty]
    rfl
  rcases @resolveLadder_class env config _ r.metadata.requestClass hprovider with
    ⟨hnil, -⟩ | ⟨-, hladder⟩
  · rw [hnil] at hmem
    cases hmem
  · rw [serve_walks (defers_some hempty) hladder] at honly
    have hcalled := called_of_only_route hclass (config.ladderFor_known env hmem) hmem honly.left
    exact hne (hcalled.1 name (List.mem_singleton_self _))

/-- A request is pinned throughout or nowhere, unless it pins a deferrable class to the empty
name while the ladder of the class has a rung. -/
theorem consistent_iff (hclass : config.classes.lookup r.metadata.requestClass = some c) :
    Consistent env config schedule r c ↔ ¬ (r.provider = some "" ∧ c.deferrable = true ∧
      ∃ name ∈ config.ladderFor env r.metadata.requestClass, name ≠ "") := by
  refine ⟨fun h hbad ↦ not_consistent hclass hbad.1 hbad.2.1 hbad.2.2 h, fun hnot ↦ ?_⟩
  cases hprovider : r.provider with
  | none => exact ⟨none, .inl hprovider.symm, comesTo_absent hclass hprovider⟩
  | some name =>
    have hdefers : defers config r = .ok false := defers_some hprovider
    by_cases hname : name = ""
    · subst hname
      have hfilter : r.provider.filter (· ≠ "") = none := by
        rw [hprovider]
        rfl
      cases hdeferrable : c.deferrable with
      | true =>
        refine ⟨some "", .inl hprovider.symm, ?_⟩
        rcases resolveLadder_class hfilter with ⟨-, detail, hladder⟩ | ⟨-, hladder⟩
        · exact .inl (serve_turnedAway hdefers (.inr rfl) hladder)
        · refine .inr (only_serve_rungs hdefers hladder (fun q hq ↦ ?_))
          by_contra hne
          exact hnot ⟨hprovider, hdeferrable, q, hq, hne⟩
      | false =>
        refine ⟨none, .inr ⟨hprovider, rfl⟩, ?_⟩
        rw [ComesTo, hdeferrable, if_neg Bool.false_ne_true]
        exact walksOwnLadder hdefers hfilter
    · exact ⟨some name, .inl hprovider.symm, comesTo_named hname hprovider⟩

end Serve

/-- A request of a deferrable class. -/
def batchRequest (provider : Option String) : ChatRequest where
  body := .ofText "hello"
  metadata := ⟨"acme", "reports", "r1", "batch.generate"⟩
  provider

/-- `?provider=` on a deferrable class. -/
theorem emptyPin_not_consistent : ∃ c,
    GatewayConfig.shipped.classes.lookup "batch.generate" = some c ∧ c.deferrable = true ∧
      ¬ Consistent (fun _ ↦ some "key") .shipped ⟨0, [], 0⟩ (batchRequest (some "")) c :=
  ⟨_, rfl, rfl, not_consistent rfl rfl rfl ⟨"anthropic", by decide +kernel, by decide⟩⟩

theorem consistent_iff_groq : ∃ c,
    GatewayConfig.shipped.classes.lookup "batch.generate" = some c ∧
      Consistent (fun _ ↦ some "key") .shipped ⟨0, [], 0⟩ (batchRequest (some "groq")) c :=
  ⟨_, rfl, (consistent_iff rfl).mpr (fun h ↦ absurd h.1 (by decide))⟩

end HealingGateway.Main
