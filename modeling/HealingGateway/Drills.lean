import HealingGateway.Library.Mirrors
import HealingGateway.Service

namespace HealingGateway

open Programs Programs.Prog Numerals JsonText

namespace Chaos

variable {σ : Type}

def isFault (k : String) : Bool := "chaos:".toList.isPrefixOf k.toList

theorem isFault_key (provider : String) : isFault (key provider) = true := by
  simp [isFault, key]

theorem isFault_slotKey (l : String) : isFault (Idempotency.slotKey l) = false := by
  rw [isFault, Idempotency.slotKey, String.toList_append]
  rfl

def faultOf : Except Exn (Option String) → Option ChaosSpec
  | .ok raw => (readRaw raw).toOption.join
  | .error _ => none

/-- A completion by a provider that does what a fault would do to it. -/
def provide (kwargs : List (String × Json)) (fault : Option ChaosSpec) : Gateway Json := do
  Providers.inject fault
  let answer ← ask (Cmd.acompletion kwargs)
  ofExcept answer

/-- Nobody is told of a fault. The provider whose fault was kept quiet does by itself what the fault
would have done to it. -/
def genuine (h : Handler Cmd Reply σ) : Handler Cmd Reply (σ × Option ChaosSpec)
  | .redis (.get k), (s, fault) =>
    let found := h (.redis (.get k)) s
    if isFault k then
      match faultOf found.1 with
      | some spec => (.ok none, found.2, some spec)
      | none => (found.1, found.2, none)
    else (found.1, found.2, fault)
  | .acompletion kwargs, (s, fault) =>
    let ended := (provide kwargs fault).run h s
    (ended.1, ended.2, none)
  | c, (s, fault) => ((h c s).1, (h c s).2, fault)

def heedless : Cmd → Bool
  | .redis (.get k) => !isFault k
  | _ => true

variable {h : Handler Cmd Reply σ} {s : σ}

theorem genuine_heedless {c : Cmd} (hc : heedless c = true) :
    genuine h c (s, none) = ((h c s).1, (h c s).2, none) := by
  cases c with
  | redis c =>
    cases c with
    | get k =>
      have hk : isFault k = false := by simpa [heedless] using hc
      simp [genuine, hk]
    | _ => rfl
  | acompletion kwargs =>
    have hprovide : (provide kwargs none).run h s =
        ((h (.acompletion kwargs) s).1, (h (.acompletion kwargs) s).2) := by
      simp [provide, Providers.inject]
    rw [genuine, hprovide]
  | _ => rfl

theorem genuine_inward {c : Cmd} (hc : c.inward = true) (fault : Option ChaosSpec) :
    genuine h c (s, fault) = ((h c s).1, (h c s).2, fault) := by
  cases c with
  | redis | acompletion | metric => cases hc
  | _ => rfl

theorem mirrors_heedless {α : Type} {p : Gateway α} (hp : p.Only (fun c ↦ heedless c = true)) :
    p.Mirrors h (genuine h) (·, none) :=
  hp.mirrors (fun _ _ hc ↦ genuine_heedless hc)

theorem mirrors_inward {α : Type} {p : Gateway α} (hp : p.Only (fun c ↦ c.inward = true))
    (fault : Option ChaosSpec) : p.Mirrors h (genuine h) (·, fault) :=
  hp.mirrors (fun _ _ hc ↦ genuine_inward hc fault)

theorem run_get_genuine (provider : String) (s : σ) :
    (get provider).run (genuine h) (s, none) =
      match (get provider).run h s with
      | (.ok fault, s') => (.ok none, s', fault)
      | (.error e, s') => (.error e, s', none) := by
  have hgenuine : genuine h (.redis (.get (key provider))) (s, none) =
      match faultOf (h (.redis (.get (key provider))) s).1 with
      | some spec => (.ok none, (h (.redis (.get (key provider))) s).2, some spec)
      | none => ((h (.redis (.get (key provider))) s).1, (h (.redis (.get (key provider))) s).2, none) := by
    rw [genuine, if_pos (isFault_key provider)]
  simp only [get, redis, run_bind, run_ask, run_ofExcept, hgenuine]
  generalize h (.redis (.get (key provider))) s = found
  obtain ⟨reply, s'⟩ := found
  cases reply with
  | error e => rfl
  | ok raw =>
    dsimp only [faultOf]
    cases hraw : readRaw raw with
    | error e =>
      change ((readRaw raw, (s', none)) : Except Exn (Option ChaosSpec) × σ × Option ChaosSpec) = _
      rw [hraw]
    | ok fault =>
      cases fault with
      | none =>
        change ((readRaw raw, (s', none)) : Except Exn (Option ChaosSpec) × σ × Option ChaosSpec) = _
        rw [hraw]
      | some spec => rfl

end Chaos

namespace Providers

variable {σ : Type} {h : Handler Cmd Reply σ}

theorem dispatch_eq (kwargs : List (String × Json)) (fault : Option Chaos.ChaosSpec) :
    dispatch kwargs fault = Chaos.provide kwargs fault >>= fun response ↦ done (.ok response) := by
  simp only [dispatch, Chaos.provide, LawfulMonad.bind_assoc]
  rfl

theorem run_dispatch_genuine (kwargs : List (String × Json)) (fault : Option Chaos.ChaosSpec) (s : σ) :
    (dispatch kwargs none).run (Chaos.genuine h) (s, fault) =
      (((dispatch kwargs fault).run h s).1, ((dispatch kwargs fault).run h s).2, none) := by
  have hask : (Chaos.provide kwargs none).run (Chaos.genuine h) (s, fault) =
      (((Chaos.provide kwargs fault).run h s).1, ((Chaos.provide kwargs fault).run h s).2, none) := by
    simp [Chaos.provide, inject, run_bind, Chaos.genuine]
  rw [dispatch_eq, dispatch_eq, run_bind, run_bind, hask]
  rcases (Chaos.provide kwargs fault).run h s with ⟨e | response, s'⟩
  all_goals rfl

theorem only_succeeded (name : String) (p : ProviderConfig) (started : ℚ) (response : Json) :
    (succeeded name p started response).Only (fun c ↦ c.inward = true) := by
  refine Only.bind (only_ask rfl) (fun _ ↦ ?_)
  exact Only.bind (only_costOf (fun _ h ↦ h) response p.model) (fun _ ↦ trivial)

theorem only_failed (name : String) (p : ProviderConfig) (started : ℚ) (e : Exn) :
    (failed name p started e).Only (fun c ↦ c.inward = true) := by
  refine Only.bind (only_ask rfl) (fun _ ↦ ?_)
  trivial

/-- A provider that is broken on purpose and one that is broken by itself are called alike. -/
theorem run_callProvider_genuine (env : Environ) (name : String) (p : ProviderConfig)
    (payload : List (String × Json)) (fault : Option Chaos.ChaosSpec) (s : σ) :
    (callProvider env name p payload none).run (Chaos.genuine h) (s, fault) =
      (((callProvider env name p payload fault).run h s).1,
        ((callProvider env name p payload fault).run h s).2, none) := by
  have hdispatch : ∀ s, (exceptException (dispatch (kwargs env p payload) none)
        (fun e ↦ return .error e)).run (Chaos.genuine h) (s, fault) =
      (((exceptException (dispatch (kwargs env p payload) fault) (fun e ↦ return .error e)).run h s).1,
        ((exceptException (dispatch (kwargs env p payload) fault) (fun e ↦ return .error e)).run h s).2,
        none) := by
    intro s
    simp only [exceptException, swallow, run_tryExcept, run_guarded, run_dispatch_genuine]
    rcases (dispatch (kwargs env p payload) fault).run h s with ⟨e | answer, s'⟩
    · dsimp only
      split <;> rfl
    · rfl
  simp only [callProvider, run_bind, run_ask, Chaos.genuine_inward (c := .perfCounter) rfl, hdispatch]
  rcases (exceptException (dispatch (kwargs env p payload) fault) (fun e ↦ return .error e)).run h
    (h .perfCounter s).2 with ⟨e | answer, s'⟩
  · rfl
  · cases answer with
    | ok response => exact Chaos.mirrors_inward (only_succeeded name p _ response) none s'
    | error e => exact Chaos.mirrors_inward (only_failed name p _ e) none s'

end Providers

section Mirrors

variable {σ α : Type} {h : Handler Cmd Reply σ} {w : Warrant} {p : Gateway α}

theorem heedless_of_issues (hw : ¬ w.heeds) {c : Cmd} (hc : Issues w c) : Chaos.heedless c = true := by
  cases hc with
  | store hstores =>
    cases hstores with
    | readFault hheeds => exact absurd hheeds hw
    | @readSlot l => simp [Chaos.heedless, Chaos.isFault_slotKey]
    | _ => rfl
  | @inward c hc => cases c <;> first | rfl | cases hc
  | _ => rfl

/-- What heeds no fault goes alike in both worlds. -/
theorem mirrors_within (hw : ¬ w.heeds) (hp : Within w p) :
    p.Mirrors h (Chaos.genuine h) (·, none) :=
  Chaos.mirrors_heedless (hp.mono (fun _ ↦ heedless_of_issues hw))

namespace Router

variable {env : Environ} {config : GatewayConfig} {metadata : RequestMetadata}
  {payload : List (String × Json)}

theorem mirrors_consult (name : String) (provider : ProviderConfig) :
    (Chaos.get name >>= Providers.callProvider env name provider payload).Mirrors h
      (Chaos.genuine h) (·, none) := by
  intro s
  rw [run_bind, run_bind, Chaos.run_get_genuine]
  rcases (Chaos.get name).run h s with ⟨e | fault, s'⟩
  · rfl
  · exact Providers.run_callProvider_genuine env name provider payload fault s'

theorem mirrors_attempt (name : String) :
    (attempt env config metadata payload name).Mirrors h (Chaos.genuine h) (·, none) := by
  have hobserve : ∀ result, Within { observes := fun _ ↦ True } (observe config result metadata) :=
    fun result ↦ within_observe trivial result
  unfold attempt
  cases config.providers.lookup name with
  | none => exact mirrors_throw _
  | some p =>
    rw [orRaise_some, done_bind, ← LawfulMonad.bind_assoc]
    refine (mirrors_consult name p).bind (fun result ↦ ?_)
    exact (mirrors_within id (hobserve result)).bind (fun _ ↦ mirrors_done result)

theorem mirrors_walk (ladder : List String) (i : ℕ) (rest : List String) (attempts : List ProviderCallLog) :
    (walk env config metadata payload ladder i rest attempts).Mirrors h (Chaos.genuine h) (·, none) := by
  induction rest generalizing i attempts with
  | nil => exact mirrors_done _
  | cons name rest ih =>
    unfold walk
    have hallows : Within {} (Breaker.allows config name none) := Breaker.within_allows config name
    refine (mirrors_within id hallows).bind (fun answer ↦ ?_)
    split
    · exact ih _ _
    · refine (mirrors_attempt name).bind (fun result ↦ ?_)
      split
      · exact mirrors_done _
      · have hfailover : Within {} (countFailover name ladder i metadata result) := within_metric rfl
        exact (mirrors_within id hfailover).bind (fun _ ↦ ih _ _)

/-- A class without hedging is served alike in both worlds. -/
theorem mirrors_route (hplain : ∀ c, config.classes.lookup metadata.requestClass = some c → hedges c = false)
    (ladder : List String) (schedule : RaceSchedule) :
    (route env config metadata payload ladder schedule).Mirrors h (Chaos.genuine h) (·, none) := by
  unfold route
  cases hc : config.classes.lookup metadata.requestClass with
  | none => exact mirrors_throw _
  | some c =>
    rw [orRaise_some, done_bind, if_neg (by simp [hplain c hc])]
    exact mirrors_walk ladder 0 ladder []

end Router

namespace Worker

variable {env : Environ} {config : GatewayConfig}

theorem mirrors_drainer {α : Type} {p : Gateway α} (hp : Within drainer p) :
    p.Mirrors h (Chaos.genuine h) (·, none) := mirrors_within id hp

theorem mirrors_run (hplain : ∀ name c, config.classes.lookup name = some c → Router.hedges c = false)
    (schedule : Router.RaceSchedule) (job : Queue.Job) :
    (run env config schedule job).Mirrors h (Chaos.genuine h) (·, none) := by
  unfold run
  split
  · exact mirrors_drainer (within_finish trivial job _ _)
  · refine (Router.mirrors_route (hplain _) _ schedule).bind (fun routed ↦ ?_)
    exact mirrors_drainer (within_conclude config trivial job routed)

theorem mirrors_drain (hplain : ∀ name c, config.classes.lookup name = some c → Router.hedges c = false)
    (schedules : List Router.RaceSchedule) :
    (drain env config schedules).Mirrors h (Chaos.genuine h) (·, none) := by
  have htake : Within drainer take :=
    Only.bind (within_observeDepth trivial) (fun _ ↦ Queue.within_popDue trivial)
  have hround : ∀ schedule, (runOnce env config schedule).Mirrors h (Chaos.genuine h) (·, none) := by
    intro schedule
    refine (mirrors_drainer htake).bind (fun taken ↦ ?_)
    cases taken with
    | none => exact mirrors_done false
    | some job =>
      refine Mirrors.bind ?_ (fun _ ↦ mirrors_done true)
      exact (mirrors_run hplain schedule job).tryFinally (mirrors_drainer (within_observeDepth trivial))
  induction schedules with
  | nil => exact mirrors_done ()
  | cons schedule schedules ih =>
    refine ((hround schedule).swallow (fun _ ↦ mirrors_done false)).bind (fun worked ↦ ?_)
    split
    · exact ih
    · have hsleep : Within drainer (ask (Cmd.sleep config.queue.pollIntervalS.toRat)) :=
        only_ask (.inward rfl)
      exact (mirrors_drainer hsleep).bind (fun slept ↦ (mirrors_ofExcept slept).bind (fun _ ↦ ih))

end Worker

namespace Main

variable {env : Environ} {config : GatewayConfig} {schedule : Router.RaceSchedule} {r : ChatRequest}
  (hplain : ∀ c, config.classes.lookup r.metadata.requestClass = some c → Router.hedges c = false)

include hplain

theorem mirrors_serve : (serve env config schedule r).Mirrors h (Chaos.genuine h) (·, none) := by
  refine (mirrors_ofExcept _).bind (fun deferred ↦ ?_)
  cases deferred with
  | true =>
    have haccept : Within { accepts := fun _ _ ↦ True } (accept config r.metadata r.body) :=
      Only.bind (Queue.within_enqueue config trivial) (fun _ ↦ trivial)
    exact mirrors_within id haccept
  | false =>
    refine (mirrors_ofExcept _).bind (fun ladder ↦ ?_)
    refine (Router.mirrors_route hplain ladder schedule).bind (fun routed ↦ ?_)
    have hanswer : Within {} (answer r routed) := within_answer routed
    exact mirrors_within id hanswer

theorem mirrors_chatCompletions :
    (chatCompletions env config schedule r).Mirrors h (Chaos.genuine h) (·, none) := by
  have hserve : (serve env config schedule r).Mirrors h (Chaos.genuine h) (·, none) := mirrors_serve hplain
  have hslot : ∀ {α : Type} {p : Gateway α}, Within { slots := fun _ _ ↦ True } p →
      p.Mirrors h (Chaos.genuine h) (·, none) := fun hp ↦ mirrors_within id hp
  unfold chatCompletions
  split
  · exact mirrors_throw _
  · cases r.key with
    | none => exact hserve.bind (fun _ ↦ mirrors_done _)
    | some k =>
      refine (hslot (Idempotency.within_claim trivial)).bind (fun stored ↦ ?_)
      cases stored with
      | some stored => exact mirrors_ofExcept _
      | none =>
        have hrelease : (Idempotency.release r.metadata.tenant k).Mirrors h (Chaos.genuine h) (·, none) :=
          hslot (@Idempotency.within_release _ _ _ 0 trivial)
        refine (hserve.tryExcept (fun e ↦ hrelease.bind (fun _ ↦ mirrors_throw e))).bind (fun served ↦ ?_)
        dsimp only
        split
        · exact (hslot (Idempotency.within_store trivial ‹_› _)).bind (fun _ ↦ mirrors_done _)
        · exact hrelease.bind (fun _ ↦ mirrors_done _)

end Main

namespace Service

open Main

variable {env : Environ} {config : GatewayConfig} {encoders : Encoders}

/-- What a task asks for is not hedged, and it does not list the faults themselves. -/
def Task.Unhedged (config : GatewayConfig) : Task → Prop
  | .request ⟨.chat .., headers⟩ => ∀ m, headers.metadata config = .ok m →
      ∀ c, config.classes.lookup m.requestClass = some c → Router.hedges c = false
  | .request ⟨.chaosList, _⟩ => False
  | .worker _ => ∀ name c, config.classes.lookup name = some c → Router.hedges c = false
  | _ => True

theorem mirrors_chat (schedule : Router.RaceSchedule) (body : Schemas.ChatCompletionRequest)
    (provider : Option String) (headers : Headers)
    (hplain : Task.Unhedged config (.request ⟨.chat schedule body provider, headers⟩)) :
    (answerTo (Request.endpoint env config encoders ⟨.chat schedule body provider, headers⟩)).Mirrors h
      (Chaos.genuine h) (·, none) := by
  have hcount : ∀ route status, (metric (.response route status)).Mirrors h (Chaos.genuine h) (·, none) :=
    fun route status ↦ Chaos.mirrors_heedless (only_ask rfl)
  have hhandle : (Request.handle env config encoders ⟨.chat schedule body provider, headers⟩).Mirrors h
      (Chaos.genuine h) (·, none) := by
    change (ofExcept (headers.metadata config) >>= _).Mirrors _ _ _
    cases hm : headers.metadata config with
    | error e => exact mirrors_throw e
    | ok m => exact mirrors_chatCompletions (hplain m hm)
  refine Mirrors.tryExcept ?_ (fun _ ↦ mirrors_done _)
  refine (hhandle.tryExcept (fun _ ↦ mirrors_done _)).bind (fun response ↦ ?_)
  exact (hcount _ _).bind (fun _ ↦ mirrors_done _)

/-- Whatever answers the commands of a task that is not hedged, a provider that is broken on purpose
is to it as one that is broken by itself: the task ends alike, and everything it leaves behind is
alike. -/
theorem faults_genuine {task : Task} (htask : task.Unhedged config) (h : Handler Cmd Reply σ) (s : σ) :
    (task.body env config encoders).run (Chaos.genuine h) (s, none) =
      (((task.body env config encoders).run h s).1, ((task.body env config encoders).run h s).2, none) := by
  suffices hmirrors : (task.body env config encoders).Mirrors h (Chaos.genuine h) (·, none) from hmirrors s
  have hheedless : ¬ (task.warrant env config).heeds →
      (task.body env config encoders).Mirrors h (Chaos.genuine h) (·, none) :=
    fun hw ↦ mirrors_within hw (task.within_body env config encoders)
  cases task with
  | lifespan => exact hheedless id
  | worker schedules =>
    have hseed : Within {} (Breaker.seedGauge config (providerNames config)) :=
      Breaker.within_seedGauge config _
    refine Mirrors.bind ?_ (fun _ ↦ mirrors_done _)
    exact (mirrors_within id hseed).bind (fun _ ↦ Worker.mirrors_drain htask schedules)
  | request q =>
    obtain ⟨route, headers⟩ := q
    cases route with
    | chat schedule body provider =>
      exact (mirrors_chat schedule body provider headers htask).bind (fun _ ↦ mirrors_done _)
    | chaosList => exact htask.elim
    | _ => exact hheedless id

end Service

end Mirrors

namespace Service

def rehearsal : Task :=
  .request ⟨.chat ⟨0, [], 0⟩ (.ofText "hello") none,
    { xTenantId := some "acme", xFeature := some "support-bot", xRequestId := some "r-1",
      xRequestClass := some "interactive.chat" }⟩

def brokenAnthropic : Chaos.ChaosSpec := { provider := "anthropic", errorRate := ⟨10, 0⟩ }

def rehearsalDb : Redis.Db :=
  Function.update (fun _ ↦ none) (Chaos.key "anthropic")
    (some ⟨.str (dumps brokenAnthropic.asDict), some 120000⟩)

theorem unhedged_rehearsal : rehearsal.Unhedged .shipped := by
  intro m hm c hc
  obtain rfl := Except.ok.inj hm
  obtain rfl := Option.some.inj hc
  rfl

theorem faults_genuine_rehearsal :
    ((rehearsal.body (fun _ ↦ some "key") .shipped {}).run
      (Chaos.genuine (Outside.answers { now := 0 })) (rehearsalDb, none)).2.1 =
        ((rehearsal.body (fun _ ↦ some "key") .shipped {}).run (Outside.answers { now := 0 })
          rehearsalDb).2 := by
  rw [faults_genuine unhedged_rehearsal]

end Service

end HealingGateway
