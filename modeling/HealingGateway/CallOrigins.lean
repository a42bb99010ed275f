import HealingGateway.AnswerOrigins

namespace HealingGateway

open Programs Programs.Prog JsonText Queue Service

def Works : Cmd → Prop
  | .acompletion _ => True
  | .metric (.observe _ _) => True
  | _ => False

theorem not_works_of_issues {w : Warrant} (hs : ∀ kwargs, ¬ w.sends kwargs) (ho : ∀ m, ¬ w.observes m) {c : Cmd}
    (h : Issues w c) : ¬ Works c := by
  cases h with
  | dispatch h => exact absurd h (hs _)
  | observe _ h => exact absurd h (ho _)
  | @inward c h => cases c <;> first | exact id | cases h
  | @count m h => cases m <;> first | exact id | cases h
  | store | respond => exact id

/-- Whoever works for a request calls the rungs of a ladder with its payload, and books what came of
these calls under its caller. -/
def Books (env : Environ) (config : GatewayConfig) (ladder : List String) (metadata : RequestMetadata)
    (payload : List (String × Json)) (v : Seen) : Cmd → Prop
  | .acompletion kwargs => Router.Sends env config ladder payload kwargs
  | .metric (.observe result m) => m = metadata ∧ result.provider ∈ ladder ∧
      Stems env config payload (Asked v) result
  | _ => True

section Booking

variable {env : Environ} {config : GatewayConfig} {ladder : List String} {metadata : RequestMetadata}
  {payload : List (String × Json)} {v : Seen}

theorem lasting_books : Lasting (Books env config ladder metadata payload) := by
  intro v v' c hv h
  unfold Books at h ⊢
  split at h
  · exact h
  · exact ⟨h.1, h.2.1, h.2.2.mono (Asked.mono hv)⟩
  · trivial

theorem books_of_not_works {c : Cmd} (h : ¬ Works c) : Books env config ladder metadata payload v c := by
  unfold Books
  split
  · exact absurd trivial h
  · exact absurd trivial h
  · trivial

theorem books_of_issues {w : Warrant} (hs : ∀ kwargs, ¬ w.sends kwargs) (ho : ∀ m, ¬ w.observes m) {c : Cmd}
    (h : Issues w c) : Books env config ladder metadata payload v c :=
  books_of_not_works (not_works_of_issues hs ho h)

/-- A walk books nothing but what came of its own calls. -/
theorem books_route (schedule : Router.RaceSchedule) :
    (Router.route env config metadata payload ladder schedule).Abides
      (Books env config ladder metadata payload) v
      (Router.ServesAs (fun v ↦ Stems env config payload (Asked v))) := by
  have hbetween : ∀ v c, Issues { heeds := True } c → Books env config ladder metadata payload v c :=
    fun _ _ hc ↦ books_of_issues (fun _ ↦ id) (fun _ ↦ id) hc
  refine Router.abides_route hbetween (fun provider hrung v ↦ ?_) lasting_books lasting_stems schedule v
  refine Router.abides_attempt hbetween (fun v p hp ↦ ⟨provider, hrung, p, hp, rfl⟩) (fun v result hname h ↦ ?_) v
  exact ⟨rfl, hname.symm ▸ hrung, h⟩

end Booking

namespace Main

open Idempotency

section Requests

variable {env : Environ} {config : GatewayConfig} {schedule : Router.RaceSchedule} {r : ChatRequest}
  {v : Seen}

def ChatRequest.rungs (env : Environ) (config : GatewayConfig) (r : ChatRequest) : List String :=
  (resolveLadder env config r.metadata.requestClass r.provider).toOption.getD []

abbrev ChatRequest.Books (env : Environ) (config : GatewayConfig) (r : ChatRequest) : Seen → Cmd → Prop :=
  HealingGateway.Books env config (r.rungs env config) r.metadata r.body.toProviderKwargs

def fronting : Warrant where
  slots := fun _ _ ↦ True
  accepts := fun _ _ ↦ True

theorem abides_fronting {α : Type} {p : Gateway α} (h : Within fronting p) (v : Seen) :
    p.Abides (r.Books env config) v (fun _ _ ↦ True) :=
  h.abides (fun _ _ ↦ books_of_issues (fun _ ↦ id) (fun _ ↦ id)) v

theorem books_serve : (serve env config schedule r).Abides (r.Books env config) v (fun _ _ ↦ True) := by
  refine (abides_fronting (only_ofExcept _) v).bind (fun v deferred _ _ ↦ ?_)
  cases deferred with
  | true =>
    have haccepts : fronting.accepts r.metadata r.body.toProviderKwargs := trivial
    exact abides_fronting (Only.bind (Queue.within_enqueue config haccepts) (fun _ ↦ only_done _)) v
  | false =>
    cases hladder : resolveLadder env config r.metadata.requestClass r.provider with
    | error e => exact abides_throw e
    | ok ladder =>
      have hrungs : r.rungs env config = ladder := by rw [ChatRequest.rungs, hladder]; rfl
      have hroute : (Router.route env config r.metadata r.body.toProviderKwargs ladder schedule).Abides
          (r.Books env config) v (Router.ServesAs (fun v ↦ Stems env config r.body.toProviderKwargs (Asked v))) := by
        rw [ChatRequest.Books, hrungs]
        exact books_route schedule
      exact hroute.bind (fun v routed _ _ ↦ abides_fronting (within_answer routed) v)

theorem books_chatCompletions :
    (chatCompletions env config schedule r).Abides (r.Books env config) v (fun _ _ ↦ True) := by
  unfold chatCompletions
  split
  · exact abides_throw _
  · cases r.key with
    | none => exact books_serve.bind (fun v _ _ _ ↦ abides_done.mpr trivial)
    | some k =>
      have hslot : fronting.slots (Idempotency.label r.metadata.tenant k) config.queue.idempotencyTtlS := trivial
      have hrelease : Within fronting (release r.metadata.tenant k) := within_release hslot
      refine (abides_fronting (within_claim hslot) v).bind (fun v stored _ _ ↦ ?_)
      cases stored with
      | some stored => exact abides_fronting (only_ofExcept _) v
      | none =>
        refine (books_serve.tryExcept (fun v e _ ↦ abides_fronting (hrelease.bind (fun _ ↦ only_throw _)) v)).bind
          (fun v served _ _ ↦ abides_fronting ?_ v)
        dsimp only
        split
        · exact Only.bind (within_store hslot ‹_› _) (fun _ ↦ trivial)
        · exact Only.bind hrelease (fun _ ↦ trivial)

end Requests

end Main

namespace Service

section Workers

variable {env : Environ} {config : GatewayConfig} {encoders : Main.Encoders} {v since : Seen} {job : Job}

/-- A worker works for the job whose record it has read last, and from what it was told since. -/
def worksOn (env : Environ) (config : GatewayConfig) (v : Seen) (c : Cmd) : Prop :=
  Works c → ∃ job since, Took v job since ∧
    Books env config (Worker.ladder env config job) job.metadata job.payload since c

theorem worksOn_of_drainer {c : Cmd} (h : Issues drainer c) : worksOn env config v c :=
  fun hworks ↦ absurd hworks (not_works_of_issues (fun _ ↦ id) (fun _ ↦ id) h)

theorem unread_of_walks {c : Cmd} (h : Router.Walks c) : Unread c := by
  rintro id rfl
  obtain ⟨p, hkey⟩ := h.1 (Queue.key id) (List.mem_singleton_self _)
  have hjob : Queue.key id = (Key.job id).text := rfl
  obtain hkey | hkey | hkey := hkey
  · cases Key.text_injective (hjob.symm.trans (hkey.trans (show _ = (Key.circuit p).text from rfl)))
  · cases Key.text_injective (hjob.symm.trans (hkey.trans (show _ = (Key.window p).text from rfl)))
  · cases Key.text_injective (hjob.symm.trans (hkey.trans (show _ = (Key.fault p).text from rfl)))

theorem worksOn_run (schedule : Router.RaceSchedule) (h : Took v job since) :
    (Worker.run env config schedule job).Obeys (remembering (worksOn env config)) v (fun _ _ ↦ True) := by
  have hquiet : ∀ {p : Gateway Unit} (v : Seen), Within drainer p →
      p.Obeys (remembering (worksOn env config)) v (fun _ _ ↦ True) :=
    fun v hp ↦ hp.obeys (fun _ _ ↦ worksOn_of_drainer) v
  unfold Worker.run
  split
  · exact hquiet v (Worker.within_finish trivial job _ _)
  · obtain ⟨id, raw, older, rfl, hjob, hunread⟩ := h
    refine Obeys.andThen ((books_route schedule).upon
      ((Router.only_route schedule).mono (fun _ ↦ unread_of_walks)) hunread ?_)
      (fun v routed ↦ hquiet v (Worker.within_conclude config trivial job routed)) (fun _ _ ↦ trivial)
    exact fun v c hv hbooks _ ↦ ⟨job, v, ⟨id, raw, older, rfl, hjob, hv⟩, hbooks⟩

theorem worksOn_worker (schedules : List Router.RaceSchedule) :
    ((Task.worker schedules).body env config encoders).Obeys (remembering (worksOn env config)) []
      (fun _ _ ↦ True) := by
  have hseed : Within drainer (Breaker.seedGauge config (Main.providerNames config)) :=
    Breaker.within_seedGauge config _
  have hstart := hseed.obeys (π := remembering (worksOn env config)) (fun _ _ ↦ worksOn_of_drainer) []
  refine Obeys.andThen (hstart.andThen (fun v _ ↦ ?_) (fun _ _ ↦ trivial)) (fun _ _ ↦ trivial)
    (fun _ _ ↦ trivial)
  exact obeys_rounds (fun _ _ hc ↦ worksOn_of_drainer hc.1) (fun _ _ _ schedule h ↦ worksOn_run schedule h)
    schedules v

end Workers

section Attribution

variable {env : Environ} {config : GatewayConfig} {encoders : Main.Encoders} {ι : Type} [DecidableEq ι]
  {tasks : ι → Task} {turns : List (ι × (Outside × Fate))}

/-- What a task has done for a request: all that it did, if the request is its own, and what it did
since it read the job's record, the last it read, if the request was accepted as a job before. -/
inductive Serves (config : GatewayConfig) (tasks : ι → Task) (before : List (Deed ι)) (i : ι)
    (c : Main.ChatRequest) : List (Deed ι) → Prop
  | own (h : (tasks i).Asks config c) : Serves config tasks before i c before
  | deferred {schedules : List Router.RaceSchedule} (hi : tasks i = .worker schedules)
      {earlier since : List (Deed ι)} {o : Outside × Fate} {g : Bool} {raw : List (String × String)}
      {x : Acceptance} {job : Job}
      (hread : before = earlier ++ ⟨i, o, g, .redis (.hgetall (key x.id)), .ok raw⟩ :: since)
      (hjob : jobOf raw = .ok (some job)) (hbecame : x.Became job)
      (hlast : ∀ d ∈ since, d.thread = i → Unread d.cmd) {a : Deed ι} (ha : a ∈ earlier) (hx : accepts a x)
      (h : Deferred config (tasks a.thread) c x) : Serves config tasks before i c since

/-- A result is what came of a call to a rung of a request's ladder, with the request's payload. -/
structure Accounts (env : Environ) (config : GatewayConfig) (c : Main.ChatRequest) (told : Told)
    (result : ProviderResult) : Prop where
  rung : ∃ ladder, Main.resolveLadder env config c.metadata.requestClass c.provider = .ok ladder ∧
    result.provider ∈ ladder
  stems : Stems env config c.body.toProviderKwargs told result

theorem resolveLadder_of_rungs {c : Main.ChatRequest} {name : String} (h : name ∈ c.rungs env config) :
    Main.resolveLadder env config c.metadata.requestClass c.provider = .ok (c.rungs env config) := by
  unfold Main.ChatRequest.rungs at h ⊢
  cases hladder : Main.resolveLadder env config c.metadata.requestClass c.provider with
  | error e =>
    rw [hladder] at h
    cases h
  | ok ladder => rfl

theorem Task.asks_of_works {task : Task} (hapi : ∀ schedules, task ≠ .worker schedules) {c : Cmd}
    (h : Issues (task.warrant env config) c) (hc : Works c) : ∃ r, task.Asks config r := by
  cases task with
  | lifespan => exact absurd hc (not_works_of_issues (fun _ ↦ id) (fun _ ↦ id) h)
  | worker schedules => exact absurd rfl (hapi schedules)
  | request q =>
    obtain ⟨route, headers⟩ := q
    cases route with
    | chat schedule body provider =>
      have hm : ∃ m, headers.metadata config = .ok m := by
        by_contra hm
        refine not_works_of_issues (fun kwargs hs ↦ ?_) (fun m ho ↦ hm ⟨m, ho⟩) h hc
        obtain ⟨m, hm', -⟩ := hs
        exact hm ⟨m, hm'⟩
      obtain ⟨m, hm⟩ := hm
      exact ⟨_, .intro schedule body provider headers hm⟩
    | _ => exact absurd hc (not_works_of_issues (fun _ ↦ id) (fun _ ↦ id) h)

theorem books_of_asks {before later : List (Deed ι)} {a : Deed ι} {c : Main.ChatRequest}
    (h : deeds env config encoders tasks turns = before ++ a :: later) (hc : (tasks a.thread).Asks config c) :
    c.Books env config ((remembering (c.Books env config)).after [] (Pool.share a.thread before)) a.cmd := by
  have hobeys : ((tasks a.thread).body env config encoders).Obeys (remembering (c.Books env config)) []
      (fun _ _ ↦ True) := by
    generalize tasks a.thread = task at hc
    cases hc with
    | intro schedule body provider headers hm =>
      refine Obeys.mono (obeys_request (P := fun _ _ ↦ True) (fun _ _ _ _ h ↦ h) (fun _ _ _ ↦ trivial) ?_)
        (fun _ _ _ ↦ trivial)
      change (ofExcept (headers.metadata config) >>= _).Obeys _ _ _
      rw [hm]
      exact Main.books_chatCompletions
  exact Pool.allowed_of_acts h hobeys (fun _ _ _ ↦ trivial)

/-- What a worker works for was accepted as a job before its record was read. -/
theorem serves_of_took {before later : List (Deed ι)} {a : Deed ι} {schedules : List Router.RaceSchedule}
    {allowed : Seen → Cmd → Prop} {job : Job} {seen : Seen}
    (h : deeds env config encoders tasks turns = before ++ a :: later) (htask : tasks a.thread = .worker schedules)
    (htook : Took ((remembering allowed).after [] (Pool.share a.thread before)) job seen) :
    ∃ c since x i, Serves config tasks before a.thread c since ∧ Deferred config (tasks i) c x ∧ x.Became job ∧
      ∀ c r, Asked seen c r → toldTo since a.thread c r := by
  obtain ⟨id, raw, older, hafter, hjob, hunread⟩ := htook
  obtain ⟨earlier, o, g, since, rfl, rfl⟩ := Pool.exists_of_after_remembering hafter
  rw [List.append_assoc, List.cons_append] at h
  obtain ⟨b, hb, x, c, hx, rfl, hbecame, hc⟩ := accepted_of_read h hjob
  refine ⟨c, since, x, b.thread, .deferred htask rfl hjob hbecame (fun d hd hi ↦ ?_) hb hx hc, hc, hbecame,
    toldTo_of_asked⟩
  rw [← hi] at hunread
  exact hunread _ (Pool.remembered_of_mem hd)

/-- Whoever calls a provider or books a call does so for a request it serves, and from what it was told
since it took that up. -/
theorem books_of_works {before later : List (Deed ι)} {a : Deed ι}
    (h : deeds env config encoders tasks turns = before ++ a :: later) (hworks : Works a.cmd) :
    ∃ c since v ladder, Serves config tasks before a.thread c since ∧
      (∀ c r, Asked v c r → toldTo since a.thread c r) ∧
      (∀ name ∈ ladder, Main.resolveLadder env config c.metadata.requestClass c.provider = .ok ladder) ∧
      Books env config ladder c.metadata c.body.toProviderKwargs v a.cmd := by
  by_cases hworker : ∃ schedules, tasks a.thread = .worker schedules
  · obtain ⟨schedules, htask⟩ := hworker
    have hobeys : ((tasks a.thread).body env config encoders).Obeys (remembering (worksOn env config)) []
        (fun _ _ ↦ True) := by
      rw [htask]
      exact worksOn_worker schedules
    obtain ⟨job, seen, htook, hbooks⟩ := Pool.allowed_of_acts h hobeys (fun _ _ _ ↦ trivial) hworks
    obtain ⟨c, since, x, i, hserves, hc, hbecame, htold⟩ := serves_of_took h htask htook
    rw [hbecame.metadata, hbecame.payload, hc.metadata, hc.payload] at hbooks
    exact ⟨c, since, seen, _, hserves, htold, fun _ ↦ resolveLadder_of_became hc hbecame, hbooks⟩
  · have hissues := within_deeds env config encoders tasks turns a (by simp [h])
    obtain ⟨c, hc⟩ := Task.asks_of_works (fun schedules htask ↦ hworker ⟨schedules, htask⟩) hissues hworks
    exact ⟨c, before, _, _, .own hc, toldTo_of_asked, fun _ ↦ resolveLadder_of_rungs, books_of_asks h hc⟩

end Attribution

def noonTurns : List (Party × (Outside × Fate)) :=
  (List.range 32).map (fun n ↦
    (if n < 4 then .caller else .worker, { now := n, completion := fun _ ↦ .ok reply }, .answered))

def noonDeeds : List (Deed Party) := deeds (fun _ ↦ some "key") .shipped {} morning noonTurns

def observes : Cmd → Bool
  | .metric (.observe _ _) => true
  | _ => false

theorem calls_noon : noonDeeds[27]?.any (fun a ↦ a.thread == .worker && Worker.calls a.cmd) = true ∧
    noonDeeds[31]?.any (fun a ↦ a.thread == .worker && observes a.cmd) = true := by
  decide +kernel

theorem split_of_any {α : Type} {as : List α} {n : ℕ} {p : α → Bool} (h : as[n]?.any p = true) :
    ∃ a, as = as.take n ++ a :: as.drop (n + 1) ∧ p a = true := by
  obtain ⟨a, ha, hp⟩ := (Option.any_eq_true _ _).mp h
  obtain ⟨hlength, rfl⟩ := List.getElem?_eq_some_iff.mp ha
  exact ⟨as[n], by rw [List.getElem_cons_drop, List.take_append_drop], hp⟩

end Service

end HealingGateway
