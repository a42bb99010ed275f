import HealingGateway.AnswerOrigins

namespace HealingGateway.Service

open Programs Programs.Prog JsonText Queue Worker

section Results

variable {env : Environ} {config : GatewayConfig} {v : Seen}

/-- A worker writes no result but what a provider answered to the job's payload. -/
def vouches (env : Environ) (config : GatewayConfig) (v : Seen) : Cmd → Prop
  | .redis (.write (.hset k fields)) => ∀ text, ("result", text) ∈ fields → ∃ job body, Knows v job ∧
      k = Queue.key job.id ∧ text = dumps body ∧
      Rendered env config job.metadata job.payload (Asked v) body
  | _ => True

theorem vouches_of_unresulted {c : Cmd} (h : Unresulted c) : vouches env config v c := by
  unfold vouches
  split
  · exact fun text hmem ↦ absurd hmem (h text)
  · trivial

theorem unresulted_of_issues {w : Warrant} (hw : ¬ w.drains) {c : Cmd} (h : Issues w c) : Unresulted c := by
  cases h with
  | @inward c h => cases c <;> trivial
  | @store c h =>
    cases h with
    | moveCircuit p circuit cooldownS =>
      intro text hmem
      cases circuit <;> simp [Breaker.fields] at hmem
    | countProbe p n => exact fun text hmem ↦ by simp at hmem
    | updateJob h | putJob h | buryJob h => exact absurd h hw
    | _ => trivial
  | dispatch | observe | respond | count => trivial

theorem vouches_conclude {job : Job} (hv : Knows v job) {routed : Router.RouteOutcome}
    (h : Router.ServesAs (fun v ↦ Genuine env config job.payload (Asked v)) v routed) :
    (conclude config job routed).Obeys (remembering (vouches env config)) v (fun _ _ ↦ True) := by
  have hquiet : ∀ {p : Gateway Unit} (v : Seen), p.Only Unresulted →
      p.Obeys (remembering (vouches env config)) v (fun _ _ ↦ True) :=
    fun v hp ↦ hp.obeys (fun _ _ hc ↦ vouches_of_unresulted hc) v
  unfold conclude
  split
  · exact hquiet v (unresulted_exhausted config job routed)
  · next result hresult =>
    split
    · next hok =>
      have hrendered : (Schemas.toOpenaiResponse result job.metadata routed.attempts).Recalls v
          (fun v out ↦ Rendered env config job.metadata job.payload (Asked v) out.asJson) :=
        recalls_rendered hok (h result (Option.mem_def.mpr hresult)) routed.attempts
      have hinward : ∀ v c, c.inward = true → vouches env config v c :=
        fun v c hc ↦ vouches_of_unresulted (by cases c <;> trivial)
      have hshown := hrendered.permitted (Schemas.only_toOpenaiResponse result job.metadata _) hinward
      refine (Obeys.grows hshown).bind (fun v' out hout ↦ ?_) (fun _ _ _ ↦ trivial)
      have hbody := hout.2 out rfl
      refine Obeys.andThen ?_ (fun v _ ↦ hquiet v (unresulted_observeAge job _)) (fun _ _ ↦ trivial)
      refine ⟨trivial, fun now _ ↦ ⟨fun text hmem ↦ ?_, fun reply _ ↦ by cases reply <;> trivial⟩⟩
      obtain rfl : text = dumps out.asJson := by simpa using hmem
      exact ⟨job, out.asJson, hv.mono (List.Subset.trans hout.1 (List.subset_cons_self _ _)), rfl, rfl,
        hbody.mono (Asked.mono (List.subset_cons_self _ _))⟩
    · split
      · exact hquiet v (unresulted_finish job _ _)
      · exact hquiet v (unresulted_exhausted config job routed)

theorem vouches_run {job : Job} (schedule : Router.RaceSchedule) (hv : Knows v job) :
    (Worker.run env config schedule job).Obeys (remembering (vouches env config)) v (fun _ _ ↦ True) := by
  unfold Worker.run
  split
  · exact (unresulted_finish job _ _).obeys (fun _ _ hc ↦ vouches_of_unresulted hc) v
  · have hwithin : Within { observes := fun _ ↦ True, sends := fun _ ↦ True, heeds := True }
        (Router.route env config job.metadata job.payload (ladder env config job) schedule) :=
      Router.within_route trivial trivial (fun _ _ ↦ trivial) schedule
    have hrecalls :
        (Router.route env config job.metadata job.payload (ladder env config job) schedule).Recalls v
          (Router.ServesAs (fun v ↦ Genuine env config job.payload (Asked v))) :=
      Router.recalls_genuine schedule
    have hquiet : ∀ v c, Issues { observes := fun _ ↦ True, sends := fun _ ↦ True, heeds := True } c →
        vouches env config v c :=
      fun v c hc ↦ vouches_of_unresulted (unresulted_of_issues id hc)
    exact (Obeys.grows (hrecalls.permitted hwithin hquiet)).bind
      (fun v' routed hrouted ↦ vouches_conclude (hv.mono hrouted.1) (hrouted.2 routed rfl))
      (fun _ _ _ ↦ trivial)

theorem vouches_worker (encoders : Main.Encoders) (schedules : List Router.RaceSchedule) :
    ((Task.worker schedules).body env config encoders).Obeys (remembering (vouches env config)) []
      (fun _ _ ↦ True) := by
  have hseed : Within {} (Breaker.seedGauge config (Main.providerNames config)) :=
    Breaker.within_seedGauge config _
  have hstart := hseed.obeys (π := remembering (vouches env config))
    (fun v c hc ↦ vouches_of_unresulted (unresulted_of_issues id hc)) []
  refine Obeys.andThen (hstart.andThen (fun v _ ↦ ?_) (fun _ _ ↦ trivial))
    (fun _ _ ↦ trivial) (fun _ _ ↦ trivial)
  exact obeys_rounds (fun _ _ hc ↦ vouches_of_unresulted hc.2)
    (fun _ _ _ schedule hv ↦ vouches_run schedule hv.knows)
    schedules v

end Results

section Polls

variable {env : Environ} {config : GatewayConfig} {encoders : Main.Encoders} {ι : Type} [DecidableEq ι]
  {tasks : ι → Task} {turns : List (ι × (Outside × Fate))}

theorem jobKey_injective : Function.Injective Queue.key := fun _ _ h ↦ Key.job.inj (Key.text_injective h)

theorem worker_of_result {a : Deed ι} (ha : a ∈ deeds env config encoders tasks turns)
    {c : Redis.Command} (hc : a.cmd = .redis c) {jobId text : String}
    (hputs : Redis.Puts (Queue.key jobId) c (.field "result" text))
    (htext : text ≠ "") : ∃ schedules fields, tasks a.thread = .worker schedules ∧
      a.cmd = .redis (.write (.hset (Queue.key jobId) fields)) ∧ ("result", text) ∈ fields := by
  have hissues := within_deeds env config encoders tasks turns a ha
  have hdrains : ((tasks a.thread).warrant env config).drains →
      ∃ schedules, tasks a.thread = .worker schedules := by
    intro hdrains
    generalize tasks a.thread = task at hdrains
    cases task with
    | lifespan => exact hdrains.elim
    | worker schedules => exact ⟨schedules, rfl⟩
    | request q =>
      obtain ⟨route, headers⟩ := q
      cases route <;> exact hdrains.elim
  rw [hc] at hissues ⊢
  cases hputs with
  | @write fields _ _ hmem =>
    generalize hcmd : Redis.Command.write (.hset (Queue.key jobId) fields) = cmd at hissues
    have hworker : ((tasks a.thread).warrant env config).drains := by
      by_contra hdrains
      have hquiet := unresulted_of_issues hdrains hissues
      rw [← hcmd] at hquiet
      exact hquiet text hmem
    obtain ⟨schedules, htask⟩ := hdrains hworker
    exact ⟨schedules, fields, htask, congrArg Cmd.redis hcmd.symm, hmem⟩
  | @pipeline ws fields _ _ hw hmem =>
    generalize hcmd : Redis.Command.pipeline ws = cmd at hissues
    cases hissues with
    | inward h => subst hcmd; cases h
    | store h =>
      cases h with
      | acceptJob config' id h now =>
        cases hcmd
        simp only [enqueueWrites, List.mem_cons, Redis.Write.hset.injEq, reduceCtorEq, List.not_mem_nil,
          or_false] at hw
        rw [hw.2] at hmem
        exact absurd (by simpa [newRecord] using hmem) htext
      | noteCall p s window =>
        cases hcmd
        simp [Health.recordWrites] at hw
      | _ => cases hcmd

/-- A result is what a provider answered a worker, for a job of that id. -/
theorem rendered_of_puts {a : Deed ι} (ha : a ∈ deeds env config encoders tasks turns)
    {c : Redis.Command} (hc : a.cmd = .redis c) {jobId text : String}
    (hputs : Redis.Puts (Queue.key jobId) c (.field "result" text)) (htext : text ≠ "") :
    ∃ body, text = dumps body ∧
      ∃ b ∈ deeds env config encoders tasks turns, ∃ x q, accepts b x ∧ x.id = jobId ∧
      Deferred config (tasks b.thread) q x ∧ ∃ j schedules, tasks j = .worker schedules ∧
        Rendered env config q.metadata q.body.toProviderKwargs
          (toldTo (deeds env config encoders tasks turns) j) body := by
  obtain ⟨schedules, fields, htask, hwrite, hfield⟩ := worker_of_result ha hc hputs htext
  obtain ⟨earlier, since, hsplit⟩ := List.append_of_mem ha
  have hworker : ((tasks a.thread).body env config encoders).Obeys (remembering (vouches env config)) []
      (fun _ _ ↦ True) := by
    rw [htask]
    exact vouches_worker encoders schedules
  have hallowed := Pool.allowed_of_acts hsplit hworker (fun _ _ _ ↦ trivial)
  rw [hwrite] at hallowed
  obtain ⟨job, body, ⟨id, hreads⟩, hkey, hdumps, hrendered⟩ := hallowed text hfield
  obtain ⟨b, hb, x, q, hx, hid, hbecame, hdeferred⟩ := accepted_of_reads hsplit hreads
  refine ⟨body, hdumps, b, by simp [hsplit, hb], x, q, hx, ?_, hdeferred, a.thread, schedules, htask, ?_⟩
  · rw [jobKey_injective hkey, hbecame.id]
  · rw [hbecame.metadata, hbecame.payload, hdeferred.metadata, hdeferred.payload] at hrendered
    rw [hsplit]
    exact hrendered.mono (fun c r hr ↦ toldTo_append _ (toldTo_of_asked c r hr))

/-- Whatever result is stored for a job is what a provider answered a worker, for a job of that id. -/
theorem results_genuine {jobId text : String}
    (hstored : Redis.Stored (after env config encoders tasks turns).store (Queue.key jobId)
      (.field "result" text)) (htext : text ≠ "") :
    ∃ body, text = dumps body ∧
      ∃ a ∈ deeds env config encoders tasks turns, ∃ x c, accepts a x ∧ x.id = jobId ∧
      Deferred config (tasks a.thread) c x ∧ ∃ j schedules, tasks j = .worker schedules ∧
        Rendered env config c.metadata c.body.toProviderKwargs
          (toldTo (deeds env config encoders tasks turns) j) body := by
  obtain ⟨a, ha, c, hc, hputs⟩ := put_of_stored hstored
  exact rendered_of_puts ha hc hputs htext

end Polls

def workedTurns : List (Party × (Outside × Fate)) :=
  (List.range 43).map (fun n ↦
    (if n < 4 then .caller else .worker, { now := n, completion := fun _ ↦ .ok reply }, .answered))

def workedDeeds : List (Deed Party) := deeds (fun _ ↦ some "key") .shipped {} morning workedTurns

def storesResult (db : Redis.Db) (jobId : String) : Bool :=
  match db (Queue.key jobId) with
  | some ⟨.hash raw, _⟩ => (raw.lookup "result").any (fun text ↦ text != "")
  | _ => false

theorem stored_of_storesResult {db : Redis.Db} {jobId : String} (h : storesResult db jobId = true) :
    ∃ text, Redis.Stored db (Queue.key jobId) (.field "result" text) ∧ text ≠ "" := by
  unfold storesResult at h
  split at h
  · next raw expires hraw =>
    obtain ⟨text, hlookup, hne⟩ := (Option.any_eq_true _ _).mp h
    exact ⟨text, ⟨.hash raw, expires, hraw, .field hlookup⟩, by simpa using hne⟩
  · cases h

theorem storesResult_worked :
    storesResult (after (fun _ ↦ some "key") .shipped {} morning workedTurns).store
      "00000000000000000000000000000000" = true := by
  decide +kernel

theorem results_genuine_worked :
    ∃ a ∈ workedDeeds, ∃ (x : Acceptance) (c : Main.ChatRequest) (body : Json), accepts a x ∧
      Rendered (fun _ ↦ some "key") .shipped c.metadata c.body.toProviderKwargs
        (toldTo workedDeeds .worker) body := by
  obtain ⟨text, hstored, htext⟩ := stored_of_storesResult storesResult_worked
  obtain ⟨body, -, a, ha, x, c, hx, -, -, j, schedules, hj, hrendered⟩ := results_genuine hstored htext
  obtain rfl : j = .worker := by cases j <;> first | rfl | cases hj
  exact ⟨a, ha, x, c, body, hx, hrendered⟩

end HealingGateway.Service
