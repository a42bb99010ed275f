import HealingGateway.FailOpen
import HealingGateway.Footprint
import HealingGateway.JobStores
import HealingGateway.Library.Runs
import HealingGateway.Rendering
import HealingGateway.Worker

namespace HealingGateway.Worker

open Programs Programs.Prog Numerals JsonText Queue

section Steps

variable {σ : Type} {h : Handler Cmd Reply σ} {db : σ → Redis.Db} {s : σ} {id : String}

def Leaves (c : Cmd) : Prop :=
  (∃ r, c = .redis r ∧ r.reads = true) ∨ ∀ k ∈ c.keys, ¬ QueueKey k

theorem quiet_elsewhere {c : Cmd} (hc : c.quiet = true) : ∀ k ∈ c.keys, ¬ QueueKey k := by
  rw [c.keys_of_quiet hc]
  exact fun k hk ↦ by cases hk

theorem own_elsewhere {c : Cmd} (hc : Router.Own c) : ∀ k ∈ c.keys, ¬ QueueKey k := by
  have hkey : ∀ p, ¬ QueueKey (Breaker.key p) ∧ ¬ QueueKey (Health.key p) ∧
      ¬ QueueKey (Chaos.key p) := by
    intro p
    simp [QueueKey, Breaker.key, Health.key, Chaos.key, ready, dlq, ← String.toList_inj]
  intro k hk
  obtain ⟨p, rfl | rfl | rfl⟩ := hc k hk
  · exact (hkey p).1
  · exact (hkey p).2.1
  · exact (hkey p).2.2

theorem leaves_quiet (c : Cmd) (hc : c.quiet = true) : Leaves c := .inr (quiet_elsewhere hc)

theorem leaves_own (c : Cmd) (hc : Router.Own c) : Leaves c := .inr (own_elsewhere hc)

theorem KeepsQueue.leaves (hq : KeepsQueue h db) {c : Cmd} (hc : Leaves c) (s : σ) {k : String}
    (hk : QueueKey k) : db (h c s).2 k = db s k := by
  rcases hc with ⟨r, rfl, hr⟩ | hc
  · exact hq.read r s k hk hr
  · exact hq.untouched c s k hk (fun hmem ↦ hc k hmem hk)

theorem KeepsQueue.run_leaves {α : Type} {p : Gateway α} (hq : KeepsQueue h db)
    (hp : p.Only Leaves) {k : String} (hk : QueueKey k) (s : σ) :
    db (p.run h s).2 k = db s k :=
  hp.run_frame (f := fun s ↦ db s k) (fun _ s hc ↦ hq.leaves hc s hk) s

theorem KeepsQueue.home_run {α : Type} {p : Gateway α} (hq : KeepsQueue h db)
    (hp : p.Only Leaves) (s : σ) (id : String) : Home (db (p.run h s).2) id ↔ Home (db s) id :=
  home_congr (hq.run_leaves hp (queueKey_key id) s) (hq.run_leaves hp queueKey_ready s)

theorem KeepsQueue.leads_write (hq : KeepsQueue h db) {w : Redis.Write} (hw : QueueKey w.key) :
    (redis (.write w)).Leads h accepted s
      (fun r s' ↦ r = .ok () ∧ ∃ now, Redis.execWrite now w (db s) = (.ok (), db s')) := by
  refine leads_call (fun haccepted ↦ ?_)
  cases hr : (h (.redis (.write w)) s).1 with
  | error e =>
    have hok := accepted_write hw haccepted
    rw [hr] at hok
    cases hok
  | ok r =>
    refine leads_done ⟨rfl, hq.answered (.write w) s () ?_ hr⟩
    exact fun k hk ↦ List.mem_singleton.mp hk ▸ hw

theorem KeepsQueue.leads_update (hq : KeepsQueue h db) (status : Status) {now : ℤ}
    {fields : List (String × String)}
    (hkeys : ((fields ++ [("updated_at_ms", intString now)]).map Prod.fst).Nodup)
    (hstatus : ("status", status.value) ∈ fields) :
    (update id now fields).Leads h accepted s
      (fun r s' ↦ r = .ok () ∧ statusOf (db s') id = some status.value) := by
  refine (hq.leads_write (w := .hset (Queue.key id) _) (queueKey_key id)).mono ?_
  rintro r s' ⟨hr, t, hexec⟩
  obtain ⟨old, expireAt, hdb, -⟩ := Redis.eq_of_hset hexec
  refine ⟨hr, ?_⟩
  rw [hdb]
  exact statusOf_update hkeys (List.mem_append_left _ hstatus)

theorem KeepsQueue.leads_quiet {α β : Type} {p : Gateway α} {f : α → Gateway β}
    {Q : Except Exn β → σ → Prop} (hp : ∀ s, ∃ a, (p.run h s).1 = .ok a)
    (hf : ∀ a s', (f a).Leads h accepted s' Q) : (p >>= f).Leads h accepted s Q := by
  refine Leads.bind (leads_run (Q := fun r _ ↦ ∃ a, r = .ok a) (hp s)) ?_ ?_
  · exact fun a s' _ ↦ hf a s'
  · rintro e s' ⟨_, ⟨⟩⟩

theorem KeepsQueue.leads_home {α β : Type} {p : Gateway α} {rest : α → Gateway β}
    (hq : KeepsQueue h db)
    (hp : p.Leads h accepted s (fun r s' ↦ r.isOk = true ∧ Home (db s') id))
    (hrest : ∀ a, (rest a).Only Leaves) :
    (p >>= rest).Leads h accepted s (fun _ s' ↦ Home (db s') id) := by
  refine hp.bind ?_ ?_
  · rintro a s' ⟨-, hhome⟩
    exact leads_run ((hq.home_run (hrest a) s' id).mpr hhome)
  · rintro e s' ⟨hok, -⟩
    cases hok

theorem run_nowMs_ok (h : Handler Cmd Reply σ) (s : σ) : ∃ now, (nowMs.run h s).1 = .ok now :=
  ⟨_, rfl⟩

theorem run_retryDelayS_ok (h : Handler Cmd Reply σ) {attempt : ℤ} (hattempt : attempt < 1024)
    (baseS capS : Decimal) (s : σ) : ∃ delayS, ((retryDelayS attempt baseS capS).run h s).1 = .ok delayS := by
  rw [retryDelayS, if_neg (by omega)]
  exact ⟨_, rfl⟩

theorem only_observeAge (job : Job) (status : Status) : (observeAge job status).Only Leaves :=
  Only.bind (only_ask (leaves_quiet _ rfl)) (fun _ ↦ only_ask (leaves_quiet _ rfl))

/-- A rung failed, an attempt is left, and no float holds the delay before it. -/
structure Overflows (config : GatewayConfig) (job : Job) (routed : Router.RouteOutcome) : Prop where
  failed : routed.lastFailure.isSome = true
  left : job.attempts + 1 < config.queue.maxAttempts
  large : 1024 ≤ job.attempts

theorem Overflows.exhausted_eq {config : GatewayConfig} {job : Job} {routed : Router.RouteOutcome}
    (ho : Overflows config job routed) :
    exhausted config job routed =
      Prog.throw (.overflowError "int too large to convert to float") := by
  obtain ⟨last, hlast⟩ := Option.isSome_iff_exists.mp ho.failed
  have htries : ¬ config.queue.maxAttempts ≤ job.attempts + 1 := not_le.mpr ho.left
  simp only [exhausted, hlast, retryOrBury, if_neg htries, retryDelayS, if_pos ho.large]
  rfl

section Endings

variable (hq : KeepsQueue h db) (job : Job)

include hq

theorem KeepsQueue.leads_settle (status : Status) (hterminal : status.terminal = true)
    {fields : List (String × String)}
    (hkeys : ∀ now, ((fields ++ [("updated_at_ms", intString now)]).map Prod.fst).Nodup)
    (hstatus : ("status", status.value) ∈ fields) :
    (nowMs >>= fun now ↦ update job.id now fields).Leads h accepted s
      (fun r s' ↦ r.isOk = true ∧ Home (db s') job.id) := by
  refine leads_quiet (run_nowMs_ok h) (fun now s' ↦ ?_)
  refine (hq.leads_update status (hkeys now) hstatus).mono ?_
  rintro r s' ⟨rfl, hs⟩
  exact ⟨rfl, .inr ⟨status, hterminal, hs⟩⟩

theorem KeepsQueue.leads_fail (reason : String) :
    (Queue.fail job reason).Leads h accepted s
      (fun r s' ↦ r.isOk = true ∧ Home (db s') job.id) :=
  hq.leads_settle job .failed rfl (by simp) (by simp)

theorem KeepsQueue.leads_complete (result : Json) :
    (Queue.complete job result).Leads h accepted s
      (fun r s' ↦ r.isOk = true ∧ Home (db s') job.id) :=
  hq.leads_settle job .done rfl (by simp) (by simp)

theorem KeepsQueue.leads_deadLetter (error : String) :
    (Queue.deadLetter job error).Leads h accepted s
      (fun r s' ↦ r.isOk = true ∧ Home (db s') job.id) := by
  refine leads_quiet (run_nowMs_ok h) (fun now s' ↦ ?_)
  refine (hq.leads_update .dead (by simp) (by simp)).bind ?_ ?_
  · rintro _ s₁ ⟨-, hs⟩
    refine (hq.leads_write (w := .zadd dlq _ _) queueKey_dlq).mono ?_
    rintro r s₂ ⟨rfl, t, hexec⟩
    obtain ⟨z, expireAt, hdb, -⟩ := Redis.eq_of_zadd hexec
    refine ⟨rfl, .inr ⟨.dead, rfl, ?_⟩⟩
    rw [← hs]
    apply statusOf_congr
    rw [hdb, Function.update_of_ne (key_ne_dlq job.id)]
  · rintro e s' ⟨⟨⟩, -⟩

theorem KeepsQueue.leads_retry (delayS : ℚ) (error : String) (count : Bool) :
    (Queue.retry job delayS error count).Leads h accepted s
      (fun r s' ↦ r.isOk = true ∧ Home (db s') job.id) := by
  refine leads_quiet (run_nowMs_ok h) (fun now s' ↦ ?_)
  refine (hq.leads_update .queued (by simp) (by simp)).bind ?_ ?_
  · rintro _ s₁ ⟨-, hs⟩
    refine (hq.leads_write (w := .zadd ready _ _) queueKey_ready).bind ?_ ?_
    · rintro _ s₂ ⟨-, t, hexec⟩
      obtain ⟨z, expireAt, hdb, hmem⟩ := Redis.eq_of_zadd hexec
      refine leads_done ⟨rfl, .inl ⟨?_, z, expireAt, ?_, hmem⟩⟩
      · rw [← hs]
        apply statusOf_congr
        rw [hdb, Function.update_of_ne (key_ne_ready job.id)]
      · rw [hdb, Function.update_self]
    · rintro e s' ⟨⟨⟩, -⟩
  · rintro e s' ⟨⟨⟩, -⟩

theorem KeepsQueue.leads_finish (status : Status) (reason : String) :
    (finish job status reason).Leads h accepted s (fun _ s' ↦ Home (db s') job.id) :=
  hq.leads_home (hq.leads_fail job reason) (fun _ ↦ only_observeAge job status)

theorem KeepsQueue.leads_exhausted (config : GatewayConfig) (routed : Router.RouteOutcome)
    (hdelay : ¬ Overflows config job routed) :
    (exhausted config job routed).Leads h accepted s (fun _ s' ↦ Home (db s') job.id) := by
  unfold exhausted
  split
  · refine leads_quiet (run_retryDelayS_ok h (by decide) _ _) (fun delayS s' ↦ ?_)
    exact hq.leads_home (hq.leads_retry job _ _ _) (fun _ ↦ trivial)
  · next last hlast =>
    unfold retryOrBury
    dsimp only
    split
    · refine hq.leads_home (hq.leads_deadLetter job _) (fun _ ↦ ?_)
      exact Only.bind (only_ask (leaves_quiet _ rfl)) (fun _ ↦ only_observeAge job _)
    · next htries =>
      have hattempts : job.attempts < 1024 := by
        by_contra hlarge
        exact hdelay ⟨by rw [hlast]; rfl, not_le.mp htries, not_lt.mp hlarge⟩
      refine leads_quiet (run_retryDelayS_ok h hattempts _ _) (fun delayS s' ↦ ?_)
      refine hq.leads_home (hq.leads_retry job _ _ _) (fun _ ↦ ?_)
      exact only_ask (leaves_quiet _ rfl)

end Endings

end Steps

section Tick

variable (env : Environ) (config : GatewayConfig) (schedule : Router.RaceSchedule) {σ : Type}
  (h : Handler Cmd Reply σ)

/-- What a tick with a job in hand needs: circuits and faults that can be read wherever no
guard stands around the read, calls that no counter refuses, a served answer that can be turned
into a response, and where the ladder gave out a delay that a float can hold. -/
structure Answerable (job : Job) (s : σ) : Prop where
  readable : ladder env config job ≠ [] →
    ∀ e ∈ (Router.route env config job.metadata job.payload (ladder env config job)
      schedule).trace h s, e.guarded = false → (failures config).fails e.cmd e.reply = false
  renders : ladder env config job ≠ [] → ∀ routed result,
    ((Router.route env config job.metadata job.payload (ladder env config job) schedule).run h s).1 =
      .ok routed → routed.result = some result → result.outcome.isOk = true →
    Schemas.renderable result = true
  delays : ladder env config job ≠ [] → ∀ routed,
    ((Router.route env config job.metadata job.payload (ladder env config job) schedule).run h s).1 =
      .ok routed → routed.result.any Router.isFinal = false → ¬ Overflows config job routed

variable {env config schedule h} {db : σ → Redis.Db} {job : Job} {s s' : σ}

theorem KeepsQueue.leads_conclude (hq : KeepsQueue h db) {routed : Router.RouteOutcome}
    (hrenders : ∀ result, routed.result = some result → result.outcome.isOk = true →
      Schemas.renderable result = true)
    (hdelays : routed.result.any Router.isFinal = false → ¬ Overflows config job routed) :
    (conclude config job routed).Leads h accepted s (fun _ s' ↦ Home (db s') job.id) := by
  unfold conclude
  split
  · next hresult => exact hq.leads_exhausted job config routed (hdelays (by rw [hresult]; rfl))
  · next result hresult =>
    split
    · next hok =>
      have hbody := Schemas.isOk_toOpenaiResponse h result job.metadata routed.attempts
      refine leads_quiet (fun s ↦ ?_) (fun body s' ↦ ?_)
      · have hs := (hbody s).trans (hrenders result hresult hok)
        cases hrun : ((Schemas.toOpenaiResponse result job.metadata routed.attempts).run h s).1 with
        | ok body => exact ⟨body, rfl⟩
        | error e =>
          rw [hrun] at hs
          cases hs
      · exact hq.leads_home (hq.leads_complete job _) (fun _ ↦ only_observeAge job _)
    · next hfailed =>
      split
      · exact hq.leads_finish job _ _
      · next htrippable =>
        refine hq.leads_exhausted job config routed (hdelays ?_)
        rw [hresult, Option.any_some, Router.isFinal, Bool.or_eq_false_iff]
        exact ⟨Bool.eq_false_iff.mpr hfailed, Bool.eq_false_iff.mpr htrippable⟩

theorem Overflows.run_conclude {routed : Router.RouteOutcome} (ho : Overflows config job routed)
    (hfinal : routed.result.any Router.isFinal = false) (s : σ) :
    ((conclude config job routed).run h s).2 = s := by
  have hexhausted := ho.exhausted_eq
  unfold conclude
  split
  · rw [hexhausted]
    rfl
  · next result hresult =>
    rw [hresult, Option.any_some, Router.isFinal, Bool.or_eq_false_iff] at hfinal
    rw [if_neg (by simp [hfinal.1]), if_neg (by simpa using hfinal.2), hexhausted]
    rfl

theorem KeepsQueue.home_unrenderable (hq : KeepsQueue h db) {routed : Router.RouteOutcome}
    {result : ProviderResult} (hresult : routed.result = some result)
    (hok : result.outcome.isOk = true) (hrender : Schemas.renderable result = false) :
    Home (db ((conclude config job routed).run h s).2) job.id ↔ Home (db s) job.id := by
  have hbody := Schemas.isOk_toOpenaiResponse h result job.metadata routed.attempts s
  have hquiet := (Schemas.only_toOpenaiResponse result job.metadata routed.attempts).mono
    (fun c hc ↦ leaves_quiet c (Cmd.quiet_of_inward hc))
  rcases hrun : (Schemas.toOpenaiResponse result job.metadata routed.attempts).run h s with
    ⟨e | body, s'⟩
  · simp only [conclude, hresult, hok, if_true]
    rw [run_bind_error h hrun]
    have hhome := hq.home_run hquiet s job.id
    rwa [hrun] at hhome
  · rw [hrun, hrender] at hbody
    cases hbody

theorem ladder_known : ∀ p ∈ ladder env config job, (config.providers.lookup p).isSome :=
  fun _ hp ↦ config.ladderFor_known env hp

theorem class_known (hladder : ladder env config job ≠ []) :
    (config.classes.lookup job.metadata.requestClass).isSome := by
  unfold ladder GatewayConfig.ladderFor at hladder
  split at hladder
  · exact absurd rfl hladder
  · next c hc =>
    rw [hc]
    rfl

/-- What the walk came to finds a homeless job a home exactly if it can be shown, and delayed where it
must be. -/
theorem KeepsQueue.home_conclude_iff (hq : KeepsQueue h db) {routed : Router.RouteOutcome}
    (hhome : ¬ Home (db s) job.id) (haccepted : ∀ e ∈ (conclude config job routed).trace h s, accepted e) :
    Home (db ((conclude config job routed).run h s).2) job.id ↔
      (∀ result, routed.result = some result → result.outcome.isOk = true →
        Schemas.renderable result = true) ∧
      (routed.result.any Router.isFinal = false → ¬ Overflows config job routed) := by
  by_cases hrenders : ∀ result, routed.result = some result → result.outcome.isOk = true →
      Schemas.renderable result = true
  · by_cases hdelays : routed.result.any Router.isFinal = false → ¬ Overflows config job routed
    · exact iff_of_true (hq.leads_conclude hrenders hdelays haccepted) ⟨hrenders, hdelays⟩
    · obtain ⟨hfinal, hoverflows⟩ := Classical.not_imp.mp hdelays
      rw [(not_not.mp hoverflows).run_conclude hfinal]
      exact iff_of_false hhome (fun h ↦ hdelays h.2)
  · push Not at hrenders
    obtain ⟨result, hresult, hok, hrender⟩ := hrenders
    rw [hq.home_unrenderable hresult hok (Bool.eq_false_iff.mpr hrender)]
    exact iff_of_false hhome (fun h ↦ hrender (h.1 result hresult hok))

/-- The rest of a tick, from a job that has no home. -/
theorem KeepsQueue.home_run_iff (hq : KeepsQueue h db) (hh : ∀ c s, Ordinary c (h c s).1)
    (hhome : ¬ Home (db s) job.id)
    (haccepted : ∀ e ∈ (run env config schedule job).trace h s, accepted e) :
    Home (db ((run env config schedule job).run h s).2) job.id ↔
      Answerable env config schedule h job s := by
  by_cases hladder : ladder env config job = []
  · simp only [run, if_pos hladder] at haccepted ⊢
    exact iff_of_true (hq.leads_finish job _ _ haccepted)
      ⟨fun hne ↦ absurd hladder hne, fun hne ↦ absurd hladder hne, fun hne ↦ absurd hladder hne⟩
  · simp only [run, if_neg hladder] at haccepted ⊢
    have hroute := @Router.isOk_route_iff env config job.metadata job.payload
      (ladder env config job) schedule σ h s hh (class_known hladder) ladder_known
    have honly : (Router.route env config job.metadata job.payload (ladder env config job)
        schedule).Only Leaves := (Router.only_route schedule).mono (fun c hc ↦ leaves_own c hc.1)
    have hleft := hq.home_run honly s job.id
    rcases hrun : (Router.route env config job.metadata job.payload (ladder env config job)
      schedule).run h s with ⟨e | routed, s₁⟩
    · rw [hrun] at hleft hroute
      rw [run_bind_error h hrun]
      refine iff_of_false (fun hhome' ↦ hhome (hleft.mp hhome')) (fun hanswer ↦ ?_)
      cases hroute.mpr (hanswer.readable hladder)
    · rw [trace_bind_ok h hrun] at haccepted
      rw [hrun] at hleft hroute
      rw [run_bind_ok h hrun, hq.home_conclude_iff (fun hhome' ↦ hhome (hleft.mp hhome'))
        (fun e he ↦ haccepted e (List.mem_append_right _ he))]
      constructor
      · rintro ⟨hrenders, hdelays⟩
        refine ⟨fun _ ↦ hroute.mp rfl, fun _ routed' result hrouted ↦ ?_, fun _ routed' hrouted ↦ ?_⟩
        · rw [hrun] at hrouted
          cases hrouted
          exact hrenders result
        · rw [hrun] at hrouted
          cases hrouted
          exact hdelays
      · intro hanswer
        have hended : ((Router.route env config job.metadata job.payload (ladder env config job)
            schedule).run h s).1 = .ok routed := by rw [hrun]
        exact ⟨fun result ↦ hanswer.renders hladder routed result hended,
          hanswer.delays hladder routed hended⟩

end Tick

section Take

variable {σ : Type} {h : Handler Cmd Reply σ} {db : σ → Redis.Db} {s : σ} {assumed : Event Cmd Reply → Prop}

theorem KeepsQueue.leads_get (hq : KeepsQueue h db) (hfiled : Filed (db s)) (id : String) :
    (Queue.get id).Leads h assumed s (fun r s' ↦
      db s' ready = db s ready ∧ ∀ job, r = .ok (some job) → job.id = id) := by
  have hread := hq.read (.hgetall (Queue.key id)) s ready queueKey_ready rfl
  refine leads_run ?_
  rw [get_eq]
  rcases hr : h (.redis (.hgetall (Queue.key id))) s with ⟨e | raw, s'⟩
  · rw [hr] at hread
    rw [run_redis_bind_error h hr]
    exact ⟨hread, by rintro job ⟨⟩⟩
  · obtain ⟨now, hexec⟩ := hq.answered (.hgetall (Queue.key id)) s raw
      (fun k hk ↦ List.mem_singleton.mp hk ▸ queueKey_key id) (by rw [hr])
    rw [hr] at hread
    rw [run_redis_bind h hr, run_ofExcept]
    exact ⟨hread, fun job hjob ↦ hfiled.named (congrArg Prod.fst hexec) (id_of_jobOf hjob)⟩

theorem KeepsQueue.leads_claim (hq : KeepsQueue h db) (hfiled : Filed (db s)) {id : String}
    (hgone : ¬ Awaits (db s) id) (readyAtMs now : ℤ) :
    (claim id readyAtMs now).Leads h assumed s (fun r s' ↦ ∀ job, r = .ok (some job) →
      statusOf (db s') job.id = some Status.running.value ∧ ¬ Awaits (db s') job.id) := by
  unfold claim
  split
  · refine leads_call (fun _ ↦ ?_)
    cases (h (.redis (.write (.zadd ready id readyAtMs))) s).1 with
    | error e => exact leads_throw (by rintro job ⟨⟩)
    | ok r => exact leads_done (by rintro job ⟨⟩)
  · refine (hq.leads_get hfiled id).bind ?_ (by rintro e s' - job ⟨⟩)
    rintro job? s₁ ⟨hready, hid⟩
    cases job? with
    | none => exact leads_done (by rintro job ⟨⟩)
    | some job =>
      refine leads_call (fun _ ↦ ?_)
      cases hr : (h (.redis (.write (.hset (Queue.key id)
        ([("status", Status.running.value)] ++ [("updated_at_ms", intString now)])))) s₁).1 with
      | error e => exact leads_throw (by rintro job ⟨⟩)
      | ok r =>
        obtain ⟨t, hexec⟩ := hq.answered (.write (.hset (Queue.key id) _)) s₁ ()
          (fun k hk ↦ List.mem_singleton.mp hk ▸ queueKey_key id) hr
        obtain ⟨old, expireAt, hdb, -⟩ := Redis.eq_of_hset hexec
        refine leads_done ?_
        rintro _ ⟨⟩
        rw [hid job rfl, hdb]
        refine ⟨statusOf_update (by simp) (by simp), fun hawaits ↦ hgone ?_⟩
        refine (awaits_congr ?_).mp hawaits
        rw [Function.update_of_ne (key_ne_ready id).symm, hready]

theorem KeepsQueue.leads_take (hq : KeepsQueue h db) (hfiled : Filed (db s)) :
    take.Leads h assumed s (fun r s' ↦ ∀ job, r = .ok (some job) →
      statusOf (db s') job.id = some Status.running.value ∧ ¬ Awaits (db s') job.id) := by
  have hdepth : observeDepth.Only Leaves :=
    Only.bind (only_redis (.inl ⟨_, rfl, rfl⟩)) (fun _ ↦ only_ask (leaves_quiet _ rfl))
  refine Leads.bind (leads_run (Q := fun _ s' ↦ Filed (db s')) ?_) ?_ (by rintro e s' - job ⟨⟩)
  · exact hfiled.congr (fun id ↦ hq.run_leaves hdepth (queueKey_key id) s)
  · intro _ s₁ hfiled
    refine Leads.bind (leads_run (Q := fun _ s' ↦ Filed (db s')) ?_) ?_ (by rintro e s' - job ⟨⟩)
    · exact hfiled.congr (fun id ↦ hq.untouched .time s₁ _ (queueKey_key id) (by simp [Cmd.keys]))
    · intro now s₂ hfiled
      refine leads_call (fun _ ↦ ?_)
      cases hr : (h (.redis (.zpopmin ready)) s₂).1 with
      | error e => exact leads_throw (by rintro job ⟨⟩)
      | ok popped =>
        rcases popped with _ | ⟨id, readyAtMs⟩
        · exact leads_done (by rintro job ⟨⟩)
        · obtain ⟨t, hexec⟩ := hq.answered (.zpopmin ready) s₂ _
            (fun k hk ↦ List.mem_singleton.mp hk ▸ queueKey_ready) hr
          obtain ⟨z, expireAt, hdb, hmem⟩ := Redis.eq_of_zpopmin hexec
          refine hq.leads_claim (hfiled.congr (fun id ↦ ?_)) ?_ readyAtMs now
          · rw [hdb, Function.update_of_ne (key_ne_ready id)]
          · rintro ⟨z', t', hentry, hmem'⟩
            rw [hdb, Function.update_self, Redis.zsetEntry] at hentry
            split at hentry
            · cases hentry
            · cases hentry
              exact hmem hmem'

end Take

section Claim

variable (env : Environ) (config : GatewayConfig) (schedule : Router.RaceSchedule) {σ : Type}
  {h : Handler Cmd Reply σ} {db : σ → Redis.Db} {s s' : σ} {job : Job}

theorem runOnce_eq : runOnce env config schedule = do
    let taken ← take
    match taken with
    | none => return false
    | some job => do
      let ended ← (run env config schedule job).outcome
      observeDepth
      ofExcept ended
      return true := by
  refine congrArg (take >>= ·) (funext (fun taken ↦ ?_))
  cases taken with
  | none => rfl
  | some job => simp only [Prog.tryFinally, LawfulMonad.bind_assoc]

theorem KeepsQueue.home_runOnce (hq : KeepsQueue h db) (htaken : take.run h s = (.ok (some job), s')) :
    Home (db ((runOnce env config schedule).run h s).2) job.id ↔
      Home (db ((run env config schedule job).run h s').2) job.id := by
  have hdepth : observeDepth.Only Leaves :=
    Only.bind (only_redis (.inl ⟨_, rfl, rfl⟩)) (fun _ ↦ only_ask (leaves_quiet _ rfl))
  have hrest : ∀ ended : Except Exn Unit, (do
      observeDepth
      ofExcept ended
      return true : Gateway Bool).Only Leaves :=
    fun ended ↦ hdepth.bind (fun _ ↦ (only_ofExcept _).bind (fun _ ↦ trivial))
  rw [runOnce_eq, run_bind_ok h htaken, run_bind_ok h (run_outcome h _ s')]
  exact hq.home_run (hrest _) _ job.id

/-- A job a tick has taken has a home at the end of the tick exactly when the tick could read
what it needs, count its calls, and make of the walk's end a response or a delay. -/
theorem home_iff_answerable (hq : KeepsQueue h db) (hh : ∀ c s, Ordinary c (h c s).1)
    (hfiled : Filed (db s)) (haccepted : ∀ e ∈ (runOnce env config schedule).trace h s, accepted e)
    (htaken : take.run h s = (.ok (some job), s')) :
    Home (db ((runOnce env config schedule).run h s).2) job.id ↔
      Answerable env config schedule h job s' := by
  have hleads : ∀ job', (take.run h s).1 = .ok (some job') → statusOf (db (take.run h s).2) job'.id =
      some Status.running.value ∧ ¬ Awaits (db (take.run h s).2) job'.id :=
    hq.leads_take hfiled (fun e _ ↦ (trivial : (fun _ ↦ True) e))
  rw [htaken] at hleads
  obtain ⟨hstatus, hawaits⟩ := hleads job rfl
  rw [hq.home_runOnce env config schedule htaken]
  refine hq.home_run_iff hh (not_home hstatus hawaits) (fun e he ↦ haccepted e ?_)
  rw [runOnce_eq, trace_bind_ok h htaken, trace_bind_ok h (run_outcome h _ s'), trace_outcome]
  exact List.mem_append_right _ (List.mem_append_left _ he)

end Claim

section Worlds

/-- A store that refuses some commands still holds the queue. -/
theorem keepsQueue_refusing (refuses : Redis.Command → Bool) (e : Exn) (o : Outside) :
    KeepsQueue (Router.refusing refuses e o) id := by
  constructor
  · intro c db r _ hr
    simp only [Router.refusing] at hr ⊢
    split at hr
    · cases hr
    · next hc =>
      refine ⟨o.now, ?_⟩
      simp only [if_neg hc, Outside.answers] at hr ⊢
      rcases hexec : Redis.exec o.now c db with ⟨e' | r', db'⟩
      · rw [hexec] at hr
        cases hr
      · rw [hexec] at hr
        obtain rfl : r' = r := Except.ok.inj hr
        exact hexec
  · intro c db k _ hk
    cases c with
    | redis c =>
      simp only [Router.refusing]
      split
      · rfl
      · exact Redis.exec_frame hk o.now db
    | _ => rfl
  · intro c db k _ hc
    simp only [Router.refusing]
    split
    · rfl
    · exact congrFun (Redis.exec_of_reads hc o.now db) k

def nightly : RequestMetadata := ⟨"acme", "nightly", "r1", "batch.generate"⟩

/-- One accepted job of a deferrable class. -/
def oneJob : Redis.Db :=
  (((Task.enqueue nightly []).body .shipped).run (Outside.answers { now := 0 }) (fun _ ↦ none)).2

theorem filed_oneJob : Filed oneJob :=
  filed_tasksAfter .shipped (fun _ : Unit ↦ Task.enqueue nightly []) (List.replicate 3 ((), { now := 0 }))

def noEnv : Environ := fun _ ↦ none

/-- No health window can be written. -/
def windowsRefused : Handler Cmd Reply Redis.Db :=
  Router.refusing (fun c ↦ match c with | .pipeline _ => true | _ => false) Router.readOnlyError
    { now := 0 }

/-- One circuit cannot be read. -/
def circuitRefused : Handler Cmd Reply Redis.Db :=
  Router.refusing (fun c ↦ match c with | .hgetall k => k = Breaker.key "ollama" | _ => false)
    Router.connectionError { now := 0 }

def took (check : Job → Bool) : Except Exn (Option Job) → Bool
  | .ok (some job) => check job
  | _ => false

theorem exists_of_took (check : Job → Bool) {r : Except Exn (Option Job)}
    (h : took check r = true) : ∃ job, r = .ok (some job) ∧ check job = true := by
  unfold took at h
  split at h
  · exact ⟨_, rfl, h⟩
  · cases h

def servedWell : Except Exn Router.RouteOutcome → Bool
  | .ok routed => routed.result.all (fun result ↦ Schemas.renderable result)
  | .error _ => true

theorem renderable_of_servedWell {r : Except Exn Router.RouteOutcome} (h : servedWell r = true)
    {routed : Router.RouteOutcome} {result : ProviderResult} (hr : r = .ok routed)
    (hresult : routed.result = some result) : Schemas.renderable result = true := by
  subst hr
  simpa [servedWell, hresult] using h

/-- The job is done, though the call could not be recorded. -/
theorem home_iff_answerable_windowsRefused :
    ∃ job s', take.run windowsRefused oneJob = (.ok (some job), s') ∧
      Home ((runOnce noEnv .shipped ⟨0, [], 0⟩).run windowsRefused oneJob).2 job.id := by
  obtain ⟨job, hjob, hcheck⟩ := exists_of_took (r := (take.run windowsRefused oneJob).1)
    (fun job ↦ decide (job.metadata = nightly) && job.payload.isEmpty) (by decide +kernel)
  simp only [Bool.and_eq_true, decide_eq_true_eq, List.isEmpty_iff] at hcheck
  refine ⟨job, (take.run windowsRefused oneJob).2, Prod.ext hjob rfl, ?_⟩
  refine (home_iff_answerable noEnv .shipped ⟨0, [], 0⟩ (keepsQueue_refusing _ _ _)
    (Router.ordinary_refusing _ rfl 0) filed_oneJob (by decide +kernel) (Prod.ext hjob rfl)).mpr ?_
  have hladder : ladder noEnv .shipped job = ["ollama"] := by
    rw [ladder, hcheck.1]
    decide
  constructor
  · intro _
    rw [hladder, hcheck.1, hcheck.2]
    decide +kernel
  · intro _ routed result hrouted hresult _
    rw [hladder, hcheck.1, hcheck.2] at hrouted
    exact renderable_of_servedWell (by decide +kernel) hrouted hresult
  · intro _ routed _ _ hoverflows
    have htries : job.attempts + 1 < 8 := hoverflows.left
    have hlarge := hoverflows.large
    omega

/-- With one circuit that cannot be read the job stays running, and is in no index. -/
theorem circuitRefused_strands :
    KeepsQueue circuitRefused id ∧ (∀ c s, Ordinary c (circuitRefused c s).1) ∧ Filed oneJob ∧
      (∀ e ∈ (runOnce noEnv .shipped ⟨0, [], 0⟩).trace circuitRefused oneJob, accepted e) ∧
      took (fun job ↦ job.id = (Uuid.numbered 0).hex) (take.run circuitRefused oneJob).1 = true ∧
      statusOf ((runOnce noEnv .shipped ⟨0, [], 0⟩).run circuitRefused oneJob).2
        (Uuid.numbered 0).hex = some Status.running.value ∧
      ¬ Home ((runOnce noEnv .shipped ⟨0, [], 0⟩).run circuitRefused oneJob).2
        (Uuid.numbered 0).hex := by
  have hstatus : statusOf ((runOnce noEnv .shipped ⟨0, [], 0⟩).run circuitRefused oneJob).2
      (Uuid.numbered 0).hex = some Status.running.value := by decide +kernel
  have hempty : ((runOnce noEnv .shipped ⟨0, [], 0⟩).run circuitRefused oneJob).2 ready = none :=
    Option.isNone_iff_eq_none.mp (by decide +kernel)
  refine ⟨keepsQueue_refusing _ _ _, Router.ordinary_refusing _ rfl 0, filed_oneJob,
    by decide +kernel, by decide +kernel, hstatus, not_home hstatus ?_⟩
  rintro ⟨z, t, hready, -⟩
  rw [hempty] at hready
  cases hready

end Worlds

end HealingGateway.Worker
