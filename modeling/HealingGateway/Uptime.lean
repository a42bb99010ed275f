import HealingGateway.Endings
import HealingGateway.JobHomes
import HealingGateway.Library.Schedules

namespace HealingGateway

open Programs Programs.Prog Numerals JsonText

namespace Queue

theorem delivers_nowMs : nowMs.Delivers Sane (fun _ ↦ True) := delivers_nowOr none

theorem delivers_update (jobId : String) (now : ℤ) {fields : List (String × String)}
    (hf : Update (fields ++ [("updated_at_ms", intString now)])) :
    (update jobId now fields).Delivers Sane (fun _ ↦ True) :=
  delivers_write (Stores.updateJob (w := drainer) trivial jobId hf)

theorem delivers_put (jobId : String) (readyAtMs : ℤ) :
    (redis (.write (.zadd ready jobId readyAtMs))).Delivers Sane (fun _ ↦ True) :=
  delivers_write (Stores.putJob (w := drainer) trivial jobId readyAtMs)

theorem finishes_popDue : popDue.Finishes Sane Civil := by
  have hpop : (redis (.zpopmin ready)).Delivers Sane (fun _ ↦ True) :=
    delivers_stores (Stores.popJob (w := drainer) trivial) (fun _ _ _ _ h ↦ by cases h)
  refine delivers_nowMs.bind_finishes (fun now _ ↦ hpop.bind_finishes (fun popped _ ↦ ?_))
  split
  · exact Civil.ok none
  · unfold claim
    split
    · exact (delivers_put _ _).bind_finishes (fun _ _ ↦ Civil.ok none)
    · refine (finishes_get _).bind (fun job _ ↦ ?_) (fun _ he ↦ he.error)
      split
      · exact Civil.ok none
      · refine (delivers_update _ now ?_).bind_finishes (fun _ _ ↦ Civil.ok _)
        exact update_status .running (update_instant now)

theorem delivers_retry (job : Job) (delayS : ℚ) (error : String) (count : Bool) :
    (retry job delayS error count).Delivers Sane (fun _ ↦ True) := by
  refine delivers_nowMs.bind (fun now _ ↦ (delivers_update job.id now ?_).bind (fun _ _ ↦ ?_))
  · exact update_status .queued (update_attempts _ (update_error error (update_instant now)))
  · exact (delivers_put job.id _).bind (fun _ _ ↦ trivial)

theorem delivers_complete (job : Job) (result : Json) :
    (complete job result).Delivers Sane (fun _ ↦ True) :=
  delivers_nowMs.bind (fun now _ ↦ delivers_update job.id now
    (update_status .done (update_result result (update_error "" (update_instant now)))))

theorem delivers_fail (job : Job) (error : String) : (fail job error).Delivers Sane (fun _ ↦ True) :=
  delivers_nowMs.bind (fun now _ ↦ delivers_update job.id now
    (update_status .failed (update_error error (update_instant now))))

theorem delivers_deadLetter (job : Job) (error : String) :
    (deadLetter job error).Delivers Sane (fun _ ↦ True) := by
  refine delivers_nowMs.bind (fun now _ ↦ (delivers_update job.id now ?_).bind (fun _ _ ↦ ?_))
  · exact update_status .dead (update_error error (update_instant now))
  · exact delivers_write (Stores.buryJob (w := drainer) trivial job.id now)

end Queue

namespace Worker

open Queue

variable {env : Environ} {config : GatewayConfig}

theorem delivers_metric (m : Metric) : (metric m).Delivers Sane (fun _ ↦ True) :=
  (delivers_ask (.metric m)).mono (fun _ _ ↦ trivial)

theorem delivers_observeDepth : observeDepth.Delivers Sane (fun _ ↦ True) := by
  have hdepth : (redis (.zcard ready)).Delivers Sane (fun _ ↦ True) :=
    delivers_stores (Stores.depth (w := drainer) trivial) (fun _ _ _ _ h ↦ by cases h)
  exact hdepth.bind (fun _ _ ↦ delivers_metric _)

theorem delivers_observeAge (job : Job) (s : Status) : (observeAge job s).Delivers Sane (fun _ ↦ True) :=
  (delivers_ask .time).bind (fun _ _ ↦ delivers_metric _)

theorem delivers_finish (job : Job) (s : Status) (reason : String) :
    (finish job s reason).Delivers Sane (fun _ ↦ True) :=
  (delivers_fail job reason).bind (fun _ _ ↦ delivers_observeAge job s)

theorem civil_retryDelayS (attempt : ℤ) (baseS capS : Decimal) :
    (retryDelayS attempt baseS capS).Finishes Sane Civil := by
  unfold retryDelayS
  split
  · rintro _ ⟨⟩
    rfl
  · exact fun delayS _ ↦ Civil.ok delayS

theorem civil_exhausted (job : Job) (routed : Router.RouteOutcome) :
    (exhausted config job routed).Finishes Sane Civil := by
  unfold exhausted
  split
  · refine (civil_retryDelayS _ _ _).bind (fun delayS _ ↦ ?_) (fun _ he ↦ he.error)
    exact (delivers_retry job delayS _ false).bind_finishes (fun _ _ ↦ Civil.ok ())
  · unfold retryOrBury
    dsimp only
    split
    · refine (delivers_deadLetter job _).bind_finishes (fun _ _ ↦ ?_)
      refine (delivers_metric _).bind_finishes (fun _ _ ↦ ?_)
      exact (delivers_observeAge job _).finishes (fun _ _ ↦ Civil.ok ())
    · refine (civil_retryDelayS _ _ _).bind (fun delayS _ ↦ ?_) (fun _ he ↦ he.error)
      refine (delivers_retry job delayS _ true).bind_finishes (fun _ _ ↦ ?_)
      exact (delivers_metric _).finishes (fun _ _ ↦ Civil.ok ())

theorem civil_conclude (job : Job) {routed : Router.RouteOutcome}
    (h : Router.Concluded Router.Showable routed) :
    (conclude config job routed).Finishes Sane Civil := by
  unfold conclude
  split
  · exact civil_exhausted job routed
  · next result hresult =>
    split
    · next hok =>
      have hshow := h.served result (Option.mem_def.mpr hresult) hok
      refine (Schemas.delivers_toOpenaiResponse hshow _ _).bind_finishes (fun body _ ↦ ?_)
      refine (delivers_complete job _).bind_finishes (fun _ _ ↦ ?_)
      exact (delivers_observeAge job _).finishes (fun _ _ ↦ Civil.ok ())
    · split
      · exact (delivers_finish job _ _).finishes (fun _ _ ↦ Civil.ok ())
      · exact civil_exhausted job routed

theorem civil_run (schedule : Router.RaceSchedule) (job : Job) :
    (run env config schedule job).Finishes Sane Civil := by
  unfold run
  split
  · exact (delivers_finish job _ _).finishes (fun _ _ ↦ Civil.ok ())
  · next hladder =>
    have hworld : Router.Responsive env config job.metadata job.payload (ladder env config job) Sane
        Router.Showable := Router.responsive_sane ladder_known
    exact (hworld.route (class_known hladder) schedule).bind_finishes (fun routed h ↦ civil_conclude job h)

theorem delivers_runOnce (schedule : Router.RaceSchedule) :
    (exceptException (runOnce env config schedule) (fun _ ↦ return false)).Delivers Sane (fun _ ↦ True) := by
  have htake : take.Finishes Sane Civil :=
    delivers_observeDepth.bind_finishes (fun _ _ ↦ finishes_popDue)
  have hround : (runOnce env config schedule).Finishes Sane Civil := by
    refine htake.bind (fun taken _ ↦ ?_) (fun _ he ↦ he.error)
    cases taken with
    | none => exact Civil.ok false
    | some job =>
      have hran : (run env config schedule job).Finishes Sane Civil := civil_run schedule job
      have hcleaned : (tryFinally (run env config schedule job) observeDepth).Finishes Sane Civil :=
        hran.outcome.bind_finishes (fun ended hended ↦ delivers_observeDepth.bind_finishes
          (fun _ _ ↦ finishes_ofExcept hended))
      exact hcleaned.bind (fun _ _ ↦ Civil.ok true) (fun _ he ↦ he.error)
  exact hround.swallow (fun _ _ ↦ trivial) (fun e he ↦ ⟨he e rfl, trivial⟩)

theorem delivers_drain (schedules : List Router.RaceSchedule) :
    (drain env config schedules).Delivers Sane (fun _ ↦ True) := by
  induction schedules with
  | nil => trivial
  | cons schedule schedules ih =>
    refine (delivers_runOnce schedule).bind (fun worked _ ↦ ?_)
    split
    · exact ih
    · refine (delivers_ask (.sleep config.queue.pollIntervalS.toRat)).bind (fun slept hslept ↦ ?_)
      rw [show slept = .ok () from hslept, ofExcept_ok, done_bind]
      exact ih

end Worker

/-- Nothing outside misbehaves: sleeps end, what fails raises what `except Exception` catches, and
what providers answer can be shown to callers and counted. -/
structure Outside.Well (o : Outside) : Prop where
  sleep : ∀ s, o.sleep s = .ok ()
  completion : ∀ kwargs, ∀ e ∈ raised (o.completion kwargs), e.isException = true
  presentable : ∀ kwargs j, o.completion kwargs = .ok j → Presentable j
  llmProvider : ∀ model, ∀ e ∈ raised (o.llmProvider model), e.isException = true
  cost : ∀ response model provider, ∀ e ∈ raised (o.cost response model provider), e.isException = true
  charge : ∀ response model provider spent, o.cost response model provider = .ok spent → 0 ≤ spent.toRat

theorem Outside.Well.sane {o : Outside} (h : o.Well) {db : Redis.Db} (hdb : Conforms db) (c : Cmd) :
    Sane c (o.answers c db).1 := by
  cases c with
  | redis c => exact ⟨o.now, db, hdb, rfl⟩
  | sleep s => exact h.sleep s
  | acompletion kwargs => exact ⟨h.completion kwargs, fun j hj ↦ h.presentable kwargs j hj⟩
  | llmProvider model => exact h.llmProvider model
  | completionCost response model provider =>
    exact ⟨h.cost response model provider, h.charge response model provider⟩
  | time | perfCounter | random | uniform | uuid4 | metric => trivial

namespace Service

open Main Pool

/-- What a task has to tell when it ends: a request is answered, and a regular one not with an
internal server error. -/
def Task.Told (env : Environ) : Task → Option Response → Prop
  | .request q, told => ∃ response, told = some response ∧ (q.Regular env → response.status ≠ 500)
  | _, told => told = none

section Uptime

variable {env : Environ} {config : GatewayConfig} {encoders : Encoders} {ι : Type} [DecidableEq ι]
  {tasks : ι → Task}

theorem Task.delivers_body (httl : 0 < config.queue.idempotencyTtlS) (task : Task) :
    (task.body env config encoders).Delivers Sane (task.Told env) := by
  have hseed := Breaker.delivers_seedGauge config (providerNames config)
  cases task with
  | lifespan => exact hseed.bind (fun _ _ ↦ rfl)
  | request q => exact (delivers_answerTo httl encoders q).bind (fun response h ↦ ⟨response, rfl, h⟩)
  | worker schedules =>
    exact (hseed.bind (fun _ _ ↦ Worker.delivers_drain schedules)).bind (fun _ _ ↦ rfl)

/-- Where the store answers and nothing outside misbehaves, every task that has its turn again and
again ends without raising, however the tasks interleave. -/
theorem all_answered (httl : 0 < config.queue.idempotencyTtlS) {schedule : ℕ → ι × (Outside × Fate)}
    (hfair : Fair schedule) (hwell : ∀ n, (schedule n).2.1.Well ∧ (schedule n).2.2 = .answered) (i : ι) :
    ∃ n told, (tasks i).Told env told ∧
      ∀ m, n ≤ m → (after env config encoders tasks (upTo schedule m)).rest i = .done told := by
  have hturns : ∀ n, ∀ before turn later, upTo schedule n = before ++ turn :: later →
      ∀ c, Sane c (meets turn.2 c (after env config encoders tasks before).store).1 := by
    intro n before turn later hsplit c
    obtain ⟨k, -, hk⟩ := List.mem_map.mp (show turn ∈ upTo schedule n by simp [hsplit])
    obtain ⟨houtside, hfate⟩ := hwell k
    rw [hk] at houtside hfate
    have hmeets : meets turn.2 = turn.2.1.answers := by
      rw [meets, hfate]
      funext c db
      cases c <;> rfl
    rw [hmeets]
    exact houtside.sane (conforms_store before) c
  have hends : ∃ n ended, ∀ m, n ≤ m →
      (after env config encoders tasks (upTo schedule m)).rest i = ofExcept ended := hfair.ends i
  obtain ⟨n, ended, hended⟩ := hends
  have hfinishes : ((after env config encoders tasks (upTo schedule n)).rest i).Finishes Sane
      (Delivered ((tasks i).Told env)) :=
    finishes_run (Q := fun i ↦ Delivered ((tasks i).Told env))
      (fun j ↦ delivers_iff_finishes.mp ((tasks j).delivers_body httl)) (hturns n) i
  rw [hended n le_rfl] at hfinishes
  cases ended with
  | ok told =>
    obtain ⟨_, ⟨⟩, htold⟩ := hfinishes
    exact ⟨n, told, htold, hended⟩
  | error e => obtain ⟨_, ⟨⟩, -⟩ := hfinishes

end Uptime

theorem presentable_reply : Presentable reply where
  shown := by
    intro result hresult
    rw [Schemas.renderable, hresult]
    rfl
  prompt := by decide +kernel
  completion := by decide +kernel

/-- A caller and the worker, turn about. -/
def evening : Bool → Task
  | true => .request ⟨.chat ⟨0, [], 0⟩ (.ofText "hello") none, callerHeaders "interactive.chat"⟩
  | false => .worker [⟨0, [], 0⟩]

def alternating (n : ℕ) : Bool × (Outside × Fate) :=
  (n % 2 == 0, { now := n, completion := fun _ ↦ .ok reply }, .answered)

theorem fair_alternating : Fair alternating := by
  rintro (_ | _) n
  · exact ⟨2 * n + 1, by omega, by simp [alternating]⟩
  · exact ⟨2 * n, by omega, by simp [alternating]⟩

theorem well_alternating (n : ℕ) : (alternating n).2.1.Well where
  sleep := fun _ ↦ rfl
  completion := fun _ _ h ↦ by cases h
  presentable := fun _ _ h ↦ Except.ok.inj h ▸ presentable_reply
  llmProvider := fun _ _ h ↦ by cases h
  cost := fun _ _ _ _ h ↦ by cases h
  charge := fun _ _ _ _ h ↦ by cases h; decide +kernel

theorem all_answered_evening : ∃ n response, response.status ≠ 500 ∧ ∀ m, n ≤ m →
    (after (fun _ ↦ some "key") .shipped {} evening (upTo alternating m)).rest true =
      .done (some response) := by
  obtain ⟨n, _, ⟨response, rfl, hstatus⟩, hended⟩ := @all_answered (fun _ ↦ some "key") .shipped {}
    Bool _ evening (by decide) alternating fair_alternating (fun n ↦ ⟨well_alternating n, rfl⟩) true
  exact ⟨n, response, hstatus ⟨rfl, fun h ↦ by cases h⟩, hended⟩

end Service

end HealingGateway
