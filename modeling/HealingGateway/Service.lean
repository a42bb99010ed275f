import HealingGateway.Admin
import HealingGateway.Library.Pools
import HealingGateway.Outside
import HealingGateway.Warrants
import HealingGateway.Worker

namespace HealingGateway

open Programs Programs.Prog Numerals JsonText

namespace Chaos

variable {w : Warrant}

variable (hh : w.heeds)

include hh

theorem within_get (provider : String) : Within w (get provider) :=
  Only.bind (within_redis (.readFault hh provider)) (fun _ ↦ only_ofExcept _)

theorem within_active (providers : List String) : Within w (active providers) := by
  have hspecs : ∀ specs, Within w (specsOf providers specs) := by
    induction providers with
    | nil => exact fun _ ↦ trivial
    | cons p providers ih => exact fun specs ↦ Only.bind (within_get hh p) (fun _ ↦ ih _)
  exact Only.bind (hspecs []) (fun _ ↦ trivial)

end Chaos

def drainer : Warrant := { drains := True }

namespace Queue

variable {w : Warrant}

theorem within_enqueue (config : GatewayConfig) {metadata : RequestMetadata}
    {payload : List (String × Json)} (h : w.accepts metadata payload) :
    Within w (enqueue config metadata payload) := by
  refine Only.bind within_nowMs (fun now ↦ Only.bind (only_ask (.inward rfl)) (fun u ↦ ?_))
  exact Only.bind (within_redis (.acceptJob config u.hex h now)) (fun _ ↦ trivial)

theorem within_get (jobId : String) : Within w (get jobId) := by
  rw [get_eq]
  exact Only.bind (within_redis (.readJob jobId)) (fun _ ↦ only_ofExcept _)

theorem within_dead (limit : ℤ) : Within w (dead limit) := by
  have hall : ∀ ids, Within w (getAll ids) := by
    intro ids
    induction ids with
    | nil => trivial
    | cons jobId ids ih => exact Only.bind (within_get jobId) (fun _ ↦ Only.bind ih (fun _ ↦ trivial))
  exact Only.bind (within_redis (.listDead _)) (fun ids ↦ Only.bind (hall ids) (fun _ ↦ trivial))

variable (h : w.drains)

include h

theorem within_update (jobId : String) (now : ℤ) {fields : List (String × String)}
    (hf : Update (fields ++ [("updated_at_ms", intString now)])) :
    Within w (update jobId now fields) := within_redis (.updateJob h jobId hf)

theorem within_popDue : Within w popDue := by
  refine Only.bind within_nowMs (fun now ↦ Only.bind (within_redis (.popJob h)) (fun popped ↦ ?_))
  split
  · trivial
  · unfold claim
    split
    · exact Only.bind (within_redis (.putJob h _ _)) (fun _ ↦ trivial)
    · refine Only.bind (within_get _) (fun job ↦ ?_)
      split
      · trivial
      · exact Only.bind (within_update h _ now (update_status .running (update_instant now)))
          (fun _ ↦ trivial)

theorem within_retry (job : Job) (delayS : ℚ) (error : String) (count : Bool) :
    Within w (retry job delayS error count) := by
  refine Only.bind within_nowMs (fun now ↦ Only.bind (within_update h _ now ?_) (fun _ ↦ ?_))
  · exact update_status .queued (update_attempts _ (update_error error (update_instant now)))
  · exact Only.bind (within_redis (.putJob h _ _)) (fun _ ↦ trivial)

theorem within_complete (job : Job) (result : Json) : Within w (complete job result) :=
  Only.bind within_nowMs (fun now ↦ within_update h _ now
    (update_status .done (update_result result (update_error "" (update_instant now)))))

theorem within_fail (job : Job) (error : String) : Within w (fail job error) :=
  Only.bind within_nowMs (fun now ↦ within_update h _ now
    (update_status .failed (update_error error (update_instant now))))

theorem within_deadLetter (job : Job) (error : String) : Within w (deadLetter job error) := by
  refine Only.bind within_nowMs (fun now ↦ Only.bind (within_update h _ now ?_) (fun _ ↦ ?_))
  · exact update_status .dead (update_error error (update_instant now))
  · exact within_redis (.buryJob h _ now)

end Queue

namespace Idempotency

variable {w : Warrant} {tenant k : String} {ttlS : ℤ} (h : w.slots (label tenant k) ttlS)

include h

theorem within_claim : Within w (claim tenant k ttlS) := by
  rw [claim, key_eq]
  refine Only.bind (within_redis (.claimSlot h)) (fun owned ↦ ?_)
  cases owned with
  | true => trivial
  | false => exact Only.bind (within_redis (.readSlot h)) (fun _ ↦ trivial)

theorem within_store {status : ℤ} (hs : status < 400) (body : Json) :
    Within w (store tenant k status body ttlS) := by
  rw [store, key_eq]
  exact Only.bind (within_redis (.settleSlot h hs body)) (fun _ ↦ trivial)

theorem within_release : Within w (release tenant k) := by
  rw [release, key_eq]
  exact Only.bind (within_redis (.freeSlot h)) (fun _ ↦ trivial)

end Idempotency

namespace Worker

open Queue

variable {w : Warrant} (env : Environ) (config : GatewayConfig)

theorem within_observeAge (job : Job) (s : Status) : Within w (observeAge job s) :=
  Only.bind (only_ask (.inward rfl)) (fun _ ↦ within_metric rfl)

theorem within_retryDelayS (attempt : ℤ) (baseS capS : Decimal) :
    Within w (retryDelayS attempt baseS capS) := only_retryDelayS (fun _ _ ↦ .inward rfl) attempt baseS capS

variable (h : w.drains)

include h

theorem within_observeDepth : Within w observeDepth :=
  Only.bind (within_redis (.depth h)) (fun _ ↦ within_metric rfl)

theorem within_finish (job : Job) (s : Status) (reason : String) : Within w (finish job s reason) :=
  Only.bind (within_fail h job reason) (fun _ ↦ within_observeAge job s)

theorem within_exhausted (job : Job) (routed : Router.RouteOutcome) :
    Within w (exhausted config job routed) := by
  unfold exhausted
  split
  · refine Only.bind (within_retryDelayS _ _ _) (fun delayS ↦ ?_)
    exact Only.bind (within_retry h job delayS _ _) (fun _ ↦ trivial)
  · unfold retryOrBury
    dsimp only
    split
    · refine Only.bind (within_deadLetter h job _) (fun _ ↦ ?_)
      exact Only.bind (within_metric rfl) (fun _ ↦ within_observeAge job _)
    · refine Only.bind (within_retryDelayS _ _ _) (fun delayS ↦ ?_)
      exact Only.bind (within_retry h job delayS _ _) (fun _ ↦ within_metric rfl)

theorem within_conclude (job : Job) (routed : Router.RouteOutcome) :
    Within w (conclude config job routed) := by
  unfold conclude
  split
  · exact within_exhausted config h job routed
  · split
    · refine Only.bind (within_inward (Schemas.only_toOpenaiResponse _ _ _)) (fun body ↦ ?_)
      exact Only.bind (within_complete h job _) (fun _ ↦ within_observeAge job _)
    · split
      · exact within_finish h job _ _
      · exact within_exhausted config h job routed

theorem within_run (hh : w.heeds) (schedule : Router.RaceSchedule) {job : Job} (ho : w.observes job.metadata)
    (hs : ∀ kwargs, Router.Sends env config (ladder env config job) job.payload kwargs →
      w.sends kwargs) : Within w (run env config schedule job) := by
  unfold run
  split
  · exact within_finish h job _ _
  · exact Only.bind (Router.within_route hh ho hs schedule) (fun routed ↦ within_conclude config h job routed)

theorem within_drain (hh : w.heeds) (ho : ∀ m, w.observes m) (hs : ∀ kwargs, w.sends kwargs)
    (schedules : List Router.RaceSchedule) : Within w (drain env config schedules) := by
  induction schedules with
  | nil => trivial
  | cons schedule schedules ih =>
    refine Only.bind (Only.swallow ?_ (fun _ ↦ trivial)) (fun worked ↦ ?_)
    · refine Only.bind ?_ (fun taken ↦ ?_)
      · exact Only.bind (within_observeDepth h) (fun _ ↦ within_popDue h)
      · split
        · trivial
        · next job =>
          have hrun := within_run env config h hh schedule (ho job.metadata) (fun kwargs _ ↦ hs kwargs)
          refine Only.bind ?_ (fun _ ↦ trivial)
          refine Only.bind hrun.outcome (fun ended ↦ ?_)
          exact Only.bind (within_observeDepth h) (fun _ ↦ only_ofExcept _)
    · split
      · exact ih
      · exact Only.bind (only_ask (.inward rfl)) (fun _ ↦ Only.bind (only_ofExcept _) (fun _ ↦ ih))

end Worker

namespace Main

open Idempotency

section Served

variable {w : Warrant} {env : Environ} {config : GatewayConfig} {schedule : Router.RaceSchedule}
  {r : ChatRequest}

/-- What a request may send: its own payload, on the ladder it is given. -/
def ChatRequest.Sends (env : Environ) (config : GatewayConfig) (r : ChatRequest)
    (kwargs : List (String × Json)) : Prop :=
  ∃ ladder, resolveLadder env config r.metadata.requestClass r.provider = .ok ladder ∧
    Router.Sends env config ladder r.body.toProviderKwargs kwargs

theorem within_answer (routed : Router.RouteOutcome) : Within w (answer r routed) := by
  unfold answer
  split
  · exact Only.bind (only_ofExcept _) (fun _ ↦ trivial)
  · split
    · exact Only.bind (within_inward (Schemas.only_toOpenaiResponse _ _ _)) (fun _ ↦ trivial)
    · exact Only.bind (only_ofExcept _) (fun _ ↦ trivial)

variable (hh : w.heeds) (ho : w.observes r.metadata) (hs : ∀ kwargs, r.Sends env config kwargs → w.sends kwargs)
  (ha : defers config r = .ok true → w.accepts r.metadata r.body.toProviderKwargs)

include hh ho hs ha

theorem within_serve : Within w (serve env config schedule r) := by
  refine Only.bind_returns (only_ofExcept _) (returns_ofExcept (fun _ h ↦ h)) (fun deferred hdefers ↦ ?_)
  cases deferred with
  | true => exact Only.bind (Queue.within_enqueue config (ha hdefers)) (fun _ ↦ trivial)
  | false =>
    refine Only.bind_returns (only_ofExcept _) (returns_ofExcept (fun _ h ↦ h)) (fun ladder hladder ↦ ?_)
    refine Only.bind (Router.within_route hh ho (fun kwargs h ↦ hs kwargs ⟨ladder, hladder, h⟩) schedule)
      (fun routed ↦ within_answer routed)

theorem within_chatCompletions (hk : ∀ l, r.slot = some l → w.slots l config.queue.idempotencyTtlS) :
    Within w (chatCompletions env config schedule r) := by
  have hserve : Within w (serve env config schedule r) := within_serve hh ho hs ha
  unfold chatCompletions
  split
  · trivial
  · next hstream =>
    cases hkey : r.key with
    | none => exact Only.bind hserve (fun _ ↦ trivial)
    | some k =>
      have hslot : w.slots (Idempotency.label r.metadata.tenant k) config.queue.idempotencyTtlS :=
        hk _ (by rw [ChatRequest.slot, if_neg hstream, hkey]; rfl)
      have hrelease : Within w (release r.metadata.tenant k) := within_release hslot
      refine Only.bind (within_claim hslot) (fun stored ↦ ?_)
      cases stored with
      | some stored => exact only_ofExcept _
      | none =>
        refine Only.bind (hserve.tryExcept (fun e ↦ hrelease.bind (fun _ ↦ trivial))) (fun served ↦ ?_)
        dsimp only
        split
        · exact Only.bind (within_store hslot ‹_› _) (fun _ ↦ trivial)
        · exact Only.bind hrelease (fun _ ↦ trivial)

end Served

/-- How the encoder spells what holds numbers of arbitrary precision. -/
structure Encoders where
  snapshot : Health.HealthSnapshot → Json := fun _ ↦ .null
  circuit : Breaker.CircuitState → Json := fun _ ↦ .null

/-- A route, with what its path, its query and its body say. -/
inductive Route
  | healthz
  | models
  | chat (schedule : Router.RaceSchedule) (body : Schemas.ChatCompletionRequest)
      (provider : Option String)
  | job (jobId : String)
  | health
  | circuits
  | chaosList
  | chaosSet (request : ChaosRequest)
  | chaosClear (provider : String)
  | dlq

structure Request where
  route : Route
  headers : Headers := {}

variable (env : Environ) (config : GatewayConfig) (encoders : Encoders)

def requireSecret (headers : Headers) : Except Exn Unit :=
  requireAdmin (env "ADMIN_SECRET") headers.xAdminSecret

def guardedBy (headers : Headers) (body : Gateway Json) : Gateway Response := do
  ofExcept (requireSecret env headers)
  let body ← body
  return { status := 200, body }

/-- What a route may do that no other may. -/
def Request.warrant (r : Request) : Warrant :=
  match r.route with
  | .chat _ body provider =>
    let chat (m : RequestMetadata) : ChatRequest :=
      { body, metadata := m, idempotencyKey := r.headers.idempotencyKey, provider }
    { observes := fun m ↦ r.headers.metadata config = .ok m
      sends := fun kwargs ↦ ∃ m, r.headers.metadata config = .ok m ∧ (chat m).Sends env config kwargs
      slots := fun l ttlS ↦ ttlS = config.queue.idempotencyTtlS ∧
        ∃ m, r.headers.metadata config = .ok m ∧ (chat m).slot = some l
      accepts := fun m payload ↦ r.headers.metadata config = .ok m ∧ payload = body.toProviderKwargs ∧
        defers config (chat m) = .ok true
      heeds := True }
  | .chaosSet request =>
    { injects := fun spec ttlS ↦ requireSecret env r.headers = .ok () ∧ spec = request.spec ∧
        ttlS = request.ttlS ∧ (config.providers.lookup request.provider).isSome ∧
        Chaos.isInjectable request.errorType = true }
  | .chaosList => { heeds := True }
  | .chaosClear provider => { lifts := fun p ↦ requireSecret env r.headers = .ok () ∧ p = provider }
  | _ => {}

section Handlers

variable {env : Environ} {config : GatewayConfig} {encoders : Encoders} {w : Warrant} {headers : Headers}

theorem within_guardedBy {body : Gateway Json}
    (h : requireSecret env headers = .ok () → Within w body) : Within w (guardedBy env headers body) := by
  refine Only.bind_returns (only_ofExcept _) (returns_ofExcept (fun _ ha ↦ ha)) (fun _ hsecret ↦ ?_)
  exact Only.bind (h hsecret) (fun _ ↦ trivial)

theorem within_adminHealth : Within w (adminHealth config) := by
  unfold adminHealth
  induction providerNames config with
  | nil => trivial
  | cons name names ih =>
    refine Only.bind (Breaker.within_snapshot config name none none) (fun snap ↦ ?_)
    exact Only.bind ih (fun _ ↦ trivial)

theorem within_adminCircuits : Within w (adminCircuits config) := by
  unfold adminCircuits
  induction providerNames config with
  | nil => trivial
  | cons name names ih =>
    refine Only.bind (Breaker.within_stateOf config name none) (fun circuit ↦ ?_)
    exact Only.bind ih (fun _ ↦ trivial)

theorem within_getJob (jobId : String) (m : RequestMetadata) : Within w (getJob jobId m) := by
  refine Only.bind (Queue.within_get jobId) (fun job ↦ ?_)
  split
  · trivial
  · split <;> trivial

theorem within_adminChaosSet {request : ChaosRequest}
    (h : (config.providers.lookup request.provider).isSome →
      Chaos.isInjectable request.errorType = true → w.injects request.spec request.ttlS) :
    Within w (adminChaosSet config request) := by
  unfold adminChaosSet
  split
  · trivial
  · next hknown =>
    split
    · trivial
    · next htype =>
      have hinjectable : Chaos.isInjectable request.errorType = true := by simpa using htype
      have hinject : w.injects request.spec request.ttlS :=
        h (by simpa [Option.isSome_iff_ne_none] using hknown) hinjectable
      have hsound : request.spec.Sound :=
        ⟨hinjectable, request.errorRate_bounds, request.latencyMs_bounds⟩
      exact Only.bind (Only.bind (within_redis (.inject hinject hsound)) (fun _ ↦ trivial)) (fun _ ↦ trivial)

end Handlers

def Request.handle (r : Request) : Gateway Response :=
  match r.route with
  | .healthz => return { status := 200, body := healthz env config }
  | .models => return { status := 200, body := listModels env config }
  | .chat schedule body provider => (chatEndpoint env config schedule r.headers body provider).handle
  | .job jobId => (jobEndpoint config r.headers jobId).handle
  | .health => guardedBy env r.headers do
    let snaps ← adminHealth config
    return .obj (snaps.map (fun s ↦ (s.1, encoders.snapshot s.2)))
  | .circuits => guardedBy env r.headers do
    let circuits ← adminCircuits config
    return .obj (circuits.map (fun c ↦ (c.1, encoders.circuit c.2)))
  | .chaosList => guardedBy env r.headers (adminChaosList config)
  | .chaosSet request => guardedBy env r.headers (adminChaosSet config request)
  | .chaosClear provider => guardedBy env r.headers (adminChaosClear provider)
  | .dlq => (dlqEndpoint (env "ADMIN_SECRET") r.headers).handle

/-- A request does no more than its route may. -/
theorem Request.within_handle (r : Request) :
    Within (r.warrant env config) (r.handle env config encoders) := by
  obtain ⟨route, headers⟩ := r
  cases route with
  | healthz | models => trivial
  | chat schedule body provider =>
    refine Only.bind_returns (only_ofExcept _) (returns_ofExcept (fun _ h ↦ h)) (fun m hm ↦ ?_)
    exact within_chatCompletions trivial hm (fun kwargs h ↦ ⟨m, hm, h⟩) (fun hd ↦ ⟨hm, rfl, hd⟩)
      (fun l h ↦ ⟨rfl, m, hm, h⟩)
  | job jobId =>
    refine Only.bind (only_ofExcept _) (fun m ↦ ?_)
    exact Only.bind (within_getJob jobId m) (fun _ ↦ trivial)
  | health => exact within_guardedBy (fun _ ↦ Only.bind within_adminHealth (fun _ ↦ trivial))
  | circuits => exact within_guardedBy (fun _ ↦ Only.bind within_adminCircuits (fun _ ↦ trivial))
  | chaosList =>
    exact within_guardedBy (fun _ ↦ Only.bind (Chaos.within_active trivial _) (fun _ ↦ trivial))
  | chaosSet request =>
    refine within_guardedBy (fun hsecret ↦ within_adminChaosSet (fun hknown htype ↦ ?_))
    exact ⟨hsecret, rfl, rfl, hknown, htype⟩
  | chaosClear provider =>
    refine within_guardedBy (fun hsecret ↦ Only.bind ?_ (fun _ ↦ trivial))
    exact within_redis (.lift ⟨hsecret, rfl⟩)
  | dlq =>
    refine Only.bind (only_ofExcept _) (fun _ ↦ Only.bind ?_ (fun _ ↦ trivial))
    exact Only.bind (Queue.within_dead 100) (fun _ ↦ trivial)

theorem Request.not_answers (r : Request) : ¬ (r.warrant env config).answers := by
  obtain ⟨route, headers⟩ := r
  cases route <;> exact id

def Route.path : Route → String
  | .healthz => "/healthz"
  | .models => "/v1/models"
  | .chat .. => "/v1/chat/completions"
  | .job _ => "/v1/jobs/{job_id}"
  | .health => "/admin/health"
  | .circuits => "/admin/circuits"
  | .chaosList | .chaosSet _ => "/admin/chaos"
  | .chaosClear _ => "/admin/chaos/{provider}"
  | .dlq => "/admin/dlq"

def Request.endpoint (r : Request) : Endpoint where
  path := some r.route.path
  handle := r.handle env config encoders
  uncounted := (r.within_handle env config encoders).mono
    (fun _ ↦ Issues.uncounted (r.not_answers env config))

end Main

namespace Service

open Main

/-- What one task of the gateway's processes does. -/
inductive Task
  | lifespan
  | request (r : Request)
  | worker (schedules : List Router.RaceSchedule)

variable (env : Environ) (config : GatewayConfig) (encoders : Encoders)

def workerMain (schedules : List Router.RaceSchedule) : Gateway Unit := do
  Breaker.seedGauge config (providerNames config)
  Worker.drain env config schedules

def Task.body : Task → Gateway (Option Response)
  | lifespan => do
    Breaker.seedGauge config (providerNames config)
    return none
  | request r => do
    let response ← answerTo (r.endpoint env config encoders)
    return some response
  | worker schedules => do
    workerMain env config schedules
    return none

def Task.warrant : Task → Warrant
  | lifespan => {}
  | request r => { r.warrant env config with answers := True }
  | worker _ => { observes := fun _ ↦ True, sends := fun _ ↦ True, heeds := True, drains := True }

/-- Every task keeps within its warrant. -/
theorem Task.within_body (task : Task) :
    Within (task.warrant env config) (task.body env config encoders) := by
  cases task with
  | lifespan => exact Only.bind (Breaker.within_seedGauge config _) (fun _ ↦ trivial)
  | request r =>
    have hhandle : Within (Task.warrant env config (.request r)) (r.handle env config encoders) :=
      (r.within_handle env config encoders).mono
        (fun _ ↦ Issues.mono { answers := fun h ↦ absurd h (r.not_answers env config) })
    refine Only.bind (Only.tryExcept ?_ (fun _ ↦ trivial)) (fun _ ↦ trivial)
    refine Only.bind (hhandle.tryExcept (fun _ ↦ trivial)) (fun response ↦ ?_)
    exact Only.bind (only_ask (.respond trivial _ _)) (fun _ ↦ trivial)
  | worker schedules =>
    refine Only.bind (Only.bind (Breaker.within_seedGauge config _) (fun _ ↦ ?_)) (fun _ ↦ trivial)
    exact Worker.within_drain env config trivial trivial (fun _ ↦ trivial) (fun _ ↦ trivial) schedules

end Service

end HealingGateway
