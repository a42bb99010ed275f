import HealingGateway.JobHomes
import HealingGateway.Library.Tokens

namespace HealingGateway.Worker

open Programs Programs.Prog Numerals JsonText Queue

def ends (fields : List (String × String)) : Bool :=
  fields.any (fun f ↦ decide (f.1 = "status") && (Status.ofValue? f.2).any Status.terminal)

theorem ends_eq {fields : List (String × String)} {s : Status} (hkeys : (fields.map Prod.fst).Nodup)
    (hstatus : ("status", s.value) ∈ fields) : ends fields = s.terminal := by
  rw [Bool.eq_iff_iff]
  simp only [ends, List.any_eq_true, Bool.and_eq_true, decide_eq_true_eq]
  constructor
  · rintro ⟨f, hf, hname, hterminal⟩
    obtain rfl : f = ("status", s.value) := List.inj_on_of_nodup_map hkeys hf hstatus hname
    simpa using hterminal
  · exact fun hterminal ↦ ⟨_, hstatus, rfl, by simpa using hterminal⟩

/-- What a process has in its hands: the ids it drew, the one it has drawn and not used, and the
id it popped and has neither put back nor brought to its end. -/
structure Hands where
  ids : List String := []
  drawn : Option String := none
  taken : Option String := none

def Hands.watch (v : Hands) (_ : Bool) : (c : Cmd) → Reply c → Hands
  | .uuid4, u => { v with ids := u.hex :: v.ids, drawn := some u.hex }
  | .redis (.pipeline _), _ => { v with drawn := none }
  | .redis (.zpopmin k), r =>
    if k = ready then
      { v with taken := match r with
        | .ok popped => popped.map Prod.fst
        | .error _ => none }
    else v
  | .redis (.write (.zadd k _ _)), _ => if k = ready then { v with taken := none } else v
  | .redis (.write (.hset k fields)), _ =>
    if v.taken.map Queue.key = some k ∧ ends fields = true then { v with taken := none } else v
  | _, _ => v

theorem Hands.watch_zpopmin (v : Hands) (g : Bool) (k : String) (r : Reply (.redis (.zpopmin k))) :
    v.watch g (.redis (.zpopmin k)) r =
      if k = ready then { v with taken := (r.toOption.getD none).map Prod.fst } else v := by
  cases r <;> rfl

def Hands.permit (v : Hands) : Cmd → Prop
  | .redis (.write (.hset k fields)) =>
    (∃ id, v.taken = some id ∧ k = Queue.key id) ∧ (fields.map Prod.fst).Nodup ∧
      ∃ s : Status, ("status", s.value) ∈ fields
  | .redis (.write (.zadd k id _)) => k = ready → v.taken = some id
  | .redis (.pipeline ws) =>
    ∃ config id metadata payload now, v.drawn = some id ∧
      ws = enqueueWrites config id metadata payload now
  | _ => True

/-- A provider is called. -/
def calls : Cmd → Bool
  | .acompletion _ => true
  | _ => false

def Files : (c : Cmd) → Reply c → Prop
  | .redis (.hgetall k), r =>
    ∀ id raw name, k = Queue.key id → r = .ok raw → raw.lookup "id" = some name → name = id
  | _, _ => True

/-- What a process that puts work into the queue or drains it asks, and what it has in its
hands. -/
def handling : Protocol Cmd Reply Hands where
  allowed := fun v c ↦ (calls c = true → v.taken.isSome = true) ∧
    ((∀ k ∈ c.keys, ¬ QueueKey k) ∨ Queue.allowed c ∧ v.permit c)
  possible := fun _ ↦ Files
  watch := Hands.watch

section Programs

variable {v : Hands} {job : Job} {id : String}

theorem elsewhere_kept {c : Cmd} (hc : ∀ k ∈ c.keys, ¬ QueueKey k) (hv : v.taken = some id) :
    handling.allowed v c ∧ ∀ g r, (handling.watch v g c r).taken = some id := by
  refine ⟨⟨fun _ ↦ by rw [hv]; rfl, .inl hc⟩, fun g r ↦ ?_⟩
  cases c with
  | redis c =>
    cases c with
    | zpopmin k =>
      have hk : k ≠ ready := by
        rintro rfl
        exact hc ready (List.mem_singleton.mpr rfl) queueKey_ready
      simpa [handling, Hands.watch, hk] using hv
    | write w =>
      cases w with
      | zadd k m s =>
        have hk : k ≠ ready := by
          rintro rfl
          exact hc ready (List.mem_singleton.mpr rfl) queueKey_ready
        simpa [handling, Hands.watch, hk] using hv
      | hset k fields =>
        have hk : v.taken.map Queue.key ≠ some k := by
          rw [hv]
          rintro ⟨⟩
          exact hc _ (List.mem_singleton.mpr rfl) (queueKey_key id)
        simpa [handling, Hands.watch, hk] using hv
      | _ => exact hv
    | _ => exact hv
  | _ => exact hv

theorem keeps_job {α : Type} {p : Gateway α} (hp : p.Only (fun c ↦ ∀ k ∈ c.keys, ¬ QueueKey k))
    (hv : v.taken = some id) : p.Obeys handling v (fun v' _ ↦ v'.taken = some id) :=
  hp.obeys_kept (fun _ _ hc hv ↦ elsewhere_kept hc hv) hv

theorem obeys_enqueue (config : GatewayConfig) (metadata : RequestMetadata) (payload : List (String × Json))
    (v : Hands) : (Queue.enqueue config metadata payload).Obeys handling v (fun _ _ ↦ True) := by
  refine ⟨⟨by rintro ⟨⟩, .inl (quiet_elsewhere rfl)⟩, fun t _ ↦ ?_⟩
  refine ⟨⟨by rintro ⟨⟩, .inl (quiet_elsewhere rfl)⟩, fun u _ ↦ ?_⟩
  have hwrite : ∀ v' : Hands, v'.drawn = some u.hex →
      (redis (.pipeline (enqueueWrites config u.hex metadata payload (t * 1000).floor))).Obeys
        handling v' (fun _ _ ↦ True) := by
    intro v' hv'
    refine obeys_redis.mpr ⟨⟨by rintro ⟨⟩, .inr ⟨?_, ?_⟩⟩, fun _ _ ↦ trivial⟩
    · exact ⟨config, u.hex, metadata, payload, _, rfl⟩
    · exact ⟨config, u.hex, metadata, payload, _, hv', rfl⟩
  exact (hwrite _ rfl).bind (fun _ _ _ ↦ trivial) (fun _ _ _ ↦ trivial)

theorem obeys_get (id : String) (v : Hands) :
    (Queue.get id).Obeys handling v
      (fun v' r ↦ v' = v ∧ ∀ job, r = .ok (some job) → job.id = id) := by
  have hread : (redis (.hgetall (Queue.key id))).Obeys handling v
      (fun v' r ↦ v' = v ∧ ∀ raw name, r = .ok raw → raw.lookup "id" = some name → name = id) := by
    refine obeys_redis.mpr ⟨⟨by rintro ⟨⟩, .inr ⟨rfl, trivial⟩⟩, fun r hr ↦ ⟨rfl, ?_⟩⟩
    exact fun raw name ↦ hr id raw name rfl
  rw [get_eq]
  refine hread.bind ?_ ?_
  · rintro _ raw ⟨rfl, hnames⟩
    rw [obeys_ofExcept]
    exact ⟨rfl, fun job hjob ↦ hnames raw _ rfl (id_of_jobOf hjob)⟩
  · rintro _ e ⟨rfl, -⟩
    exact ⟨rfl, by rintro job ⟨⟩⟩

theorem obeys_update (hv : v.taken = some id) (s : Status) {now : ℤ} {fields : List (String × String)}
    (hupdate : Update (fields ++ [("updated_at_ms", intString now)]))
    (hkeys : ((fields ++ [("updated_at_ms", intString now)]).map Prod.fst).Nodup)
    (hstatus : ("status", s.value) ∈ fields) :
    (update id now fields).Obeys handling v
      (fun v' _ ↦ s.terminal = false → v'.taken = some id) := by
  have hmem := List.mem_append_left [("updated_at_ms", intString now)] hstatus
  refine obeys_redis.mpr ⟨⟨by rintro ⟨⟩, .inr ⟨⟨⟨id, rfl⟩, hupdate⟩, ⟨id, hv, rfl⟩, hkeys, s, hmem⟩⟩, ?_⟩
  intro r _ hs
  simpa [handling, Hands.watch, ends_eq hkeys hmem, hs] using hv

theorem obeys_claim (hv : v.taken = some id) (readyAtMs now : ℤ) :
    (claim id readyAtMs now).Obeys handling v
      (fun v' r ↦ ∀ job, r = .ok (some job) → v'.taken = some job.id) := by
  unfold claim
  split
  · have hback : (redis (.write (.zadd ready id readyAtMs))).Obeys handling v (fun _ _ ↦ True) :=
      obeys_redis.mpr ⟨⟨by rintro ⟨⟩, .inr ⟨.inl rfl, fun _ ↦ hv⟩⟩, fun _ _ ↦ trivial⟩
    refine hback.bind (fun _ _ _ job h ↦ ?_) (fun _ _ _ job h ↦ ?_)
    · cases h
    · cases h
  · refine (obeys_get id v).bind ?_ (by rintro _ e - job ⟨⟩)
    rintro _ job? ⟨rfl, hid⟩
    cases job? with
    | none => exact fun job h ↦ by cases h
    | some job =>
      obtain rfl := hid job rfl
      refine (obeys_update hv .running ?_ (by simp) (by simp)).bind ?_ (by rintro _ e - job ⟨⟩)
      · exact update_status _ (update_instant now)
      · rintro v' _ hv' _ ⟨⟩
        exact hv' rfl

theorem obeys_popDue (v : Hands) :
    popDue.Obeys handling v (fun v' r ↦ ∀ job, r = .ok (some job) → v'.taken = some job.id) := by
  refine ⟨⟨by rintro ⟨⟩, .inl (quiet_elsewhere rfl)⟩, fun t _ ↦ ?_⟩
  have hpop : (redis (.zpopmin ready)).Obeys handling v (fun v' r ↦ ∀ popped, r = .ok popped →
      v'.taken = popped.map Prod.fst) := by
    refine obeys_redis.mpr ⟨⟨by rintro ⟨⟩, .inr ⟨rfl, trivial⟩⟩, ?_⟩
    rintro _ - popped rfl
    simp [handling, Hands.watch]
  refine hpop.bind ?_ (by rintro _ e - job ⟨⟩)
  intro v' popped hv'
  cases popped with
  | none => exact fun job h ↦ by cases h
  | some p => exact obeys_claim (hv' _ rfl) _ _

theorem obeys_retry (hv : v.taken = some job.id) (delayS : ℚ) (error : String) (count : Bool) :
    (Queue.retry job delayS error count).Obeys handling v (fun _ _ ↦ True) := by
  refine ⟨⟨by rintro ⟨⟩, .inl (quiet_elsewhere rfl)⟩, fun t _ ↦ ?_⟩
  refine (obeys_update hv .queued ?_ (by simp) (by simp)).bind ?_ (fun _ _ _ ↦ trivial)
  · exact update_status _ (update_attempts _ (update_error _ (update_instant _)))
  · intro v' _ hv'
    have hput : ∀ score, (redis (.write (.zadd ready job.id score))).Obeys handling v' (fun _ _ ↦ True) :=
      fun score ↦ obeys_redis.mpr ⟨⟨by rintro ⟨⟩, .inr ⟨.inl rfl, fun _ ↦ hv' rfl⟩⟩, fun _ _ ↦ trivial⟩
    exact (hput _).bind (fun _ _ _ ↦ trivial) (fun _ _ _ ↦ trivial)

theorem obeys_fail (hv : v.taken = some job.id) (error : String) :
    (Queue.fail job error).Obeys handling v (fun _ _ ↦ True) := by
  refine ⟨⟨by rintro ⟨⟩, .inl (quiet_elsewhere rfl)⟩, fun t _ ↦ ?_⟩
  refine (obeys_update hv .failed ?_ (by simp) (by simp)).mono (fun _ _ _ ↦ trivial)
  exact update_status _ (update_error _ (update_instant _))

theorem obeys_complete (hv : v.taken = some job.id) (result : Json) :
    (Queue.complete job result).Obeys handling v (fun _ _ ↦ True) := by
  refine ⟨⟨by rintro ⟨⟩, .inl (quiet_elsewhere rfl)⟩, fun t _ ↦ ?_⟩
  refine (obeys_update hv .done ?_ (by simp) (by simp)).mono (fun _ _ _ ↦ trivial)
  exact update_status _ (update_result _ (update_error _ (update_instant _)))

theorem obeys_deadLetter (hv : v.taken = some job.id) (error : String) :
    (Queue.deadLetter job error).Obeys handling v (fun _ _ ↦ True) := by
  refine ⟨⟨by rintro ⟨⟩, .inl (quiet_elsewhere rfl)⟩, fun t _ ↦ ?_⟩
  refine (obeys_update hv .dead ?_ (by simp) (by simp)).bind ?_ (fun _ _ _ ↦ trivial)
  · exact update_status _ (update_error _ (update_instant _))
  · intro v' _ _
    refine obeys_redis.mpr ⟨⟨by rintro ⟨⟩, .inr ⟨.inr rfl, fun h ↦ ?_⟩⟩, fun _ _ ↦ trivial⟩
    exact absurd h.symm ready_ne_dlq

def Idles (c : Cmd) : Prop := calls c = false ∧ (c.quiet = true ∨ c = .redis (.zcard ready))

theorem obeys_idles {α : Type} {p : Gateway α} (hp : p.Only Idles) (v : Hands) :
    p.Obeys handling v (fun _ _ ↦ True) := by
  refine hp.obeys ?_ v
  rintro v c ⟨hcalls, hquiet⟩
  refine ⟨fun h ↦ ?_, ?_⟩
  · rw [hcalls] at h
    cases h
  · rcases hquiet with hquiet | rfl
    · exact .inl (quiet_elsewhere hquiet)
    · exact .inr ⟨rfl, trivial⟩

theorem idles_observeAge (job : Job) (s : Status) : (observeAge job s).Only Idles :=
  Only.bind (only_ask ⟨rfl, .inl rfl⟩) (fun _ ↦ only_ask ⟨rfl, .inl rfl⟩)

theorem idles_observeDepth : observeDepth.Only Idles :=
  Only.bind (only_redis ⟨rfl, .inr rfl⟩) (fun _ ↦ only_ask ⟨rfl, .inl rfl⟩)

theorem obeys_before {α β : Type} {p : Gateway α} {f : α → Gateway β}
    (hp : p.Obeys handling v (fun _ _ ↦ True))
    (hf : ∀ a v', (f a).Obeys handling v' (fun _ _ ↦ True)) :
    (p >>= f).Obeys handling v (fun _ _ ↦ True) :=
  hp.bind (fun v' a _ ↦ hf a v') (fun _ _ _ ↦ trivial)

theorem obeys_exhausted (hv : v.taken = some job.id) (config : GatewayConfig)
    (routed : Router.RouteOutcome) :
    (exhausted config job routed).Obeys handling v (fun _ _ ↦ True) := by
  unfold exhausted
  split
  · refine (keeps_job (only_retryDelayS (fun _ _ ↦ quiet_elsewhere rfl) _ _ _) hv).bind ?_ (fun _ _ _ ↦ trivial)
    exact fun v' delayS hv' ↦ obeys_before (obeys_retry hv' _ _ _) (fun _ _ ↦ trivial)
  · unfold retryOrBury
    dsimp only
    split
    · refine obeys_before (obeys_deadLetter hv _) (fun _ v' ↦ ?_)
      refine obeys_idles (Only.bind (only_ask ⟨rfl, .inl rfl⟩) (fun _ ↦ ?_)) v'
      exact idles_observeAge job .dead
    · refine (keeps_job (only_retryDelayS (fun _ _ ↦ quiet_elsewhere rfl) _ _ _) hv).bind ?_ (fun _ _ _ ↦ trivial)
      refine fun v' delayS hv' ↦ obeys_before (obeys_retry hv' _ _ _) (fun _ w ↦ ?_)
      exact obeys_idles (p := metric _) (only_ask ⟨rfl, .inl rfl⟩) w

theorem obeys_finish (hv : v.taken = some job.id) (s : Status) (reason : String) :
    (finish job s reason).Obeys handling v (fun _ _ ↦ True) :=
  obeys_before (obeys_fail hv reason) (fun _ v' ↦ obeys_idles (idles_observeAge job s) v')

theorem obeys_conclude (hv : v.taken = some job.id) (config : GatewayConfig)
    (routed : Router.RouteOutcome) :
    (conclude config job routed).Obeys handling v (fun _ _ ↦ True) := by
  unfold conclude
  split
  · exact obeys_exhausted hv config routed
  · next result _ =>
    split
    · refine (keeps_job ?_ hv).bind ?_ (fun _ _ _ ↦ trivial)
      · exact (Schemas.only_toOpenaiResponse result job.metadata routed.attempts).mono
          (fun c hc ↦ quiet_elsewhere (Cmd.quiet_of_inward hc))
      · intro v' body hv'
        exact obeys_before (obeys_complete hv' _) (fun _ v' ↦ obeys_idles (idles_observeAge job .done) v')
    · split
      · exact obeys_finish hv _ _
      · exact obeys_exhausted hv config routed

variable (env : Environ) (config : GatewayConfig)

theorem obeys_run (schedule : Router.RaceSchedule) (hv : v.taken = some job.id) :
    (run env config schedule job).Obeys handling v (fun _ _ ↦ True) := by
  unfold run
  split
  · exact obeys_finish hv _ _
  · refine (keeps_job ?_ hv).bind ?_ (fun _ _ _ ↦ trivial)
    · exact (Router.only_route schedule).mono (fun c hc ↦ own_elsewhere hc.1)
    · exact fun v' routed hv' ↦ obeys_conclude hv' config routed

theorem obeys_runOnce (schedule : Router.RaceSchedule) (v : Hands) :
    (runOnce env config schedule).Obeys handling v (fun _ _ ↦ True) := by
  have htake : take.Obeys handling v
      (fun v' r ↦ ∀ job, r = .ok (some job) → v'.taken = some job.id) :=
    (obeys_idles idles_observeDepth v).bind (fun v' _ _ ↦ obeys_popDue v') (fun _ _ _ job h ↦ by cases h)
  refine htake.bind ?_ (fun _ _ _ ↦ trivial)
  intro v' taken hv'
  cases taken with
  | none => trivial
  | some job =>
    refine obeys_before ?_ (fun _ _ ↦ trivial)
    refine obeys_before (obeys_outcome.mpr (obeys_run env config schedule (hv' job rfl))) ?_
    exact fun ended v' ↦
      obeys_before (obeys_idles idles_observeDepth v') (fun _ _ ↦ obeys_ofExcept.mpr trivial)

theorem obeys_drain (schedules : List Router.RaceSchedule) (v : Hands) :
    (drain env config schedules).Obeys handling v (fun _ _ ↦ True) := by
  induction schedules generalizing v with
  | nil => trivial
  | cons schedule schedules ih =>
    have hround : (exceptException (runOnce env config schedule) (fun _ ↦ return false)).Obeys
        handling v (fun _ _ ↦ True) := by
      refine obeys_tryExcept.mpr (obeys_guarded.mpr ((obeys_runOnce env config schedule v).mono ?_))
      rintro v' (e | worked) -
      · cases hcaught : e.isException <;> simp [hcaught]
      · trivial
    refine obeys_before hround (fun worked v' ↦ ?_)
    split
    · exact ih v'
    · refine obeys_before (obeys_idles (only_ask ⟨rfl, .inl rfl⟩) v') (fun slept w ↦ ?_)
      exact obeys_before (obeys_ofExcept.mpr trivial) (fun _ w' ↦ ih w')

end Programs

end HealingGateway.Worker
