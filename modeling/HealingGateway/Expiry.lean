import HealingGateway.JobApi
import HealingGateway.JobRecords
import HealingGateway.Library.Histories
import HealingGateway.Library.Pools
import Mathlib.Data.List.Induction

namespace HealingGateway.Queue

open Programs Programs.Prog Numerals JsonText Redis

/-- What may be done with a job in hand. -/
inductive Ending
  | retry (delayS : ℚ) (error : String) (count : Bool)
  | complete (result : Json)
  | fail (error : String)
  | deadLetter (error : String)

def Ending.body (job : Job) : Ending → Gateway Unit
  | retry delayS error count => do let _ ← Queue.retry job delayS error count
  | complete result => Queue.complete job result
  | fail error => Queue.fail job error
  | deadLetter error => Queue.deadLetter job error

def endAll (job : Job) : List Ending → Gateway Unit
  | [] => return ()
  | e :: endings => do
    e.body job
    endAll job endings

def endPopped (endings : List Ending) : Option Job → Gateway Unit
  | none => return ()
  | some job => endAll job endings

/-- What one task does to the queue: put work there, or pop a due job and end it somehow. -/
inductive Task
  | enqueue (metadata : RequestMetadata) (payload : List (String × Json))
  | tick (endings : List Ending)

def Task.body (config : GatewayConfig) : Task → Gateway Unit
  | enqueue metadata payload => do let _ ← Queue.enqueue config metadata payload
  | tick endings => do
    let job ← popDue
    endPopped endings job

section Only

theorem only_update (jobId : String) (now : ℤ) {fields : List (String × String)}
    (h : Update (fields ++ [("updated_at_ms", intString now)])) :
    (update jobId now fields).Only allowed :=
  only_redis ⟨⟨jobId, rfl⟩, h⟩

theorem only_get (jobId : String) : (get jobId).Only allowed := by
  rw [get_eq]
  exact Only.bind (only_redis rfl) (fun raw ↦ only_ofExcept _)

theorem only_popDue : popDue.Only allowed := by
  refine (only_nowMs trivial).bind (fun now ↦ Only.bind (only_redis rfl) (fun popped ↦ ?_))
  cases popped with
  | none => trivial
  | some p =>
    simp only [claim]
    split
    · exact (only_redis (.inl rfl)).bind (fun _ ↦ trivial)
    · refine (only_get _).bind (fun job ↦ ?_)
      cases job with
      | none => trivial
      | some job =>
        exact (only_update _ _ (update_status _ (update_instant now))).bind (fun _ ↦ trivial)

theorem Ending.only_body (job : Job) (e : Ending) : (e.body job).Only allowed := by
  cases e with
  | retry delayS error count =>
    refine Only.bind ((only_nowMs trivial).bind (fun now ↦ ?_)) (fun _ ↦ trivial)
    refine (only_update _ _ (update_status _ (update_attempts _ (update_error _
      (update_instant now))))).bind (fun _ ↦ ?_)
    exact (only_redis (.inl rfl)).bind (fun _ ↦ trivial)
  | complete result =>
    refine (only_nowMs trivial).bind (fun now ↦ only_update _ _ ?_)
    exact update_status _ (update_result _ (update_error _ (update_instant now)))
  | fail error =>
    refine (only_nowMs trivial).bind (fun now ↦ only_update _ _ ?_)
    exact update_status _ (update_error _ (update_instant now))
  | deadLetter error =>
    refine (only_nowMs trivial).bind (fun now ↦ (only_update _ _ ?_).bind (fun _ ↦ ?_))
    · exact update_status _ (update_error _ (update_instant now))
    · exact only_redis (.inr rfl)

theorem only_endAll (job : Job) (endings : List Ending) : (endAll job endings).Only allowed := by
  induction endings with
  | nil => trivial
  | cons e endings ih => exact (e.only_body job).bind (fun _ ↦ ih)

theorem Task.only_body (config : GatewayConfig) (task : Task) :
    (task.body config).Only allowed := by
  cases task with
  | enqueue metadata payload =>
    refine Only.bind ((only_nowMs trivial).bind (fun now ↦ (only_ask trivial).bind
      (fun u ↦ ?_))) (fun _ ↦ trivial)
    exact (only_redis ⟨config, _, metadata, payload, now, rfl⟩).bind (fun _ ↦ trivial)
  | tick endings =>
    refine only_popDue.bind (fun job ↦ ?_)
    cases job with
    | none => trivial
    | some job => exact only_endAll job endings

end Only

section Readers

variable {db : Db} {o : Outside}

theorem Readable.ne_nil {raw : List (String × String)} (h : Readable raw) : raw ≠ [] := by
  rintro rfl
  obtain ⟨text, hl, -⟩ := h ("id", fun _ ↦ true) (by simp [schema])
  cases hl

theorem Kept.run_get (h : Kept db) (o : Outside) (id : String) :
    ∃ job, (get id).run o.answers db = (.ok job, db) ∧
      (job = none ↔ Redis.live o.now db (key id) = none) := by
  cases hl : Redis.live o.now db (key id) with
  | none =>
    have hget : o.answers (.redis (.hgetall (key id))) db = (.ok [], db) :=
      Outside.answers_redis (by simp only [exec, hl, asHash])
    refine ⟨none, ?_, iff_of_true rfl rfl⟩
    rw [get, run_redis_bind _ hget]
    rfl
  | some e =>
    obtain ⟨raw, t, rfl, hraw⟩ := h.live hl
    obtain ⟨job, hjob⟩ := readJob_of_readable hraw
    have hget : o.answers (.redis (.hgetall (key id))) db = (.ok raw, db) :=
      Outside.answers_redis (by simp only [exec, hl, asHash])
    refine ⟨some job, ?_, by simp⟩
    rw [get, run_redis_bind _ hget]
    cases raw with
    | nil => exact absurd rfl hraw.ne_nil
    | cons f raw =>
      simp only [hjob]
      rfl

theorem Kept.run_getAll (h : Kept db) (o : Outside) (ids : List String) :
    ∃ jobs, (getAll ids).run o.answers db = (.ok jobs, db) := by
  induction ids with
  | nil => exact ⟨[], rfl⟩
  | cons id ids ih =>
    obtain ⟨job, hjob, -⟩ := h.run_get o id
    obtain ⟨jobs, hjobs⟩ := ih
    refine ⟨job :: jobs, ?_⟩
    rw [getAll, run_bind_ok _ hjob, run_bind_ok _ hjobs]
    rfl

theorem Kept.run_dead (h : Kept db) (o : Outside) (limit : ℤ) :
    ∃ jobs, (dead limit).run o.answers db = (.ok jobs, db) := by
  obtain ⟨z, hz⟩ := h.dlqZset.asZset o.now
  obtain ⟨jobs, hjobs⟩ := h.run_getAll o (upToRank (limit - 1) z)
  have hrange : o.answers (.redis (.zrange dlq (limit - 1))) db =
      (.ok (upToRank (limit - 1) z), db) :=
    Outside.answers_redis (by simp only [exec, hz, Except.map])
  refine ⟨jobs.filterMap id, ?_⟩
  rw [dead, run_redis_bind _ hrange, run_bind_ok _ hjobs]
  rfl

theorem Kept.run_update (h : Kept db) {id : String} {now : ℤ} {fields : List (String × String)}
    (hl : Redis.live o.now db (key id) ≠ none) :
    ∃ db', (update id now fields).run o.answers db = (.ok (), db') := by
  cases he : Redis.live o.now db (key id) with
  | none => exact absurd he hl
  | some e =>
    obtain ⟨raw, t, rfl, -⟩ := h.live he
    rw [Queue.update, run_redis]
    exact ⟨_, Outside.answers_redis (execWrite_ok (by simp only [Write.key, he, Write.apply]; rfl))⟩

theorem Kept.run_popDue (h : Kept db) (o : Outside) :
    ∃ job, (popDue.run o.answers db).1 = .ok job := by
  obtain ⟨popped, e, hexec, hz⟩ := h.readyZset.zpopmin o.now
  have h' := h.elsewhere (fun id ↦ (key_ne_ready id).symm) hz
  rw [popDue, run_bind_ok _ (o.run_nowMs db), run_redis_bind _ (Outside.answers_redis hexec)]
  rcases popped with _ | ⟨id, readyAtMs⟩
  · exact ⟨none, rfl⟩
  · simp only [claim]
    split
    · obtain ⟨z, t, hzadd⟩ := h'.readyZset.zadd o.now id readyAtMs
      have hadd := Outside.answers_redis (c := .write (.zadd ready id readyAtMs)) hzadd
      rw [run_redis_bind _ hadd]
      exact ⟨none, rfl⟩
    · obtain ⟨job, hjob, hnone⟩ := h'.run_get o id
      rw [run_bind_ok _ hjob]
      cases job with
      | none => exact ⟨none, rfl⟩
      | some job =>
        obtain ⟨db', hupdate⟩ : ∃ db', (update id o.now [("status", Status.running.value)]).run
            o.answers _ = (.ok (), db') := h'.run_update (fun hl ↦ by cases hnone.mpr hl)
        simp only
        rw [run_bind_ok _ hupdate]
        exact ⟨some job, rfl⟩

theorem Kept.run_getJob (h : Kept db) (o : Outside) (id : String) (m : RequestMetadata) :
    ∃ r, (Main.getJob id m).run o.answers db = (r, db) ∧
      ∀ e, r = .error e → e = Main.noJob id := by
  obtain ⟨job, hjob, -⟩ := h.run_get o id
  rw [Main.getJob, run_bind_ok _ hjob]
  cases job with
  | none => exact ⟨_, rfl, fun e he ↦ (Except.error.inj he).symm⟩
  | some job =>
    simp only
    split
    · exact ⟨_, rfl, fun e he ↦ (Except.error.inj he).symm⟩
    · exact ⟨_, rfl, fun e he ↦ by cases he⟩

theorem Kept.run_adminDlq (h : Kept db) (o : Outside) :
    ∃ body, Main.adminDlq.run o.answers db = (.ok body, db) := by
  obtain ⟨jobs, hjobs⟩ := h.run_dead o 100
  rw [Main.adminDlq, run_bind_ok _ hjobs]
  exact ⟨_, rfl⟩

end Readers

section Turns

variable {ι : Type} [DecidableEq ι] (config : GatewayConfig)

def tasksAfter (tasks : ι → Task) (turns : List (ι × Outside)) :
    Pool ι Cmd Reply Exn Unit Unit Db :=
  Pool.run protocol Outside.answers
    ⟨fun i ↦ (tasks i).body config, fun _ ↦ (), fun _ ↦ none⟩ turns

def nextUpdate : Gateway Unit → Option String
  | .call _ (.redis (.write (.hset k _))) _ => some k
  | _ => none

/-- Every job is absent or whole at `now`, and nobody who reads jobs fails. -/
structure Sound (now : ℤ) (db : Db) : Prop where
  whole : ∀ id e, Redis.live now db (key id) = some e →
    ∃ raw t, e = ⟨.hash raw, t⟩ ∧ ∀ f ∈ schema, (raw.lookup f.1).isSome
  get : ∀ id (o : Outside), o.now = now → ∃ job, (get id).run o.answers db = (.ok job, db) ∧
    (job = none ↔ Redis.live now db (key id) = none)
  popDue : ∀ o : Outside, o.now = now → ∃ job, (popDue.run o.answers db).1 = .ok job
  getJob : ∀ id m (o : Outside), o.now = now → ∃ r, (Main.getJob id m).run o.answers db = (r, db) ∧
    ∀ e, r = .error e → e = Main.noJob id
  adminDlq : ∀ o : Outside, o.now = now → ∃ body, Main.adminDlq.run o.answers db = (.ok body, db)

/-- Every state reached is sound whenever it is looked at, and no update brings an expired
job back. -/
structure Survives (tasks : ι → Task) (turns : List (ι × Outside)) : Prop where
  sound : ∀ before after, turns = before ++ after →
    ∀ now, Sound now (tasksAfter config tasks before).store
  gone : ∀ before turn after, turns = before ++ turn :: after →
    ∀ k ∈ nextUpdate ((tasksAfter config tasks before).rest turn.1),
      Redis.live turn.2.now (tasksAfter config tasks before).store k = none →
      Redis.live turn.2.now (tasksAfter config tasks (before ++ [turn])).store k = none

/-- Every update finds its job's record still there. -/
def UpdatesInTime (tasks : ι → Task) (turns : List (ι × Outside)) : Prop :=
  ∀ before turn after, turns = before ++ turn :: after →
    ∀ k ∈ nextUpdate ((tasksAfter config tasks before).rest turn.1),
      (Redis.live turn.2.now (tasksAfter config tasks before).store k).isSome

instance (tasks : ι → Task) (turns : List (ι × Outside)) :
    Decidable (UpdatesInTime config tasks turns) :=
  inferInstanceAs (Decidable (∀ _ _ _, _))

variable {config} {tasks : ι → Task} {turns : List (ι × Outside)} {db : Db}

theorem Kept.sound (h : Kept db) (now : ℤ) : Sound now db := by
  refine ⟨fun id e he ↦ ?_, fun id o ho ↦ ?_, fun o _ ↦ h.run_popDue o,
    fun id m o _ ↦ h.run_getJob o id m, fun o _ ↦ h.run_adminDlq o⟩
  · obtain ⟨raw, t, rfl, hraw⟩ := h.live he
    refine ⟨raw, t, rfl, fun f hf ↦ ?_⟩
    obtain ⟨text, hl, -⟩ := hraw f hf
    rw [hl]
    rfl
  · subst ho
    exact h.run_get o id

theorem eq_of_nextUpdate {p : Gateway Unit} {k : String} (hk : k ∈ nextUpdate p) :
    ∃ g fields r, p = .call g (.redis (.write (.hset k fields))) r := by
  unfold nextUpdate at hk
  split at hk
  · next g k' fields r =>
    obtain rfl := Option.some.inj hk
    exact ⟨g, fields, r, rfl⟩
  · cases hk

theorem obedient_tasksAfter (config : GatewayConfig) (tasks : ι → Task) (turns : List (ι × Outside)) :
    (tasksAfter config tasks turns).Obedient protocol (fun _ _ _ ↦ True) := by
  induction turns using List.reverseRec with
  | nil => exact fun i ↦ ((tasks i).only_body config).obeys (fun _ _ h ↦ h) ()
  | append_singleton turns turn ih =>
    rw [tasksAfter, Pool.run_append_singleton]
    exact ih.step (fun _ _ ↦ trivial)

theorem kept_turn {turn : ι × Outside} (h : Kept (tasksAfter config tasks turns).store)
    (hpresent : ∀ k ∈ nextUpdate ((tasksAfter config tasks turns).rest turn.1),
      (Redis.live turn.2.now (tasksAfter config tasks turns).store k).isSome) :
    Kept (tasksAfter config tasks (turns ++ [turn])).store := by
  have ho := obedient_tasksAfter config tasks turns
  rw [tasksAfter, Pool.run_append_singleton]
  rcases Pool.step_cases protocol turn.2.answers turn.1 (tasksAfter config tasks turns) with
    hs | ⟨g, c, r, hi⟩
  · rw [← tasksAfter, hs]
    exact h
  · rw [← tasksAfter, Pool.step_call hi]
    apply h.step (ho.allowed hi)
    rintro k fields rfl
    exact hpresent k (by rw [hi]; exact rfl)

theorem kept_run (h : UpdatesInTime config tasks turns) :
    Kept (tasksAfter config tasks turns).store := by
  induction turns using List.reverseRec with
  | nil => exact ⟨(fun id e he ↦ by cases he), .inl rfl, .inl rfl⟩
  | append_singleton turns turn ih =>
    refine kept_turn (ih ?_) (h turns turn [] rfl)
    intro before turn' after he
    exact h before turn' (after ++ [turn]) (by rw [he]; simp)

/-- An update of an absent record leaves a record without its id. -/
theorem partial_of_update {turn : ι × Outside} {k : String}
    (hk : k ∈ nextUpdate ((tasksAfter config tasks turns).rest turn.1))
    (habsent : Redis.live turn.2.now (tasksAfter config tasks turns).store k = none) :
    ∃ id raw, k = key id ∧ raw ≠ [] ∧ raw.lookup "id" = none ∧
      Redis.live turn.2.now (tasksAfter config tasks (turns ++ [turn])).store k =
        some ⟨.hash raw, none⟩ := by
  obtain ⟨g, fields, r, hi⟩ := eq_of_nextUpdate hk
  obtain ⟨⟨id, rfl⟩, hf⟩ := (obedient_tasksAfter config tasks turns).allowed hi
  refine ⟨id, Dicts.merge [] fields, rfl, Dicts.merge_ne_nil hf.ne_nil,
    hf.lookup_merge (by decide) [], ?_⟩
  rw [tasksAfter, Pool.run_append_singleton, ← tasksAfter, Pool.step_call hi]
  have hexec : exec turn.2.now (.write (.hset (key id) fields))
      (tasksAfter config tasks turns).store = _ :=
    execWrite_ok (by simp only [Write.key, habsent, Write.apply]; rfl)
  simp only [Outside.answers_redis hexec, Write.key, live_update_self]
  rfl

/-- Reading what such an update left raises. -/
theorem run_get_partial {o : Outside} {id : String} {raw : List (String × String)} {t : Option ℤ}
    (hlive : Redis.live o.now db (key id) = some ⟨.hash raw, t⟩) (hne : raw ≠ [])
    (hid : raw.lookup "id" = none) :
    (get id).run o.answers db = (.error (.keyError "id"), db) := by
  have hget : o.answers (.redis (.hgetall (key id))) db = (.ok raw, db) :=
    Outside.answers_redis (by simp only [exec, hlive, asHash])
  have hread : jobOf raw = .error (.keyError "id") := by
    obtain ⟨f, fs, rfl⟩ := List.exists_cons_of_ne_nil hne
    simp only [jobOf, readJob, required, hid]
    rfl
  rw [get_eq, run_redis_bind _ hget, hread]
  rfl

/-- Jobs survive their expiry exactly when no task updates a job that has expired meanwhile. -/
theorem survives_iff_updatesInTime (config : GatewayConfig) (tasks : ι → Task)
    (turns : List (ι × Outside)) : Survives config tasks turns ↔ UpdatesInTime config tasks turns := by
  constructor
  · intro h before turn after he k hk
    rw [Option.isSome_iff_ne_none]
    intro habsent
    obtain ⟨id, raw, rfl, -, hid, hlive⟩ := partial_of_update hk habsent
    have hsound := h.sound (before ++ [turn]) after (by rw [he]; simp) turn.2.now
    obtain ⟨raw', t, heq, hwhole⟩ := hsound.whole id _ hlive
    cases heq
    have hsome := hwhole ("id", fun _ ↦ true) (by simp [schema])
    rw [hid] at hsome
    cases hsome
  · intro h
    constructor
    · intro before after he now
      apply Kept.sound
      apply kept_run
      intro before' turn after' he'
      exact h before' turn (after' ++ after) (by rw [he, he']; simp)
    · intro before turn after he k hk habsent
      have hsome := h before turn after he k hk
      rw [habsent] at hsome
      cases hsome

end Turns

def deferred : ℕ → Task
  | 0 => .enqueue ⟨"acme", "chat", "r1", "batch.generate"⟩ []
  | _ => .tick [.retry 1 "waiting for capacity" false]

def heldJob : List (ℕ × Outside) :=
  List.replicate 3 (0, { now := 0 }) ++ List.replicate 4 (1, { now := 86399900 }) ++
    [(1, { now := 86400100 })]

/-- The record has expired by the time the job is put back, and reads as no job's then. -/
theorem lateRetry_not_survives :
    InTime (heldJob ++ [(1, { now := 86400100 })]) ∧
      (get (Uuid.numbered 0).hex).run (Outside.answers { now := 86400100 })
          (tasksAfter .shipped deferred (heldJob ++ [(1, { now := 86400100 })])).store =
        (.error (.keyError "id"),
          (tasksAfter .shipped deferred (heldJob ++ [(1, { now := 86400100 })])).store) ∧
      ¬ Survives .shipped deferred (heldJob ++ [(1, { now := 86400100 })]) := by
  have hupdate : key (Uuid.numbered 0).hex ∈
      nextUpdate ((tasksAfter .shipped deferred heldJob).rest 1) := by decide +kernel
  have habsent : Redis.live 86400100 (tasksAfter .shipped deferred heldJob).store
      (key (Uuid.numbered 0).hex) = none :=
    Option.not_isSome_iff_eq_none.mp (by decide +kernel)
  obtain ⟨id, raw, -, hne, hid, hlive⟩ :=
    @partial_of_update _ _ _ _ heldJob (1, { now := 86400100 }) _ hupdate habsent
  refine ⟨by decide +kernel, run_get_partial hlive hne hid, fun h ↦ ?_⟩
  rw [h.gone heldJob (1, { now := 86400100 }) [] rfl _ hupdate habsent] at hlive
  cases hlive

end HealingGateway.Queue
