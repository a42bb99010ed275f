import HealingGateway.JobHomes
import Mathlib.Tactic.FinCases

namespace HealingGateway.Queue

open Programs Programs.Prog Numerals JsonText Redis
open Worker (Filed)

def orNone (error : String) : Option String := if error = "" then none else some error

def recordOf (job : Job) : List (String × String) :=
  [("id", job.id),
    ("status", job.status.value),
    ("meta", metaText job.metadata),
    ("payload", dumps (.obj job.payload)),
    ("attempts", intString job.attempts),
    ("created_at_ms", intString job.createdAtMs),
    ("updated_at_ms", intString job.updatedAtMs),
    ("result", (job.result.map dumps).getD ""),
    ("error", job.error.getD "")]

/-- A job as it was accepted. -/
def acceptedJob (jobId : String) (metadata : RequestMetadata) (payload : List (String × Json))
    (now : ℤ) : Job where
  id := jobId
  status := .queued
  metadata
  payload
  createdAtMs := now
  updatedAtMs := now

def Ending.apply (held : Job) (now : ℤ) (job : Job) : Ending → Job
  | retry _ error count =>
    { job with
      status := .queued, updatedAtMs := now, error := orNone error
      attempts := if count then held.attempts + 1 else held.attempts }
  | complete result =>
    { job with status := .done, updatedAtMs := now, result := some result, error := none }
  | fail error => { job with status := .failed, updatedAtMs := now, error := orNone error }
  | deadLetter error => { job with status := .dead, updatedAtMs := now, error := orNone error }

/-- One operation on a job: a pop, that may take it, or its holder's way of ending it. -/
inductive Handling
  | pop (o : Outside)
  | finish (o : Outside) (held : Job) (e : Ending)

namespace Handling

def outside : Handling → Outside
  | pop o => o
  | finish o _ _ => o

/-- Whoever ends a job holds this one. -/
def Holds (jobId : String) : Handling → Prop
  | pop _ => True
  | finish _ held _ => held.id = jobId

def exec : Handling → Db → Db
  | pop o, db => (popDue.run o.answers db).2
  | finish o held e, db => ((e.body held).run o.answers db).2

def takes (jobId : String) (o : Outside) (db : Db) : Bool :=
  match (popDue.run o.answers db).1 with
  | .ok (some job) => job.id = jobId
  | _ => false

def apply (db : Db) (job : Job) : Handling → Job
  | pop o =>
    if takes job.id o db then { job with status := .running, updatedAtMs := o.now } else job
  | finish o held e => e.apply held o.now job

end Handling

/-- The store and the job after some operations. -/
def handled (history : List Handling) (db : Db) (job : Job) : Db × Job :=
  history.foldl (fun (r : Db × Job) h ↦ (h.exec r.1, h.apply r.1 r.2)) (db, job)

/-- The store's indexes are sorted sets, and every record is filed under its own job. -/
structure Indexed (db : Db) : Prop where
  ready : ZsetAt db ready
  dlq : ZsetAt db dlq
  filed : Filed db

/-- The store spells a job, until `deadline`. -/
structure Stored (deadline : ℤ) (job : Job) (db : Db) : Prop where
  record : db (key job.id) = some ⟨.hash (recordOf job), some deadline⟩
  indexed : Indexed db
  error_ne : job.error ≠ some ""

section Indexes

variable {db : Db} {now : ℤ} {o : Outside}

theorem zsetAt_write {k : String} (h : ZsetAt db k) {w : Write}
    (hw : k = w.key → ∃ m s, w = .zadd k m s) : ZsetAt (execWrite now w db).2 k := by
  by_cases hk : k = w.key
  · obtain ⟨m, s, rfl⟩ := hw hk
    obtain ⟨z, t, hexec⟩ := h.zadd now m s
    rw [hexec]
    exact zsetAt_update (.inr ⟨z, t, rfl⟩)
  · exact h.congr (execWrite_frame hk now db)

theorem zsetAt_step {k : String} (hk : k = ready ∨ k = dlq) (h : ZsetAt db k) {c : Cmd}
    (hc : allowed c) : ZsetAt (o.answers c db).2 k := by
  have hjob : ∀ id, k ≠ key id := by
    rcases hk with rfl | rfl
    · exact fun id ↦ (key_ne_ready id).symm
    · exact fun id ↦ (key_ne_dlq id).symm
  cases c with
  | redis r =>
    cases r with
    | write w =>
      refine zsetAt_write h (fun hkey ↦ ?_)
      cases w with
      | hset k' fields =>
        obtain ⟨⟨id, rfl⟩, -⟩ := hc
        exact absurd hkey (hjob id)
      | zadd k' m s => exact ⟨m, s, by rw [hkey]; rfl⟩
      | zremrangebyscore | expire => cases hc
    | pipeline ws =>
      obtain ⟨config, id, m, payload, created, rfl⟩ := hc
      change ZsetAt (execPipeline o.now (enqueueWrites config id m payload created) db).2 k
      simp only [enqueueWrites, execPipeline_cons_snd]
      refine zsetAt_write (zsetAt_write (zsetAt_write h ?_) ?_) (fun hkey ↦ ⟨id, created, ?_⟩)
      · exact fun hkey ↦ absurd hkey (hjob id)
      · exact fun hkey ↦ absurd hkey (hjob id)
      · rw [hkey]
        rfl
    | zpopmin k' =>
      obtain rfl : k' = ready := hc
      by_cases hr : k = ready
      · subst hr
        obtain ⟨r, e, hexec, hz⟩ := h.zpopmin o.now
        simp only [Outside.answers, hexec]
        exact hz
      · exact h.congr (exec_frame (by simpa [Command.keys] using hr) o.now db)
    | delete | set => cases hc
    | hgetall | get | zrangebyscore | zrange | zcard => exact h
  | _ => exact h

theorem Indexed.step (h : Indexed db) {c : Cmd} (hc : allowed c) : Indexed (o.answers c db).2 :=
  ⟨zsetAt_step (.inl rfl) h.ready hc, zsetAt_step (.inr rfl) h.dlq hc, h.filed.step hc o⟩

theorem Indexed.run {α : Type} {p : Gateway α} (hp : p.Only allowed) (h : Indexed db) :
    Indexed (p.run o.answers db).2 := by
  induction p generalizing db with
  | done a => exact h
  | throw e => exact h
  | call g c k ih => exact ih _ (hp.2 _) (h.step hp.1)

theorem indexed_tasksAfter {ι : Type} [DecidableEq ι] (config : GatewayConfig) (tasks : ι → Task)
    (turns : List (ι × Outside)) : Indexed (tasksAfter config tasks turns).store := by
  induction turns using List.reverseRec with
  | nil => exact ⟨.inl rfl, .inl rfl, fun _ _ _ _ h ↦ by cases h⟩
  | append_singleton turns turn ih =>
    rw [tasksAfter, Pool.run_append_singleton]
    exact (obedient_tasksAfter config tasks turns).store_step ih (fun c hc ↦ ih.step hc)

end Indexes

section Records

variable {deadline : ℤ} {job job' : Job} {db : Db} {o : Outside}

theorem orNone_ne (error : String) : orNone error ≠ some "" := by
  unfold orNone
  split
  · exact fun h ↦ by cases h
  · next h => exact fun he ↦ h (Option.some.inj he)

theorem getD_orNone (error : String) : (orNone error).getD "" = error := by
  unfold orNone
  split
  · next h => rw [h]; rfl
  · rfl

theorem readJob_recordOf (herror : job.error ≠ some "") : readJob (recordOf job) = .ok job := by
  have hresult : parseResult ((job.result.map dumps).getD "") = some job.result := by
    cases hr : job.result with
    | none => rfl
    | some j => simp [parseResult, dumps_ne_empty]
  have herr : parseError (job.error.getD "") = some job.error := by
    cases he : job.error with
    | none => rfl
    | some text =>
      have hne : text ≠ "" := fun h ↦ herror (by rw [he, h])
      simp [parseError, hne]
  simp [readJob, recordOf, required, List.lookup_cons, parsePayload, hresult, herr]
  rfl

theorem newRecord_eq (jobId : String) (m : RequestMetadata) (payload : List (String × Json))
    (now : ℤ) : newRecord jobId m payload now = recordOf (acceptedJob jobId m payload now) := by
  have hzero : intString 0 = "0" := by decide
  simp [newRecord, recordOf, acceptedJob, hzero]

theorem Stored.live (h : Stored deadline job db) (ho : o.now ≤ deadline) :
    Redis.live o.now db (key job.id) = some ⟨.hash (recordOf job), some deadline⟩ := by
  refine live_eq_some.mpr ⟨h.record, ?_⟩
  simp only [Entry.expired, decide_eq_false_iff_not]
  omega

theorem Stored.run_get (h : Stored deadline job db) (ho : o.now ≤ deadline) :
    (get job.id).run o.answers db = (.ok (some job), db) := by
  have hget : o.answers (.redis (.hgetall (key job.id))) db = (.ok (recordOf job), db) :=
    Outside.answers_redis (by simp only [Redis.exec, h.live ho, asHash])
  have hread := readJob_recordOf h.error_ne
  rw [get, run_redis_bind _ hget]
  simp only [recordOf] at hread ⊢
  rw [hread]
  rfl

theorem Stored.update (h : Stored deadline job db) (ho : o.now ≤ deadline)
    (fields : List (String × String)) {now : ℤ}
    (hf : Update (fields ++ [("updated_at_ms", intString now)]))
    (hmerge : Dicts.merge (recordOf job) (fields ++ [("updated_at_ms", intString now)]) =
      recordOf job') (hid : job'.id = job.id) (herror : job'.error ≠ some "") :
    ∃ db', (Queue.update job.id now fields).run o.answers db = (.ok (), db') ∧
      Stored deadline job' db' := by
  have hexec : Redis.execWrite o.now (.hset (key job.id)
      (fields ++ [("updated_at_ms", intString now)])) db = (.ok (), Function.update db (key job.id)
        (some ⟨.hash (recordOf job'), some deadline⟩)) :=
    execWrite_ok (by simp only [Write.key, h.live ho, Write.apply, hmerge])
  have hrun : (Queue.update job.id now fields).run o.answers db = (.ok (),
      Function.update db (key job.id) (some ⟨.hash (recordOf job'), some deadline⟩)) := by
    rw [Queue.update, run_redis]
    exact Outside.answers_redis hexec
  have hindexed := h.indexed.run (o := o) (only_update job.id now hf)
  rw [hrun] at hindexed
  exact ⟨_, hrun, by rw [hid]; exact Function.update_self .., hindexed, herror⟩

theorem Stored.zadd (h : Stored deadline job db) {k : String} (hk : k = ready ∨ k = dlq)
    (m : String) (score : ℤ) :
    ∃ db', (redis (.write (.zadd k m score))).run o.answers db = (.ok (), db') ∧
      Stored deadline job db' := by
  have hz : ZsetAt db k := by
    rcases hk with rfl | rfl
    · exact h.indexed.ready
    · exact h.indexed.dlq
  have hne : key job.id ≠ k := by
    rcases hk with rfl | rfl
    · exact key_ne_ready _
    · exact key_ne_dlq _
  obtain ⟨z, t, hexec⟩ := hz.zadd o.now m score
  have hrun : (redis (.write (.zadd k m score))).run o.answers db =
      (.ok (), Function.update db k (some ⟨.zset z, t⟩)) := by
    rw [run_redis]
    exact Outside.answers_redis hexec
  have hindexed := h.indexed.run (o := o) (p := redis (.write (.zadd k m score))) (only_redis hk)
  rw [hrun] at hindexed
  exact ⟨_, hrun, by rw [Function.update_of_ne hne]; exact h.record, hindexed, h.error_ne⟩

def Ending.fields (held : Job) : Ending → List (String × String)
  | retry _ error count =>
    [("status", Status.queued.value),
      ("attempts", intString (if count then held.attempts + 1 else held.attempts)),
      ("error", error)]
  | complete result => [("status", Status.done.value), ("result", dumps result), ("error", "")]
  | fail error => [("status", Status.failed.value), ("error", error)]
  | deadLetter error => [("status", Status.dead.value), ("error", error)]

theorem merge_apply (held : Job) (now : ℤ) (job : Job) (e : Ending) :
    Dicts.merge (recordOf job) (e.fields held ++ [("updated_at_ms", intString now)]) =
      recordOf (e.apply held now job) := by
  cases e <;> simp [Ending.fields, recordOf, Dicts.set, Ending.apply, getD_orNone]

theorem Ending.update_fields (held : Job) (now : ℤ) (e : Ending) :
    Update (e.fields held ++ [("updated_at_ms", intString now)]) := by
  cases e with
  | retry delayS error count =>
    exact update_status _ (update_attempts _ (update_error _ (update_instant now)))
  | complete result => exact update_status _ (update_result _ (update_error _ (update_instant now)))
  | fail error => exact update_status _ (update_error _ (update_instant now))
  | deadLetter error => exact update_status _ (update_error _ (update_instant now))

theorem Ending.apply_id (held : Job) (now : ℤ) (job : Job) (e : Ending) :
    (e.apply held now job).id = job.id := by
  cases e <;> rfl

theorem Ending.apply_error (held : Job) (now : ℤ) (job : Job) (e : Ending) :
    (e.apply held now job).error ≠ some "" := by
  cases e with
  | complete result => exact fun h ↦ by cases h
  | retry delayS error count => exact orNone_ne error
  | fail error => exact orNone_ne error
  | deadLetter error => exact orNone_ne error

theorem Stored.finish (h : Stored deadline job db) (ho : o.now ≤ deadline) {held : Job}
    (hheld : held.id = job.id) (e : Ending) :
    ∃ db', (e.body held).run o.answers db = (.ok (), db') ∧
      Stored deadline (e.apply held o.now job) db' := by
  obtain ⟨db₁, hupdate, h₁⟩ := h.update ho (e.fields held) (e.update_fields held o.now)
    (merge_apply held o.now job e) (e.apply_id held o.now job) (e.apply_error held o.now job)
  rw [← hheld] at hupdate
  unfold Ending.fields at hupdate
  cases e with
  | retry delayS error count =>
    obtain ⟨db₂, hzadd, h₂⟩ := h₁.zadd (o := o) (.inl rfl) held.id
      (o.now + truncate (delayS * 1000))
    rw [Ending.body, Queue.retry, LawfulMonad.bind_assoc, run_bind_ok _ (o.run_nowMs db)]
    simp only [LawfulMonad.bind_assoc]
    rw [run_bind_ok _ hupdate, run_bind_ok _ hzadd]
    exact ⟨db₂, rfl, h₂⟩
  | complete result =>
    rw [Ending.body, Queue.complete, run_bind_ok _ (o.run_nowMs db), hupdate]
    exact ⟨db₁, rfl, h₁⟩
  | fail error =>
    rw [Ending.body, Queue.fail, run_bind_ok _ (o.run_nowMs db), hupdate]
    exact ⟨db₁, rfl, h₁⟩
  | deadLetter error =>
    obtain ⟨db₂, hzadd, h₂⟩ := h₁.zadd (o := o) (.inr rfl) held.id o.now
    rw [Ending.body, Queue.deadLetter, run_bind_ok _ (o.run_nowMs db), run_bind_ok _ hupdate,
      hzadd]
    exact ⟨db₂, rfl, h₂⟩

theorem run_get_eq (o : Outside) (db : Db) (m : String) :
    (get m).run o.answers db =
      (((asHash (Redis.live o.now db (key m))).mapError errorExn).bind jobOf, db) := by
  rw [get_eq, run_bind, run_redis]
  simp only [Outside.answers, Redis.exec]
  cases asHash (Redis.live o.now db (key m)) with
  | error e => rfl
  | ok raw => exact run_ofExcept _ (jobOf raw) db

theorem id_of_get (hf : Filed db) {o : Outside} {m : String} {popped : Job}
    (h : ((get m).run o.answers db).1 = .ok (some popped)) : popped.id = m := by
  rw [run_get_eq] at h
  cases hraw : asHash (Redis.live o.now db (key m)) with
  | error e =>
    rw [hraw] at h
    cases h
  | ok raw =>
    rw [hraw] at h
    exact hf.named hraw (Worker.id_of_jobOf h)

theorem Stored.congr {db' : Db} (h : Stored deadline job db) (hk : db' (key job.id) = db (key job.id))
    (hindexed : Indexed db') : Stored deadline job db' :=
  ⟨hk.trans h.record, hindexed, h.error_ne⟩

theorem Stored.update_other (h : Stored deadline job db) {m : String} (hm : m ≠ job.id)
    (fields : List (String × String)) (hfields : Update (fields ++ [("updated_at_ms", intString o.now)])) :
    Stored deadline job ((Queue.update m o.now fields).run o.answers db).2 := by
  have hne : key job.id ≠ key m := fun hk ↦ hm (by simpa [key] using hk.symm)
  refine h.congr ?_ (h.indexed.run (only_update m o.now hfields))
  rw [Queue.update, run_redis]
  exact o.answers_frame (by simpa [Cmd.keys, Command.keys, Write.key] using hne) db

theorem Stored.claim_other (h : Stored deadline job db) {m : String} (hm : m ≠ job.id) (readyAtMs : ℤ)
    (hdue : ¬ o.now < readyAtMs) :
    ∃ r db', (claim m readyAtMs o.now).run o.answers db = (r, db') ∧ Stored deadline job db' ∧
      ∀ popped, r = .ok (some popped) → popped.id ≠ job.id := by
  rw [Queue.claim, if_neg hdue]
  have hget := run_get_eq o db m
  have hid : ∀ popped, ((get m).run o.answers db).1 = .ok (some popped) → popped.id = m :=
    fun _ hpopped ↦ id_of_get h.indexed.filed hpopped
  generalize ((asHash (Redis.live o.now db (key m))).mapError errorExn).bind _ = r at hget
  rw [hget] at hid
  rw [run_bind, hget]
  rcases r with e | _ | popped
  · exact ⟨_, db, rfl, h, fun _ hp ↦ by cases hp⟩
  · exact ⟨_, db, rfl, h, fun _ hp ↦ by cases hp⟩
  · have hother : popped.id ≠ job.id := (hid popped rfl).trans_ne hm
    have h₁ := h.update_other (o := o) hm [("status", Status.running.value)]
      (update_status .running (update_instant o.now))
    simp only
    rw [run_bind]
    rcases hrun : (Queue.update m o.now [("status", Status.running.value)]).run o.answers db with
      ⟨e | u, db₁⟩ <;> rw [hrun] at h₁
    · exact ⟨_, db₁, rfl, h₁, fun _ hp ↦ by cases hp⟩
    · refine ⟨_, db₁, rfl, h₁, ?_⟩
      rintro _ ⟨⟩
      exact hother

theorem Stored.claim (h : Stored deadline job db) (ho : o.now ≤ deadline) (m : String)
    (readyAtMs : ℤ) :
    (∃ db', (claim m readyAtMs o.now).run o.answers db = (.ok (some job), db') ∧
        Stored deadline { job with status := .running, updatedAtMs := o.now } db') ∨
      ∃ r db', (claim m readyAtMs o.now).run o.answers db = (r, db') ∧ Stored deadline job db' ∧
        ∀ popped, r = .ok (some popped) → popped.id ≠ job.id := by
  by_cases hdue : o.now < readyAtMs
  · obtain ⟨db₁, hzadd, h₁⟩ := h.zadd (o := o) (.inl rfl) m readyAtMs
    rw [Queue.claim, if_pos hdue, run_bind_ok _ hzadd]
    exact .inr ⟨_, db₁, rfl, h₁, fun _ hp ↦ by cases hp⟩
  by_cases hm : m = job.id
  · subst hm
    have hmerge : Dicts.merge (recordOf job) ([("status", Status.running.value)] ++
        [("updated_at_ms", intString o.now)]) =
          recordOf { job with status := .running, updatedAtMs := o.now } := by
      simp [recordOf, Dicts.set]
    obtain ⟨db₁, hupdate, h₁⟩ := h.update ho [("status", Status.running.value)]
      (update_status .running (update_instant o.now)) hmerge rfl h.error_ne
    rw [Queue.claim, if_neg hdue, run_bind_ok _ (h.run_get ho)]
    simp only
    rw [run_bind_ok _ hupdate]
    exact .inl ⟨db₁, rfl, h₁⟩
  · exact .inr (h.claim_other hm readyAtMs hdue)

/-- A pop takes the job as it stands, or leaves it alone. -/
theorem Stored.pop (h : Stored deadline job db) (ho : o.now ≤ deadline) :
    (∃ db', popDue.run o.answers db = (.ok (some job), db') ∧
        Stored deadline { job with status := .running, updatedAtMs := o.now } db') ∨
      ∃ r db', popDue.run o.answers db = (r, db') ∧ Stored deadline job db' ∧
        ∀ popped, r = .ok (some popped) → popped.id ≠ job.id := by
  obtain ⟨popped, e, hexec, -⟩ := h.indexed.ready.zpopmin o.now
  have hanswer := Outside.answers_redis (o := o) (c := .zpopmin ready) hexec
  have hindexed := h.indexed.step (o := o) (c := .redis (.zpopmin ready)) rfl
  rw [hanswer] at hindexed
  have h₁ := h.congr (Function.update_of_ne (key_ne_ready _) _ _) hindexed
  rw [popDue, run_bind_ok _ (o.run_nowMs db), run_redis_bind _ hanswer]
  rcases popped with _ | ⟨m, readyAtMs⟩
  · exact .inr ⟨_, _, rfl, h₁, fun _ hp ↦ by cases hp⟩
  · exact h₁.claim ho m readyAtMs

theorem Stored.takes_eq (h : Stored deadline job db) (ho : o.now ≤ deadline) :
    Handling.takes job.id o db = true ∧
        Stored deadline { job with status := .running, updatedAtMs := o.now }
          (popDue.run o.answers db).2 ∨
      Handling.takes job.id o db = false ∧ Stored deadline job (popDue.run o.answers db).2 := by
  rcases h.pop ho with ⟨db', hrun, h'⟩ | ⟨r, db', hrun, h', hother⟩
  · exact .inl ⟨by simp [Handling.takes, hrun], by rwa [hrun]⟩
  · refine .inr ⟨?_, by rwa [hrun]⟩
    rw [Handling.takes, hrun]
    rcases r with e | _ | popped
    · rfl
    · rfl
    · exact decide_eq_false (hother popped rfl)

/-- Every operation leaves the record of what the job then is. -/
theorem Stored.handle (h : Stored deadline job db) {a : Handling} (ha : a.outside.now ≤ deadline)
    (hheld : a.Holds job.id) : Stored deadline (a.apply db job) (a.exec db) := by
  cases a with
  | finish o held e =>
    change o.now ≤ deadline at ha
    obtain ⟨db', hrun, h'⟩ := h.finish ha hheld e
    rw [Handling.exec, hrun]
    exact h'
  | pop o =>
    change o.now ≤ deadline at ha
    rcases h.takes_eq ha with ⟨htakes, h'⟩ | ⟨htakes, h'⟩
    · rw [Handling.apply, if_pos htakes]
      exact h'
    · rw [Handling.apply, if_neg (by simp [htakes])]
      exact h'

/-- What no operation on a job changes. -/
def Same (job job' : Job) : Prop :=
  job'.id = job.id ∧ job'.metadata = job.metadata ∧ job'.payload = job.payload ∧
    job'.createdAtMs = job.createdAtMs

theorem same_apply (a : Handling) (db : Db) (job : Job) : Same job (a.apply db job) := by
  cases a with
  | finish o held e => cases e <;> exact ⟨rfl, rfl, rfl, rfl⟩
  | pop o =>
    rw [Handling.apply]
    split <;> exact ⟨rfl, rfl, rfl, rfl⟩

theorem handled_append_singleton (history : List Handling) (a : Handling) (db : Db) (job : Job) :
    handled (history ++ [a]) db job = (a.exec (handled history db job).1,
      a.apply (handled history db job).1 (handled history db job).2) := by
  simp [handled]

theorem stored_handled (h : Stored deadline job db) {history : List Handling}
    (htime : ∀ a ∈ history, a.outside.now ≤ deadline) (hheld : ∀ a ∈ history, a.Holds job.id) :
    Same job (handled history db job).2 ∧
      Stored deadline (handled history db job).2 (handled history db job).1 := by
  induction history using List.reverseRec with
  | nil => exact ⟨⟨rfl, rfl, rfl, rfl⟩, h⟩
  | append_singleton history a ih =>
    obtain ⟨hsame, hstored⟩ := ih (fun b hb ↦ htime b (List.mem_append_left _ hb))
      (fun b hb ↦ hheld b (List.mem_append_left _ hb))
    have ha : a.Holds (handled history db job).2.id := by
      rw [hsame.1]
      exact hheld a (by simp)
    obtain ⟨hid, hmeta, hpayload, hcreated⟩ :=
      same_apply a (handled history db job).1 (handled history db job).2
    rw [handled_append_singleton]
    exact ⟨⟨hid.trans hsame.1, hmeta.trans hsame.2.1, hpayload.trans hsame.2.2.1,
      hcreated.trans hsame.2.2.2⟩, hstored.handle (htime a (by simp)) ha⟩

/-- A job that is accepted is stored as it was accepted. -/
theorem stored_enqueue (config : GatewayConfig) (hindexed : Indexed db)
    (hfresh : db (key o.uuid.hex) = none) (httl : 0 < config.queue.jobTtlS)
    (m : RequestMetadata) (payload : List (String × Json)) :
    ∃ db', (enqueue config m payload).run o.answers db = (.ok o.uuid.hex, db') ∧
      Stored (o.now + config.queue.jobTtlS * 1000)
        (acceptedJob o.uuid.hex m payload o.now) db' := by
  obtain ⟨z, t, -, hexec⟩ := exec_enqueueWrites config o.now hfresh hindexed.ready httl m payload
  have hpipe := Outside.answers_redis hexec
  have hindexed' := hindexed.step (o := o)
    (c := .redis (.pipeline (enqueueWrites config o.uuid.hex m payload o.now)))
    ⟨config, _, m, payload, o.now, rfl⟩
  rw [hpipe] at hindexed'
  refine ⟨_, ?_, ?_, hindexed', fun h ↦ by cases h⟩
  · rw [enqueue, run_bind_ok _ (o.run_nowMs db), ask_bind, run_call]
    exact run_redis_bind _ hpipe _
  · rw [← newRecord_eq]
    simp only [acceptedJob]
    rw [Function.update_of_ne (key_ne_ready _), Function.update_self]

end Records

/-- A job accepted in any state that the queue's tasks reach is read back with what was
accepted and what was last set, after any operations by its holder before it expires. -/
theorem get_round_trips {ι : Type} [DecidableEq ι] (config : GatewayConfig) (tasks : ι → Task)
    (turns : List (ι × Outside)) (m : RequestMetadata) (payload : List (String × Json))
    {o : Outside} (httl : 0 < config.queue.jobTtlS)
    (hfresh : (tasksAfter config tasks turns).store (key o.uuid.hex) = none) :
    ∃ db, (enqueue config m payload).run o.answers (tasksAfter config tasks turns).store =
        (.ok o.uuid.hex, db) ∧
      ∀ history : List Handling,
        (∀ a ∈ history, a.outside.now ≤ o.now + config.queue.jobTtlS * 1000) →
        (∀ a ∈ history, a.Holds o.uuid.hex) →
        ∃ db' job, handled history db (acceptedJob o.uuid.hex m payload o.now) = (db', job) ∧
          Same (acceptedJob o.uuid.hex m payload o.now) job ∧
          ∀ o' : Outside, o'.now ≤ o.now + config.queue.jobTtlS * 1000 →
            (get o.uuid.hex).run o'.answers db' = (.ok (some job), db') ∧
            ∀ popped, (popDue.run o'.answers db').1 = .ok (some popped) →
              popped.id = o.uuid.hex → popped = job := by
  obtain ⟨db, hrun, hstored⟩ :=
    stored_enqueue config (indexed_tasksAfter config tasks turns) hfresh httl m payload
  refine ⟨db, hrun, fun history htime hheld ↦ ?_⟩
  obtain ⟨hsame, hstored'⟩ := stored_handled hstored htime hheld
  rcases hr : handled history db (acceptedJob o.uuid.hex m payload o.now) with ⟨db', job⟩
  rw [hr] at hsame hstored'
  refine ⟨db', job, rfl, hsame, fun o' ho' ↦ ⟨?_, fun popped hpopped hid ↦ ?_⟩⟩
  · have hget := hstored'.run_get ho'
    rwa [hsame.1] at hget
  · rcases hstored'.pop ho' with ⟨db₁, hpop, -⟩ | ⟨r, db₁, hpop, -, hother⟩
    · rw [hpop] at hpopped
      exact (Option.some.inj (Except.ok.inj hpopped)).symm
    · rw [hpop] at hpopped
      exact absurd (hid.trans hsame.1.symm) (hother popped hpopped)

def digest : Job :=
  acceptedJob (Uuid.numbered 0).hex ⟨"acme", "digest", "r1", "batch.generate"⟩ [("n", .int 1)] 0

def retriedOnce : List Handling :=
  [.pop { now := 0 }, .finish { now := 1000 } digest (.retry 5 "timeout" true)]

theorem get_round_trips_retriedOnce :
    ∃ db, (enqueue .shipped digest.metadata digest.payload).run (Outside.answers { now := 0 })
        (fun _ ↦ none) = (.ok digest.id, db) ∧
      ∃ job, ((get digest.id).run (Outside.answers { now := 2000 })
        (handled retriedOnce db digest).1).1 = .ok (some job) ∧ Same digest job := by
  obtain ⟨db, hrun, hall⟩ := @get_round_trips Unit _ .shipped (fun _ ↦ .tick []) []
    digest.metadata digest.payload { now := 0 } (by decide) rfl
  refine ⟨db, hrun, ?_⟩
  have htime : ∀ a ∈ retriedOnce, a.outside.now ≤ 0 + GatewayConfig.shipped.queue.jobTtlS * 1000 := by
    intro a ha
    fin_cases ha <;> decide
  have hheld : ∀ a ∈ retriedOnce, a.Holds digest.id := by
    intro a ha
    fin_cases ha
    · trivial
    · rfl
  obtain ⟨db', job, hr, hsame, hget⟩ := hall retriedOnce htime hheld
  refine ⟨job, ?_, hsame⟩
  have hr' : handled retriedOnce db digest = (db', job) := hr
  rw [hr']
  exact congrArg Prod.fst (hget { now := 2000 } (by decide)).1

end HealingGateway.Queue
