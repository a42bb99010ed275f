import HealingGateway.Expiry

namespace HealingGateway.Worker

open Programs Programs.Prog Numerals JsonText Queue

section Stores

/-- The status in a job's record, expired or not. -/
def statusOf (db : Redis.Db) (id : String) : Option String :=
  match db (Queue.key id) with
  | some ⟨.hash raw, _⟩ => raw.lookup "status"
  | _ => none

def Awaits (db : Redis.Db) (id : String) : Prop :=
  ∃ z t, db ready = some ⟨.zset z, t⟩ ∧ z.Mem id

/-- A job has a home: it is queued, or it has come to its end. -/
def Home (db : Redis.Db) (id : String) : Prop :=
  (statusOf db id = some Status.queued.value ∧ Awaits db id) ∨
    ∃ status : Status, status.terminal = true ∧ statusOf db id = some status.value

def QueueKey (k : String) : Prop := "job:".toList <+: k.toList ∨ k = ready ∨ k = dlq

instance (k : String) : Decidable (QueueKey k) := inferInstanceAs (Decidable (_ ∨ _ ∨ _))

theorem queueKey_key (id : String) : QueueKey (Queue.key id) :=
  .inl ⟨id.toList, by simp [Queue.key]⟩

theorem queueKey_ready : QueueKey ready := .inr (.inl rfl)

theorem queueKey_dlq : QueueKey dlq := .inr (.inr rfl)

/-- A record names the job it is filed under. -/
def Filed (db : Redis.Db) : Prop :=
  ∀ id raw t name, db (Queue.key id) = some ⟨.hash raw, t⟩ → raw.lookup "id" = some name → name = id

variable {db db' : Redis.Db} {id : String}

theorem statusOf_congr (h : db (Queue.key id) = db' (Queue.key id)) :
    statusOf db id = statusOf db' id := by
  rw [statusOf, statusOf, h]

theorem awaits_congr (h : db ready = db' ready) : Awaits db id ↔ Awaits db' id := by
  rw [Awaits, Awaits, h]

theorem home_congr (hkey : db (Queue.key id) = db' (Queue.key id)) (hready : db ready = db' ready) :
    Home db id ↔ Home db' id := by
  rw [Home, Home, statusOf_congr hkey, awaits_congr hready]

/-- Marked as running and taken out of the ready set, a job has no home. -/
theorem not_home (hstatus : statusOf db id = some Status.running.value) (hready : ¬ Awaits db id) :
    ¬ Home db id := by
  rintro (⟨-, h⟩ | ⟨status, hterminal, h⟩)
  · exact hready h
  · rw [hstatus] at h
    cases status with
    | queued | running => cases hterminal
    | done | failed | dead => exact absurd h (by decide)

theorem statusOf_update {old fields : List (String × String)} {t : Option ℤ} {status : Status}
    (hkeys : (fields.map Prod.fst).Nodup) (hstatus : ("status", status.value) ∈ fields) :
    statusOf (Function.update db (Queue.key id) (some ⟨.hash (Dicts.merge old fields), t⟩)) id =
      some status.value := by
  simp only [statusOf, Function.update_self]
  exact Dicts.lookup_merge_of_mem hkeys hstatus old

end Stores

/-- A world whose store holds the queue: what it answers there it answers as Redis does, and
nothing else touches what the queue keeps. -/
structure KeepsQueue {σ : Type} (h : Handler Cmd Reply σ) (db : σ → Redis.Db) : Prop where
  answered : ∀ c s r, (∀ k ∈ c.keys, QueueKey k) → (h (.redis c) s).1 = .ok r →
    ∃ now, Redis.exec now c (db s) = (.ok r, db (h (.redis c) s).2)
  untouched : ∀ c s k, QueueKey k → k ∉ c.keys → db (h c s).2 k = db s k
  read : ∀ c s k, QueueKey k → c.reads = true → db (h (.redis c) s).2 k = db s k

/-- The queue's writes succeed. -/
def accepted (e : Event Cmd Reply) : Prop :=
  (match e.cmd, e.reply with
    | .redis (.write w), r => !decide (QueueKey w.key) || r.isOk
    | _, _ => true) = true

instance (e : Event Cmd Reply) : Decidable (accepted e) := inferInstanceAs (Decidable (_ = true))

theorem accepted_write {g : Bool} {w : Redis.Write} {r : Except Exn Unit} (hw : QueueKey w.key)
    (h : accepted ⟨g, .redis (.write w), r⟩) : r.isOk = true := by
  simpa [accepted, hw] using h

section Filing

variable {db : Redis.Db} {now : ℤ}

theorem Filed.named {d : Redis.Db} (hd : Filed d) {id : String} {now : ℤ} {raw : List (String × String)}
    (hraw : Redis.asHash (Redis.live now d (Queue.key id)) = .ok raw) {name : String}
    (hname : raw.lookup "id" = some name) : name = id := by
  unfold Redis.asHash at hraw
  split at hraw
  · cases hraw
    cases hname
  · next hlive =>
    cases hraw
    exact hd id _ _ _ (Redis.live_eq_some.mp hlive).1 hname
  · cases hraw

theorem id_of_jobOf {raw : List (String × String)} {job : Job} (h : jobOf raw = .ok (some job)) :
    raw.lookup "id" = some job.id := (readJob_eq_ok (readJob_of_jobOf h)).1

theorem Filed.congr {d d' : Redis.Db} (hd : Filed d)
    (hk : ∀ id, d' (Queue.key id) = d (Queue.key id)) : Filed d' := by
  intro id raw t name hrecord
  rw [hk] at hrecord
  exact hd id raw t name hrecord

theorem Filed.elsewhere (hf : Filed db) {k : String} (hk : ∀ id, Queue.key id ≠ k)
    (e : Option Redis.Entry) : Filed (Function.update db k e) := by
  intro id raw t name hrecord
  rw [Function.update_of_ne (hk id)] at hrecord
  exact hf id raw t name hrecord

/-- A job's record may be replaced by one that names the job, or none. -/
theorem Filed.job (hf : Filed db) (id : String) {e : Option Redis.Entry}
    (he : ∀ raw t name, e = some ⟨.hash raw, t⟩ → raw.lookup "id" = some name → name = id) :
    Filed (Function.update db (Queue.key id) e) := by
  intro id' raw t name hrecord
  by_cases hid : id' = id
  · subst hid
    rw [Function.update_self] at hrecord
    exact he raw t name hrecord
  · have hne : Queue.key id' ≠ Queue.key id := by
      intro hkey
      exact hid (by simpa [Queue.key] using hkey)
    rw [Function.update_of_ne hne] at hrecord
    exact hf id' raw t name hrecord

theorem Filed.hset (hf : Filed db) (id : String) {fields : List (String × String)}
    (hfields : ∀ old name, (Dicts.merge old fields).lookup "id" = some name →
      old.lookup "id" = some name ∨ name = id) :
    Filed (Redis.execWrite now (.hset (Queue.key id) fields) db).2 := by
  rcases Redis.execWrite_cases now (.hset (Queue.key id) fields) db with ⟨e, h⟩ | ⟨db', h⟩
  · rw [h]
    exact hf
  · obtain ⟨old, t, rfl, hold⟩ := Redis.eq_of_hset h
    rw [h]
    apply hf.job
    rintro _ _ name ⟨⟩ hname
    rcases hfields old name hname with hname | hname
    · rcases hold with rfl | hold
      · cases hname
      · exact hf id old t name hold hname
    · exact hname

theorem Filed.expire (hf : Filed db) (id : String) (seconds : ℤ) :
    Filed (Redis.execWrite now (.expire (Queue.key id) seconds) db).2 := by
  rcases Redis.execWrite_cases now (.expire (Queue.key id) seconds) db with ⟨e, h⟩ | ⟨db', h⟩
  · rw [h]
    exact hf
  · obtain ⟨e, rfl, he⟩ := Redis.eq_of_expire h
    rw [h]
    apply hf.job
    rintro raw t name rfl hname
    obtain he | ⟨v, _, t', he, hdb⟩ := he
    · cases he
    · cases he
      exact hf id raw t' name hdb hname

theorem Filed.zadd (hf : Filed db) {k : String} (hk : ∀ id, Queue.key id ≠ k) (m : String)
    (score : ℤ) : Filed (Redis.execWrite now (.zadd k m score) db).2 := by
  rcases Redis.execWrite_cases now (.zadd k m score) db with ⟨e, h⟩ | ⟨db', h⟩
  · rw [h]
    exact hf
  · obtain ⟨z, t, rfl, -⟩ := Redis.eq_of_zadd h
    rw [h]
    exact hf.elsewhere hk _

/-- What the queue's tasks do leaves every record under its own job. -/
theorem Filed.step (hf : Filed db) {c : Cmd} (hc : allowed c) (o : Outside) :
    Filed (o.answers c db).2 := by
  cases c with
  | redis r =>
    cases r with
    | write w =>
      cases w with
      | hset k fields =>
        obtain ⟨⟨id, rfl⟩, hfields⟩ := hc
        refine hf.hset id (fun old name hname ↦ .inl ?_)
        rwa [hfields.lookup_merge (by decide)] at hname
      | zadd k m score =>
        rcases hc with rfl | rfl
        · exact hf.zadd key_ne_ready m score
        · exact hf.zadd key_ne_dlq m score
      | zremrangebyscore | expire => cases hc
    | pipeline ws =>
      obtain ⟨config, id, m, payload, created, rfl⟩ := hc
      refine ((hf.hset id (fun old name hname ↦ .inr ?_)).expire id _).zadd key_ne_ready id created
      have hid : (Dicts.merge old (newRecord id m payload created)).lookup "id" = some id :=
        Dicts.lookup_merge_of_mem (by simp [newRecord]) (by simp [newRecord]) old
      exact Option.some.inj (hname.symm.trans hid)
    | zpopmin k =>
      obtain rfl : k = ready := hc
      exact hf.congr (fun id ↦ Redis.exec_frame (by simpa [Redis.Command.keys] using key_ne_ready id)
        o.now db)
    | delete | set => cases hc
    | hgetall | get | zrangebyscore | zrange | zcard => exact hf
  | _ => exact hf

theorem filed_tasksAfter {ι : Type} [DecidableEq ι] (config : GatewayConfig) (tasks : ι → Task)
    (turns : List (ι × Outside)) : Filed (tasksAfter config tasks turns).store := by
  induction turns using List.reverseRec with
  | nil =>
    intro id raw t name hrecord
    cases hrecord
  | append_singleton turns turn ih =>
    rw [tasksAfter, Pool.run_append_singleton]
    exact (obedient_tasksAfter config tasks turns).store_step ih (fun c hc ↦ ih.step hc turn.2)

end Filing

end HealingGateway.Worker
