import HealingGateway.Outside
import HealingGateway.Queue

namespace HealingGateway.Queue

open Programs Programs.Prog Numerals JsonText Redis

/-- What a job's record holds, and which texts `get` can read there. -/
def schema : List (String × (String → Bool)) :=
  [("id", fun _ ↦ true),
    ("status", fun text ↦ (Status.ofValue? text).isSome),
    ("meta", fun text ↦ (parseMeta text).isSome),
    ("payload", fun text ↦ (parsePayload text).isSome),
    ("attempts", fun text ↦ (parseInt text).isSome),
    ("created_at_ms", fun text ↦ (parseInt text).isSome),
    ("updated_at_ms", fun text ↦ (parseInt text).isSome),
    ("result", fun text ↦ (parseResult text).isSome),
    ("error", fun _ ↦ true)]

def Readable (raw : List (String × String)) : Prop :=
  ∀ f ∈ schema, ∃ text, raw.lookup f.1 = some text ∧ f.2 text = true

def Fits (fields : List (String × String)) : Prop :=
  ∀ u ∈ fields, ∀ f ∈ schema, f.1 = u.1 → f.2 u.2 = true

theorem required_eq_ok {α : Type} {raw : List (String × String)} {name : String}
    {parse : String → Option α} {a : α} :
    required raw name parse = .ok a ↔ ∃ text, raw.lookup name = some text ∧ parse text = some a := by
  unfold required
  cases raw.lookup name with
  | none => simp
  | some text => cases hparse : parse text <;> simp [hparse]

theorem readJob_eq_ok {raw : List (String × String)} {job : Job} (h : readJob raw = .ok job) :
    raw.lookup "id" = some job.id ∧
      (∃ text, raw.lookup "payload" = some text ∧ parsePayload text = some job.payload) ∧
      ∃ text, raw.lookup "attempts" = some text ∧ parseInt text = some job.attempts := by
  simp only [readJob, bind_eq_ok, required_eq_ok] at h
  obtain ⟨id, ⟨_, hid, ⟨⟩⟩, status, -, m, -, payload, hpayload, attempts, hattempts, created, -, updated, -,
    result, -, error, -, hjob⟩ := h
  cases hjob
  exact ⟨hid, hpayload, hattempts⟩

/-- What `get` makes of a record. -/
def jobOf : List (String × String) → Except Exn (Option Job)
  | [] => .ok none
  | f :: raw => (readJob (f :: raw)).map some

theorem get_eq (jobId : String) :
    get jobId = redis (.hgetall (key jobId)) >>= fun raw ↦ ofExcept (jobOf raw) := by
  refine congrArg (redis (.hgetall (key jobId)) >>= ·) (funext fun raw ↦ ?_)
  cases raw with
  | nil => rfl
  | cons f raw =>
    change ofExcept (readJob (f :: raw)) >>= (fun job ↦ pure (some job)) = ofExcept _
    rw [jobOf]
    cases readJob (f :: raw) <;> rfl

theorem readJob_of_jobOf {raw : List (String × String)} {job : Job} (h : jobOf raw = .ok (some job)) :
    readJob raw = .ok job := by
  cases raw with
  | nil => cases h
  | cons f raw =>
    rw [jobOf] at h
    cases hjob : readJob (f :: raw) with
    | error e =>
      rw [hjob] at h
      cases h
    | ok job' =>
      rw [hjob] at h
      cases h
      rfl

theorem required_of_readable {α : Type} {raw : List (String × String)} (h : Readable raw) (n : ℕ)
    {name : String} {parse : String → Option α}
    (hf : schema[n]? = some (name, fun text ↦ (parse text).isSome)) :
    ∃ a, required raw name parse = .ok a := by
  obtain ⟨text, hlookup, hparse⟩ := h _ (List.mem_of_getElem? hf)
  obtain ⟨a, ha⟩ := Option.isSome_iff_exists.mp hparse
  simp only at hlookup
  exact ⟨a, by simp only [required, hlookup, ha]⟩

theorem readJob_of_readable {raw : List (String × String)} (h : Readable raw) :
    ∃ job, readJob raw = .ok job := by
  obtain ⟨id, hid⟩ : ∃ a, required raw "id" some = .ok a := required_of_readable h 0 rfl
  obtain ⟨status, hstatus⟩ := required_of_readable h 1 rfl
  obtain ⟨metadata, hmeta⟩ := required_of_readable h 2 rfl
  obtain ⟨payload, hpayload⟩ := required_of_readable h 3 rfl
  obtain ⟨attempts, hattempts⟩ := required_of_readable h 4 rfl
  obtain ⟨created, hcreated⟩ := required_of_readable h 5 rfl
  obtain ⟨updated, hupdated⟩ := required_of_readable h 6 rfl
  obtain ⟨result, hresult⟩ := required_of_readable h 7 rfl
  obtain ⟨error, herror⟩ : ∃ a, required raw "error" parseError = .ok a :=
    required_of_readable h 8 rfl
  simp only [readJob, hid, hstatus, hmeta, hpayload, hattempts, hcreated, hupdated, hresult,
    herror]
  exact ⟨_, rfl⟩

theorem Readable.merge {raw fields : List (String × String)} (h : Readable raw)
    (hf : Fits fields) : Readable (Dicts.merge raw fields) := by
  intro f hmem
  rcases Dicts.lookup_merge_cases raw fields f.1 with hl | ⟨text, htext, hl⟩
  · rw [hl]
    exact h f hmem
  · exact ⟨text, hl, hf _ htext f hmem rfl⟩

@[simp] theorem parseMeta_metaText (m : RequestMetadata) : parseMeta (metaText m) = some m := by
  simp [parseMeta, metaText, Json.get?, Json.str?, List.lookup_cons]

theorem fits_newRecord (jobId : String) (m : RequestMetadata) (payload : List (String × Json))
    (now : ℤ) : Fits (newRecord jobId m payload now) := by
  simp [Fits, newRecord, schema, parsePayload, parseResult]
  decide

theorem readable_newRecord (raw : List (String × String)) (jobId : String) (m : RequestMetadata)
    (payload : List (String × Json)) (now : ℤ) :
    Readable (Dicts.merge raw (newRecord jobId m payload now)) := by
  intro f hmem
  have hkeys : ((newRecord jobId m payload now).map Prod.fst).Nodup := by simp [newRecord]
  have hnames : f.1 ∈ (newRecord jobId m payload now).map Prod.fst :=
    List.mem_map_of_mem (f := Prod.fst) hmem
  obtain ⟨⟨name, text⟩, hu, hname⟩ := List.mem_map.mp hnames
  obtain rfl : name = f.1 := hname
  exact ⟨text, Dicts.lookup_merge_of_mem hkeys hu raw, fits_newRecord _ _ _ _ _ hu f hmem rfl⟩

def mutableFields : List String := ["status", "attempts", "result", "error", "updated_at_ms"]

/-- What a task writes to a job it holds: readable fields, and only those that may change. -/
structure Update (fields : List (String × String)) : Prop where
  fits : Fits fields
  changes : ∀ u ∈ fields, u.1 ∈ mutableFields
  ne_nil : fields ≠ []

theorem Update.lookup_merge {fields : List (String × String)} (h : Update fields) {name : String}
    (hn : name ∉ mutableFields) (raw : List (String × String)) :
    (Dicts.merge raw fields).lookup name = raw.lookup name := by
  apply Dicts.lookup_merge_of_notMem
  intro hmem
  obtain ⟨u, hu, rfl⟩ := List.mem_map.mp hmem
  exact hn (h.changes u hu)

theorem fits_nil : Fits [] := fun u hu ↦ by cases hu

theorem Fits.cons {name text : String} {fields : List (String × String)} (hf : Fits fields)
    (h : ∀ f ∈ schema, f.1 = name → f.2 text = true) : Fits ((name, text) :: fields) := by
  intro u hu
  rcases List.mem_cons.mp hu with rfl | hu
  · exact h
  · exact hf u hu

theorem Update.cons {name text : String} {fields : List (String × String)} (h : Update fields)
    (hn : name ∈ mutableFields) (hf : ∀ f ∈ schema, f.1 = name → f.2 text = true) :
    Update ((name, text) :: fields) := by
  refine ⟨h.fits.cons hf, fun u hu ↦ ?_, by simp⟩
  rcases List.mem_cons.mp hu with rfl | hu
  · exact hn
  · exact h.changes u hu

theorem update_status (s : Status) {fields : List (String × String)} (h : Update fields) :
    Update (("status", s.value) :: fields) :=
  h.cons (by decide) (by simp [schema])

theorem update_error (error : String) {fields : List (String × String)} (h : Update fields) :
    Update (("error", error) :: fields) :=
  h.cons (by decide) (by simp [schema])

theorem update_attempts (n : ℤ) {fields : List (String × String)} (h : Update fields) :
    Update (("attempts", intString n) :: fields) :=
  h.cons (by decide) (by simp [schema])

theorem update_result (j : Json) {fields : List (String × String)} (h : Update fields) :
    Update (("result", dumps j) :: fields) :=
  h.cons (by decide) (by simp [schema, parseResult, dumps_ne_empty])

theorem update_instant (now : ℤ) : Update [("updated_at_ms", intString now)] :=
  ⟨fits_nil.cons (by simp [schema]), by simp [mutableFields], by simp⟩

/-- The record of a job accepted with this payload, whatever became of the job since. -/
inductive Recorded (payload : List (String × Json)) : List (String × String) → Prop
  | accepted (old : List (String × String)) (jobId : String) (m : RequestMetadata) (now : ℤ) :
      Recorded payload (Dicts.merge old (newRecord jobId m payload now))
  | updated {raw fields : List (String × String)} :
      Recorded payload raw → Update fields → Recorded payload (Dicts.merge raw fields)

theorem Recorded.lookup_payload {payload : List (String × Json)} {raw : List (String × String)}
    (h : Recorded payload raw) : raw.lookup "payload" = some (dumps (.obj payload)) := by
  induction h with
  | accepted old jobId m now =>
    exact Dicts.lookup_merge_of_mem (by simp [newRecord]) (by simp [newRecord]) old
  | updated _ hf ih => rw [hf.lookup_merge (by decide), ih]

/-- A job is read back with the payload it was accepted with. -/
theorem Recorded.payload_eq {payload : List (String × Json)} {raw : List (String × String)}
    (h : Recorded payload raw) {job : Job} (hjob : readJob raw = .ok job) :
    job.payload = payload := by
  obtain ⟨-, ⟨text, htext, hparse⟩, -⟩ := readJob_eq_ok hjob
  rw [h.lookup_payload] at htext
  obtain rfl := Option.some.inj htext
  simpa [parsePayload, eq_comm] using hparse

/-- Every job's hash, expired or not, is absent or a readable record. -/
structure Kept (db : Db) : Prop where
  jobs : ∀ id e, db (key id) = some e → ∃ raw t, e = ⟨.hash raw, t⟩ ∧ Readable raw
  readyZset : ZsetAt db ready
  dlqZset : ZsetAt db dlq

def allowed : Cmd → Prop
  | .redis (.write (.hset k fields)) => (∃ id, k = key id) ∧ Update fields
  | .redis (.write (.zadd k _ _)) => k = ready ∨ k = dlq
  | .redis (.write _) => False
  | .redis (.pipeline ws) =>
    ∃ config id metadata payload now, ws = enqueueWrites config id metadata payload now
  | .redis (.zpopmin k) => k = ready
  | .redis c => c.reads = true
  | _ => True

def protocol : Protocol Cmd Reply Unit := { allowed := fun _ ↦ allowed, watch := fun _ _ _ _ ↦ () }

theorem key_ne_ready (id : String) : key id ≠ ready := by
  intro h
  have h' := congrArg String.toList h
  simp [key, ready] at h'

theorem key_ne_dlq (id : String) : key id ≠ dlq := by
  intro h
  have h' := congrArg String.toList h
  simp [key, dlq] at h'

theorem ready_ne_dlq : ready ≠ dlq := by decide

theorem exec_enqueueWrites (config : GatewayConfig) (now : ℤ) {db : Db} {id : String}
    (hnew : db (key id) = none) (hready : ZsetAt db ready) (httl : 0 < config.queue.jobTtlS)
    (m : RequestMetadata) (payload : List (String × Json)) :
    ∃ z t, execWrite now (.zadd ready id now) (Function.update db (key id) (some
        ⟨.hash (newRecord id m payload now), some (now + config.queue.jobTtlS * 1000)⟩)) =
          (.ok (), Function.update (Function.update db (key id) (some
            ⟨.hash (newRecord id m payload now), some (now + config.queue.jobTtlS * 1000)⟩)) ready
              (some ⟨.zset z, t⟩)) ∧
      exec now (.pipeline (enqueueWrites config id m payload now)) db =
        (.ok (), Function.update (Function.update db (key id) (some
          ⟨.hash (newRecord id m payload now), some (now + config.queue.jobTtlS * 1000)⟩)) ready
            (some ⟨.zset z, t⟩)) := by
  have hmerge : Dicts.merge [] (newRecord id m payload now) = newRecord id m payload now := by
    simp [newRecord, Dicts.set]
  have hrecord : execWrite now (.hset (key id) (newRecord id m payload now)) db =
      (.ok (), Function.update db (key id) (some ⟨.hash (newRecord id m payload now), none⟩)) :=
    execWrite_ok (by simp only [Write.key, live_of_none hnew, Write.apply, hmerge])
  have hlive : live now (Function.update db (key id) (some ⟨.hash (newRecord id m payload now), none⟩))
      (key id) = some ⟨.hash (newRecord id m payload now), none⟩ :=
    live_eq_some.mpr ⟨Function.update_self .., rfl⟩
  have hexpire := execWrite_expire hlive httl
  rw [Function.update_idem] at hexpire
  obtain ⟨z, t, hadd⟩ := (hready.congr (Function.update_of_ne (key_ne_ready id).symm _ _)).zadd now id now
  refine ⟨z, t, hadd, ?_⟩
  simp only [exec, enqueueWrites, execPipeline_cons_ok hrecord, execPipeline_cons_ok hexpire,
    execPipeline_cons_ok hadd]
  rfl

section Steps

variable {db : Db} {now : ℤ} {o : Outside}

theorem Kept.elsewhere (h : Kept db) {k : String} {e : Option Entry} (hk : ∀ id, k ≠ key id)
    (hz : ZsetAt (Function.update db k e) k) : Kept (Function.update db k e) := by
  constructor
  · intro id e' he
    rw [Function.update_of_ne (hk id).symm] at he
    exact h.jobs id e' he
  · by_cases hr : ready = k
    · subst hr
      exact hz
    · exact h.readyZset.congr (Function.update_of_ne hr _ _)
  · by_cases hd : dlq = k
    · subst hd
      exact hz
    · exact h.dlqZset.congr (Function.update_of_ne hd _ _)

theorem Kept.job (h : Kept db) (id : String) {e : Option Entry}
    (he : ∀ e', e = some e' → ∃ raw t, e' = ⟨.hash raw, t⟩ ∧ Readable raw) :
    Kept (Function.update db (key id) e) := by
  constructor
  · intro id' e' hdb
    by_cases hid : key id' = key id
    · rw [hid, Function.update_self] at hdb
      exact he e' hdb
    · rw [Function.update_of_ne hid] at hdb
      exact h.jobs id' e' hdb
  · exact h.readyZset.congr (Function.update_of_ne (key_ne_ready id).symm _ _)
  · exact h.dlqZset.congr (Function.update_of_ne (key_ne_dlq id).symm _ _)

theorem Kept.live (h : Kept db) {id : String} {e : Entry} (hl : live now db (key id) = some e) :
    ∃ raw t, e = ⟨.hash raw, t⟩ ∧ Readable raw :=
  h.jobs id e (live_eq_some.mp hl).1

theorem Kept.updated (h : Kept db) {id : String} {fields : List (String × String)}
    (hf : Update fields) (hl : (Redis.live now db (key id)).isSome) :
    Kept (execWrite now (.hset (key id) fields) db).2 := by
  obtain ⟨e, he⟩ := Option.isSome_iff_exists.mp hl
  obtain ⟨raw, t, rfl, hraw⟩ := h.live he
  rw [execWrite_ok (e := some ⟨.hash (Dicts.merge raw fields), t⟩)
    (by simp only [Write.key, he, Write.apply])]
  apply h.job
  rintro e' ⟨⟩
  exact ⟨_, _, rfl, hraw.merge hf.fits⟩

theorem Kept.record (h : Kept db) (id : String) (m : RequestMetadata)
    (payload : List (String × Json)) (created : ℤ) :
    Kept (execWrite now (.hset (key id) (newRecord id m payload created)) db).2 := by
  cases hl : Redis.live now db (key id) with
  | none =>
    rw [execWrite_ok (e := some ⟨.hash (Dicts.merge [] (newRecord id m payload created)), none⟩)
      (by simp only [Write.key, hl, Write.apply])]
    apply h.job
    rintro e' ⟨⟩
    exact ⟨_, _, rfl, readable_newRecord _ _ _ _ _⟩
  | some e =>
    obtain ⟨raw, t, rfl, hraw⟩ := h.live hl
    rw [execWrite_ok (e := some ⟨.hash (Dicts.merge raw (newRecord id m payload created)), t⟩)
      (by simp only [Write.key, hl, Write.apply])]
    apply h.job
    rintro e' ⟨⟩
    exact ⟨_, _, rfl, readable_newRecord _ _ _ _ _⟩

theorem Kept.expire (h : Kept db) (id : String) (seconds : ℤ) :
    Kept (execWrite now (.expire (key id) seconds) db).2 := by
  cases hl : Redis.live now db (key id) with
  | none =>
    rw [execWrite_ok (e := none) (by simp only [Write.key, hl, Write.apply])]
    exact h.job id (by simp)
  | some e =>
    obtain ⟨raw, t, rfl, hraw⟩ := h.live hl
    rw [execWrite_ok (e := if seconds ≤ 0 then none else some
      ⟨.hash raw, some (now + seconds * 1000)⟩) (by simp only [Write.key, hl, Write.apply])]
    apply h.job
    intro e' he
    split at he
    · cases he
    · cases he
      exact ⟨_, _, rfl, hraw⟩

theorem Kept.zadd (h : Kept db) {k : String} (hk : k = ready ∨ k = dlq) (m : String) (s : ℤ) :
    Kept (execWrite now (.zadd k m s) db).2 := by
  have hz : ZsetAt db k := by
    rcases hk with rfl | rfl
    · exact h.readyZset
    · exact h.dlqZset
  obtain ⟨z, t, hexec⟩ := hz.zadd now m s
  rw [hexec]
  apply h.elsewhere
  · rintro id rfl
    rcases hk with hk | hk
    · exact key_ne_ready id hk
    · exact key_ne_dlq id hk
  · exact zsetAt_update (.inr ⟨z, t, rfl⟩)

/-- One allowed command, where an update finds its record still there. -/
theorem Kept.step (h : Kept db) {c : Cmd} (hc : allowed c)
    (hpresent : ∀ k fields, c = .redis (.write (.hset k fields)) → (Redis.live o.now db k).isSome) :
    Kept (o.answers c db).2 := by
  cases c with
  | redis r =>
    cases r with
    | write w =>
      cases w with
      | hset k fields =>
        obtain ⟨⟨id, rfl⟩, hf⟩ := hc
        exact h.updated hf (hpresent _ _ rfl)
      | zadd k m s => exact h.zadd hc m s
      | zremrangebyscore | expire => cases hc
    | pipeline ws =>
      obtain ⟨config, id, m, payload, created, rfl⟩ := hc
      exact ((h.record id m payload created).expire id _).zadd (.inl rfl) id created
    | zpopmin k =>
      obtain rfl : k = ready := hc
      obtain ⟨r, e, hexec, hz⟩ := h.readyZset.zpopmin o.now
      simp only [Outside.answers, hexec]
      exact h.elsewhere (fun id ↦ (key_ne_ready id).symm) hz
    | delete | set => cases hc
    | hgetall | get | zrangebyscore | zrange | zcard => exact h
  | _ => exact h

end Steps

end HealingGateway.Queue
