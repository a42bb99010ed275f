import HealingGateway.Library.Memories
import HealingGateway.Traffic

namespace HealingGateway.Queue

open Numerals JsonText Programs Programs.Prog Redis

/-- The fields of a job that are written once, when it is accepted. -/
def fixedFields : List String := ["id", "meta", "payload", "created_at_ms"]

/-- What a job is accepted with. -/
structure Acceptance where
  id : String
  metadata : RequestMetadata
  payload : List (String × Json)
  now : ℤ

def Acceptance.record (x : Acceptance) : List (String × String) := newRecord x.id x.metadata x.payload x.now

theorem Acceptance.record_injective : Function.Injective Acceptance.record := by
  rintro ⟨id, m, payload, now⟩ ⟨id', m', payload', now'⟩ h
  simp only [record, newRecord, List.cons.injEq, Prod.mk.injEq, true_and, and_true] at h
  obtain ⟨rfl, hmeta, hpayload, hnow, -⟩ := h
  have hm := congrArg parseMeta hmeta
  have hp := congrArg parsePayload hpayload
  have hn := congrArg parseInt hnow
  simp only [parseMeta_metaText, Option.some.injEq] at hm
  simp only [parsePayload, loads_dumps, Option.some.injEq] at hp
  simp only [parseInt_intString, Option.some.injEq] at hn
  rw [hm, hp, hn]

/-- A job is what was accepted, whatever became of it since. -/
structure Acceptance.Became (x : Acceptance) (job : Job) : Prop where
  id : job.id = x.id
  metadata : job.metadata = x.metadata
  payload : job.payload = x.payload
  created : job.createdAtMs = x.now

theorem readJob_fixed {raw : List (String × String)} {job : Job} (h : readJob raw = .ok job) :
    raw.lookup "id" = some job.id ∧
      (∃ text, raw.lookup "meta" = some text ∧ parseMeta text = some job.metadata) ∧
      (∃ text, raw.lookup "payload" = some text ∧ parsePayload text = some job.payload) ∧
      ∃ text, raw.lookup "created_at_ms" = some text ∧ parseInt text = some job.createdAtMs := by
  simp only [readJob, bind_eq_ok, required_eq_ok] at h
  obtain ⟨id, ⟨_, hid, ⟨⟩⟩, status, -, m, hmeta, payload, hpayload, attempts, -, created, hcreated, updated, -,
    result, -, error, -, hjob⟩ := h
  cases hjob
  exact ⟨hid, hmeta, hpayload, hcreated⟩

theorem Acceptance.became {x : Acceptance} {raw : List (String × String)} {job : Job}
    (hraw : ∀ name ∈ fixedFields, raw.lookup name = x.record.lookup name) (h : jobOf raw = .ok (some job)) :
    x.Became job := by
  obtain ⟨hid, ⟨_, hmeta, hparse⟩, ⟨_, hpayload, hparse'⟩, ⟨_, hcreated, hparse''⟩⟩ :=
    readJob_fixed (readJob_of_jobOf h)
  rw [hraw _ (by decide)] at hid hmeta hpayload hcreated
  obtain rfl := Option.some.inj hmeta
  obtain rfl := Option.some.inj hpayload
  obtain rfl := Option.some.inj hcreated
  refine ⟨(Option.some.inj hid).symm, ?_, ?_, ?_⟩
  · simpa [eq_comm] using hparse
  · simpa [parsePayload, eq_comm] using hparse'
  · simpa [eq_comm] using hparse''

end HealingGateway.Queue

namespace HealingGateway.Service

open Programs Programs.Prog Queue

section Records

variable {ι : Type}

/-- A deed that accepts a job. -/
def accepts (a : Deed ι) (x : Acceptance) : Prop :=
  ∃ config, a.cmd = .redis (.pipeline (enqueueWrites config x.id x.metadata x.payload x.now))

/-- A record has none of the fixed fields, or all of them as some deed wrote them. -/
def Traced (acts : List (Deed ι)) (id : String) (raw : List (String × String)) : Prop :=
  (∀ name ∈ fixedFields, raw.lookup name = none) ∨
    ∃ a ∈ acts, ∃ x, accepts a x ∧ x.id = id ∧ ∀ name ∈ fixedFields, raw.lookup name = x.record.lookup name

def Traces (acts : List (Deed ι)) (db : Redis.Db) : Prop :=
  ∀ id raw t, db (key id) = some ⟨.hash raw, t⟩ → Traced acts id raw

variable {acts : List (Deed ι)} {db : Redis.Db} {now : ℤ}

theorem Traced.append {id : String} {raw : List (String × String)} (h : Traced acts id raw) (a : Deed ι) :
    Traced (acts ++ [a]) id raw := by
  obtain h | ⟨b, hb, h⟩ := h
  · exact .inl h
  · exact .inr ⟨b, List.mem_append_left _ hb, h⟩

theorem Traces.append (h : Traces acts db) (a : Deed ι) : Traces (acts ++ [a]) db :=
  fun id raw t he ↦ (h id raw t he).append a

theorem Traced.update {id : String} {raw fields : List (String × String)} (h : Traced acts id raw)
    (hf : Update fields) : Traced acts id (Dicts.merge raw fields) := by
  have hfixed : ∀ name ∈ fixedFields, (Dicts.merge raw fields).lookup name = raw.lookup name := by
    intro name hname
    refine hf.lookup_merge ?_ raw
    revert name
    decide
  obtain h | ⟨a, ha, x, hx, hid, h⟩ := h
  · exact .inl (fun name hname ↦ (hfixed name hname).trans (h name hname))
  · exact .inr ⟨a, ha, x, hx, hid, fun name hname ↦ (hfixed name hname).trans (h name hname)⟩

theorem traced_record {a : Deed ι} (ha : a ∈ acts) {x : Acceptance} (hx : accepts a x)
    (raw : List (String × String)) : Traced acts x.id (Dicts.merge raw x.record) := by
  refine .inr ⟨a, ha, x, hx, rfl, fun name hname ↦ ?_⟩
  have hkeys : (x.record.map Prod.fst).Nodup := by simp [Acceptance.record, newRecord]
  obtain ⟨text, htext⟩ : ∃ text, (name, text) ∈ x.record := by
    simp only [fixedFields, List.mem_cons, List.not_mem_nil, or_false] at hname
    obtain rfl | rfl | rfl | rfl := hname <;> exact ⟨_, by simp [Acceptance.record, newRecord]; rfl⟩
  rw [Dicts.lookup_merge_of_mem hkeys htext, (Dicts.mem_iff_lookup hkeys).mp htext]

theorem Traces.write (h : Traces acts db) {w : Redis.Write}
    (hw : ∀ id, w.key = key id → (∃ s, w = .expire (key id) s) ∨ ∃ fields, w = .hset (key id) fields ∧
      ∀ raw, Traced acts id raw → Traced acts id (Dicts.merge raw fields)) :
    Traces acts (Redis.execWrite now w db).2 := by
  intro id raw t he
  by_cases hk : key id = w.key
  · have hlive : ∀ {raw t}, Redis.live now db w.key = some ⟨.hash raw, t⟩ → Traced acts id raw :=
      fun hl ↦ h id _ _ (hk ▸ (Redis.live_eq_some.mp hl).1)
    unfold Redis.execWrite at he
    split at he
    · next e happly =>
      simp only [hk, Function.update_self] at he
      obtain ⟨s, rfl⟩ | ⟨fields, rfl, hmerge⟩ := hw id hk.symm
      · obtain ⟨y, hfound, hy⟩ := Redis.apply_expire happly he
        obtain ⟨v, t'⟩ := y
        cases hy
        exact hlive hfound
      · obtain ⟨old, t', rfl, ⟨-, rfl, -⟩ | hfound⟩ := Redis.apply_hset happly
        · cases he
          exact hmerge [] (.inl (fun name _ ↦ rfl))
        · cases he
          exact hmerge old (hlive hfound)
    · exact h id raw t he
  · rw [Redis.execWrite_frame hk] at he
    exact h id raw t he

theorem Traces.elsewhere (h : Traces acts db) {c : Redis.Command} (k : Key) (hk : ∀ id, Key.job id ≠ k)
    (hc : ∀ k' ∈ c.keys, k' = k.text) : Traces acts (Redis.exec now c db).2 := by
  intro id raw t he
  have hid : key id ∉ c.keys := fun hmem ↦ hk id (Key.text_injective (hc _ hmem))
  rw [Redis.exec_frame hid] at he
  exact h id raw t he

/-- What the gateway asks of the store leaves every job's record traced. -/
theorem Traces.exec (h : Traces acts db) {w : Warrant} {c : Redis.Command} (hc : Stores w c)
    (hnew : ∀ config x, c = .pipeline (enqueueWrites config x.id x.metadata x.payload x.now) →
      ∃ a ∈ acts, accepts a x) : Traces acts (Redis.exec now c db).2 := by
  cases hc with
  | acceptJob config id ha created =>
    obtain ⟨a, hmem, hx⟩ := hnew config ⟨id, _, _, created⟩ rfl
    refine Redis.execPipeline_rule (fun w hw db hdb ↦ ?_) h
    simp only [enqueueWrites, List.mem_cons, List.not_mem_nil, or_false] at hw
    obtain rfl | rfl | rfl := hw
    · refine hdb.write (fun id' hid ↦ .inr ⟨_, by rw [← hid]; rfl, fun raw _ ↦ ?_⟩)
      obtain rfl : id = id' := Key.job.inj (Key.text_injective (show (Key.job id).text = (Key.job id').text from hid))
      exact traced_record hmem hx raw
    · exact hdb.write (fun id' hid ↦ .inl ⟨_, by rw [← hid]; rfl⟩)
    · exact hdb.write (fun id' hid ↦ absurd hid.symm (key_ne_ready id'))
  | updateJob _ id hf =>
    exact h.write (fun id' hid ↦ .inr ⟨_, by rw [← hid]; rfl, fun raw hraw ↦ hraw.update hf⟩)
  | putJob | depth | popJob => exact h.elsewhere .ready (fun _ h ↦ by cases h) (by simp [Redis.Command.keys, Redis.Write.key, Key.text])
  | buryJob | listDead => exact h.elsewhere .dlq (fun _ h ↦ by cases h) (by simp [Redis.Command.keys, Redis.Write.key, Key.text])
  | readJob id => exact h
  | readCircuit p | moveCircuit p | countProbe p =>
    exact h.elsewhere (.circuit p) (fun _ h ↦ by cases h) (by simp [Redis.Command.keys, Redis.Write.key, Key.text])
  | readWindow p | noteCall p | forgetWindow p =>
    exact h.elsewhere (.window p) (fun _ h ↦ by cases h)
      (by simp [Redis.Command.keys, Redis.Write.key, Key.text, Health.recordWrites])
  | readFault _ p | lift | inject =>
    exact h.elsewhere (.fault _) (fun _ h ↦ by cases h) (by simp [Redis.Command.keys, Key.text]; rfl)
  | claimSlot | readSlot | settleSlot | freeSlot =>
    exact h.elsewhere (.slot _) (fun _ h ↦ by cases h) (by simp [Redis.Command.keys, Key.text]; rfl)

end Records

section Reads

variable {env : Environ} {config : GatewayConfig} {encoders : Main.Encoders} {ι : Type} [DecidableEq ι]
  {tasks : ι → Task} {turns : List (ι × (Outside × Fate))}

theorem traces_store :
    Traces (deeds env config encoders tasks turns) (after env config encoders tasks turns).store := by
  rw [after, Pool.store_run_eq]
  refine Pool.replay_rule (I := Traces) (fun _ _ _ h ↦ by cases h) (fun before a db ha h ↦ ?_)
  have hissues := within_deeds env config encoders tasks turns a ha
  rcases a.outside.1.meets_store a.outside.2 a.cmd db with hs | hs
  · rw [meets, hs]
    exact h.append a
  · rw [meets, hs]
    obtain ⟨i, o, g, c, r⟩ := a
    cases hissues with
    | store hstores =>
      refine (h.append _).exec hstores (fun config x hx ↦ ?_)
      exact ⟨_, List.mem_append_right _ (List.mem_singleton_self _), config, congrArg Cmd.redis hx⟩
    | @inward c hc => cases c <;> first | exact h.append _ | cases hc
    | dispatch | observe | respond | count => exact h.append _

/-- The record a deed finds is traced to the deeds before it. -/
theorem traced_read {before later : List (Deed ι)} {i : ι} {o : Outside × Fate} {g : Bool} {id : String}
    {raw : List (String × String)}
    (h : deeds env config encoders tasks turns = before ++ ⟨i, o, g, .redis (.hgetall (key id)), .ok raw⟩ :: later) :
    Traced before id raw := by
  obtain ⟨turns₁, turns₂, -, rfl, hreply⟩ := exists_after h
  have hstore : Traces (deeds env config encoders tasks turns₁) (after env config encoders tasks turns₁).store :=
    traces_store
  obtain ⟨o, fate⟩ := o
  cases fate with
  | answered =>
    simp only [meets, Outside.meets, Outside.answers, Redis.exec] at hreply
    cases hl : Redis.live o.now (after env config encoders tasks turns₁).store (key id) with
    | none =>
      rw [hl] at hreply
      cases hreply
      exact .inl (fun _ _ ↦ rfl)
    | some e =>
      obtain ⟨v, t⟩ := e
      rw [hl] at hreply
      cases v with
      | hash fields =>
        cases hreply
        exact hstore id raw t (Redis.live_eq_some.mp hl).1
      | str | zset => cases hreply
  | refused | unheard => cases hreply

end Reads

abbrev Seen := Memory Cmd Reply

def Asked (v : Seen) (c : Cmd) (r : Reply c) : Prop := (⟨c, r⟩ : (c : Cmd) × Reply c) ∈ v

def Reads (v : Seen) (id : String) (job : Job) : Prop :=
  ∃ raw, Asked v (.redis (.hgetall (key id))) (.ok raw) ∧ jobOf raw = .ok (some job)

def Knows (v : Seen) (job : Job) : Prop := ∃ id, Reads v id job

section Reading

variable {allowed : Seen → Cmd → Prop} {v v' : Seen} {job : Job}

theorem Reads.mono {id : String} (h : Reads v id job) (hv : v ⊆ v') : Reads v' id job :=
  h.imp (fun _ hraw ↦ ⟨hv hraw.1, hraw.2⟩)

theorem Knows.mono (h : Knows v job) (hv : v ⊆ v') : Knows v' job := h.imp (fun _ hreads ↦ hreads.mono hv)

theorem obeys_reads {id : String} (h : allowed v (.redis (.hgetall (key id)))) :
    (Queue.get id).Obeys (remembering allowed) v
      (fun v r ↦ ∀ job, r = .ok (some job) → Reads v id job) := by
  rw [get_eq, obeys_bind, obeys_redis]
  refine ⟨h, fun r _ ↦ ?_⟩
  cases r with
  | error e => rintro _ ⟨⟩
  | ok raw =>
    dsimp only
    cases hjob : jobOf raw with
    | error e => rintro _ ⟨⟩
    | ok found =>
      rintro job ⟨⟩
      exact ⟨raw, List.mem_cons_self .., hjob⟩

end Reading

end HealingGateway.Service
