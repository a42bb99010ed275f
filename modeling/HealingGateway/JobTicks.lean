import HealingGateway.JobHomes
import HealingGateway.Trails

namespace HealingGateway.Worker

open Programs Programs.Prog Numerals JsonText Queue

def Buried (db : Redis.Db) (id : String) : Prop := Redis.Member db dlq id

theorem buried_congr {db db' : Redis.Db} {id : String} (h : db dlq = db' dlq) :
    Buried db id ↔ Buried db' id := by
  rw [Buried, Buried, Redis.Member, Redis.Member, h]

/-- Two stores hold the same of one job. -/
structure SameJob (id : String) (db db' : Redis.Db) : Prop where
  record : db (Queue.key id) = db' (Queue.key id)
  waiting : Awaits db id ↔ Awaits db' id
  buried : Buried db id ↔ Buried db' id
  filed : Filed db → Filed db'

/-- The record of a job, that does not expire before `deadline`, and where the job is. -/
structure Standing (deadline : ℤ) (id : String) (status : Status) (attempts : ℕ) (waiting buried : Prop)
    (db : Redis.Db) : Prop where
  record : ∃ raw t, db (Queue.key id) = some ⟨.hash raw, t⟩ ∧ (∀ d ∈ t, deadline ≤ d) ∧
    raw.lookup "id" = some id ∧ raw.lookup "status" = some status.value ∧
    raw.lookup "attempts" = some (intString attempts)
  waiting : Awaits db id ↔ waiting
  buried : Buried db id ↔ buried
  filed : Filed db

/-- A world where one job's record does not expire before `deadline`: the commands on the queue are
carried out by then as Redis does, among others' commands, and no other command touches the job. -/
structure KeepsJob {σ : Type} (h : Handler Cmd Reply σ) (db : σ → Redis.Db) (deadline : ℤ) (id : String) :
    Prop where
  answered : ∀ c s r, (∀ k ∈ c.keys, QueueKey k) → (h (.redis c) s).1 = .ok r →
    ∃ now d d', now ≤ deadline ∧ SameJob id (db s) d ∧ Redis.exec now c d = (.ok r, d') ∧
      SameJob id d' (db (h (.redis c) s).2)
  untouched : ∀ c s, (∀ k ∈ c.keys, ¬ QueueKey k) → SameJob id (db s) (db (h c s).2)

section Standing

variable {deadline : ℤ} {id : String} {status : Status} {attempts : ℕ} {waiting buried : Prop}
  {db db' : Redis.Db}

theorem SameJob.refl (id : String) (db : Redis.Db) : SameJob id db db := ⟨rfl, .rfl, .rfl, fun hf ↦ hf⟩

theorem Standing.congr (h : Standing deadline id status attempts waiting buried db)
    (hsame : SameJob id db db') : Standing deadline id status attempts waiting buried db' := by
  obtain ⟨raw, t, hrecord, hrest⟩ := h.record
  exact ⟨⟨raw, t, hsame.record ▸ hrecord, hrest⟩, hsame.waiting.symm.trans h.waiting,
    hsame.buried.symm.trans h.buried, hsame.filed h.filed⟩

theorem Standing.status_eq (h : Standing deadline id status attempts waiting buried db) :
    statusOf db id = some status.value := by
  obtain ⟨raw, t, hrecord, -, -, hstatus, -⟩ := h.record
  rw [statusOf, hrecord]
  exact hstatus

theorem Standing.live (h : Standing deadline id status attempts waiting buried db) {now : ℤ}
    (hnow : now ≤ deadline) : ∃ raw t, Redis.live now db (Queue.key id) = some ⟨.hash raw, t⟩ ∧
      (∀ d ∈ t, deadline ≤ d) ∧ raw.lookup "id" = some id ∧
      raw.lookup "attempts" = some (intString attempts) := by
  obtain ⟨raw, t, hrecord, ht, hname, -, hcount⟩ := h.record
  refine ⟨raw, t, Redis.live_eq_some.mpr ⟨hrecord, ?_⟩, ht, hname, hcount⟩
  cases t with
  | none => rfl
  | some d =>
    have hd := ht d rfl
    simp only [Redis.Entry.expired, decide_eq_false_iff_not]
    omega

theorem Standing.hset (h : Standing deadline id status attempts waiting buried db) {now : ℤ}
    (hnow : now ≤ deadline) {fields : List (String × String)} {status' : Status} {attempts' : ℕ}
    (hkeys : (fields.map Prod.fst).Nodup) (hid : "id" ∉ fields.map Prod.fst)
    (hstatus : ("status", status'.value) ∈ fields)
    (hattempts : ("attempts", intString attempts') ∈ fields ∨
      "attempts" ∉ fields.map Prod.fst ∧ attempts' = attempts)
    (hexec : Redis.execWrite now (.hset (Queue.key id) fields) db = (.ok (), db')) :
    Standing deadline id status' attempts' waiting buried db' := by
  obtain ⟨raw, t, hlive, ht, hname, hcount⟩ := h.live hnow
  have hfiled : Filed (Redis.execWrite now (.hset (Queue.key id) fields) db).2 := by
    refine h.filed.hset id (fun old name hlookup ↦ .inl ?_)
    rwa [Dicts.lookup_merge_of_notMem hid] at hlookup
  have hwrite : Redis.execWrite now (.hset (Queue.key id) fields) db = (.ok (),
      Function.update db (Queue.key id) (some ⟨.hash (Dicts.merge raw fields), t⟩)) :=
    Redis.execWrite_ok (by simp only [Redis.Write.key, hlive, Redis.Write.apply])
  rw [hexec] at hfiled
  rw [hwrite] at hexec
  obtain rfl : Function.update db (Queue.key id) (some ⟨.hash (Dicts.merge raw fields), t⟩) = db' :=
    congrArg Prod.snd hexec
  refine ⟨⟨_, t, Function.update_self .., ht, ?_, ?_, ?_⟩, ?_, ?_, hfiled⟩
  · rwa [Dicts.lookup_merge_of_notMem hid]
  · exact Dicts.lookup_merge_of_mem hkeys hstatus raw
  · rcases hattempts with hmem | ⟨hnot, rfl⟩
    · exact Dicts.lookup_merge_of_mem hkeys hmem raw
    · rwa [Dicts.lookup_merge_of_notMem hnot]
  · rw [← h.waiting]
    exact awaits_congr (Function.update_of_ne (key_ne_ready id).symm _ _)
  · rw [← h.buried]
    exact buried_congr (Function.update_of_ne (key_ne_dlq id).symm _ _)

theorem Standing.requeue (h : Standing deadline id status attempts waiting buried db) {now score : ℤ}
    (hexec : Redis.execWrite now (.zadd ready id score) db = (.ok (), db')) :
    Standing deadline id status attempts True buried db' := by
  obtain ⟨z, t, rfl, hmem⟩ := Redis.eq_of_zadd hexec
  obtain ⟨raw, t', hrecord, hrest⟩ := h.record
  refine ⟨⟨raw, t', ?_, hrest⟩, iff_of_true ⟨z, t, Function.update_self .., hmem⟩ trivial, ?_,
    h.filed.elsewhere key_ne_ready _⟩
  · rwa [Function.update_of_ne (key_ne_ready id)]
  · rw [← h.buried]
    exact buried_congr (Function.update_of_ne ready_ne_dlq.symm _ _)

theorem Standing.bury (h : Standing deadline id status attempts waiting buried db) {now score : ℤ}
    (hexec : Redis.execWrite now (.zadd dlq id score) db = (.ok (), db')) :
    Standing deadline id status attempts waiting True db' := by
  obtain ⟨z, t, rfl, hmem⟩ := Redis.eq_of_zadd hexec
  obtain ⟨raw, t', hrecord, hrest⟩ := h.record
  refine ⟨⟨raw, t', ?_, hrest⟩, ?_, iff_of_true ⟨z, t, Function.update_self .., hmem⟩ trivial,
    h.filed.elsewhere key_ne_dlq _⟩
  · rwa [Function.update_of_ne (key_ne_dlq id)]
  · rw [← h.waiting]
    exact awaits_congr (Function.update_of_ne ready_ne_dlq _ _)

theorem frame_of_pop {now : ℤ} {popped : Option (String × ℤ)}
    (hexec : Redis.exec now (.zpopmin ready) db = (.ok popped, db')) {k : String} (hk : k ≠ ready) :
    db' k = db k := by
  have hf := Redis.exec_frame (c := .zpopmin ready) (k := k) (by simpa [Redis.Command.keys] using hk) now db
  rwa [hexec] at hf

theorem filed_of_pop (h : Filed db) {now : ℤ} {popped : Option (String × ℤ)}
    (hexec : Redis.exec now (.zpopmin ready) db = (.ok popped, db')) : Filed db' :=
  h.congr (fun m ↦ frame_of_pop hexec (key_ne_ready m))

theorem Standing.pop (h : Standing deadline id status attempts waiting buried db) {now score : ℤ}
    (hexec : Redis.exec now (.zpopmin ready) db = (.ok (some (id, score)), db')) :
    waiting ∧ Standing deadline id status attempts False buried db' := by
  obtain ⟨hawaits, hgone⟩ := (Redis.member_of_zpopmin now ready db).2 id score (congrArg Prod.fst hexec)
  rw [show (Redis.execZpopmin now ready db).2 = db' from congrArg Prod.snd hexec] at hgone
  obtain ⟨raw, t', hrecord, hrest⟩ := h.record
  refine ⟨h.waiting.mp hawaits, ⟨raw, t', ?_, hrest⟩, iff_of_false hgone not_false, ?_,
    filed_of_pop h.filed hexec⟩
  · rwa [frame_of_pop hexec (key_ne_ready id)]
  · rw [← h.buried]
    exact buried_congr (frame_of_pop hexec ready_ne_dlq.symm)

end Standing

section Yields

variable {σ : Type} {h : Handler Cmd Reply σ} {db : σ → Redis.Db} {deadline : ℤ} {id : String} {s : σ}
  {status : Status} {attempts : ℕ} {waiting buried : Prop}

theorem keys_queue {c : Redis.Command} {k : String} (hc : c.keys = [k]) (hk : QueueKey k) :
    ∀ k' ∈ c.keys, QueueKey k' := by
  rw [hc]
  rintro k' (_ | ⟨_, ⟨⟩⟩)
  exact hk

theorem KeepsJob.yields_redis (hk : KeepsJob h db deadline id) {c : Redis.Command}
    (hc : ∀ k ∈ c.keys, QueueKey k) {Q : Redis.Reply c → σ → Prop}
    (hQ : ∀ now d d' r s', now ≤ deadline → SameJob id (db s) d →
      Redis.exec now c d = (.ok r, d') → SameJob id d' (db s') → Q r s') : (redis c).Yields h s Q := by
  intro r s' hrun
  rw [run_redis] at hrun
  obtain ⟨hr, rfl⟩ := Prod.ext_iff.mp hrun
  obtain ⟨now, d, d', hnow, hsame, hexec, hsame'⟩ := hk.answered c s r hc hr
  exact hQ now d d' r _ hnow hsame hexec hsame'

theorem KeepsJob.yields_elsewhere {α : Type} {p : Gateway α} (hk : KeepsJob h db deadline id)
    (hp : p.Only (fun c ↦ ∀ k ∈ c.keys, ¬ QueueKey k))
    (hs : Standing deadline id status attempts waiting buried (db s)) :
    p.Yields h s (fun _ s' ↦ Standing deadline id status attempts waiting buried (db s')) := by
  induction p generalizing s with
  | done a => exact yields_done hs
  | throw e => exact yields_throw e
  | call g c k ih => exact yields_call (ih _ (hp.2 _) (hs.congr (hk.untouched c s hp.1)))

theorem KeepsJob.yields_read {c : Redis.Command} (hk : KeepsJob h db deadline id)
    (hc : ∀ k ∈ c.keys, QueueKey k) (hreads : c.reads = true)
    (hs : Standing deadline id status attempts waiting buried (db s)) :
    (redis c).Yields h s (fun _ s' ↦ Standing deadline id status attempts waiting buried (db s')) := by
  refine hk.yields_redis hc (fun now d d' r s' _ hsame hexec hsame' ↦ ?_)
  have hdb := Redis.exec_of_reads hreads now d
  rw [hexec] at hdb
  obtain rfl : d' = d := hdb
  exact (hs.congr hsame).congr hsame'

theorem KeepsJob.yields_depth (hk : KeepsJob h db deadline id)
    (hs : Standing deadline id status attempts waiting buried (db s)) :
    observeDepth.Yields h s (fun _ s' ↦ Standing deadline id status attempts waiting buried (db s')) :=
  (hk.yields_read (keys_queue rfl queueKey_ready) rfl hs).bind
    (fun _ _ hs ↦ hk.yields_elsewhere (only_ask (quiet_elsewhere rfl)) hs)

theorem KeepsJob.yields_update (hk : KeepsJob h db deadline id) {now : ℤ}
    {fields : List (String × String)} (status' : Status) {attempts' : ℕ}
    (hkeys : ((fields ++ [("updated_at_ms", intString now)]).map Prod.fst).Nodup)
    (hid : "id" ∉ (fields ++ [("updated_at_ms", intString now)]).map Prod.fst)
    (hstatus : ("status", status'.value) ∈ fields)
    (hattempts : ("attempts", intString attempts') ∈ fields ++ [("updated_at_ms", intString now)] ∨
      "attempts" ∉ (fields ++ [("updated_at_ms", intString now)]).map Prod.fst ∧ attempts' = attempts)
    (hs : Standing deadline id status attempts waiting buried (db s)) :
    (update id now fields).Yields h s
      (fun _ s' ↦ Standing deadline id status' attempts' waiting buried (db s')) := by
  refine hk.yields_redis (keys_queue rfl (queueKey_key id)) ?_
  intro at' d d' r s' hnow hsame hexec hsame'
  exact ((hs.congr hsame).hset hnow hkeys hid (List.mem_append_left _ hstatus) hattempts hexec).congr hsame'

theorem KeepsJob.yields_get (hk : KeepsJob h db deadline id) (hfiled : Filed (db s)) (m : String) :
    (Queue.get m).Yields h s (fun job? _ ↦ ∀ job, job? = some job → job.id = m) := by
  have hread : (redis (.hgetall (Queue.key m))).Yields h s
      (fun raw _ ↦ ∀ job, jobOf raw = .ok (some job) → job.id = m) := by
    refine hk.yields_redis (keys_queue rfl (queueKey_key m)) ?_
    exact fun now d d' raw s' _ hsame hexec _ job hjob ↦
      (hsame.filed hfiled).named (congrArg Prod.fst hexec) (id_of_jobOf hjob)
  rw [get_eq]
  exact hread.bind (fun raw s' hraw ↦ yields_ofExcept (fun job? hjob job h ↦ hraw job (h ▸ hjob)))

theorem KeepsJob.yields_get_own (hk : KeepsJob h db deadline id)
    (hs : Standing deadline id status attempts waiting buried (db s)) :
    (Queue.get id).Yields h s (fun job? s' ↦
      Standing deadline id status attempts waiting buried (db s') ∧
        ∀ job, job? = some job → job.attempts = attempts) := by
  have hread : (redis (.hgetall (Queue.key id))).Yields h s (fun raw s' ↦
      Standing deadline id status attempts waiting buried (db s') ∧
        raw.lookup "attempts" = some (intString attempts)) := by
    refine hk.yields_redis (keys_queue rfl (queueKey_key id)) ?_
    intro now d d' raw s' hnow hsame hexec hsame'
    have hd := hs.congr hsame
    obtain ⟨raw', t, hlive, -, -, hcount⟩ := hd.live hnow
    simp only [Redis.exec, hlive, Redis.asHash] at hexec
    obtain ⟨hraw, rfl⟩ := Prod.ext_iff.mp hexec
    obtain rfl := Except.ok.inj hraw
    exact ⟨hd.congr hsame', hcount⟩
  rw [get_eq]
  refine hread.bind ?_
  rintro raw s' ⟨hs', hcount⟩
  refine yields_ofExcept (fun job? hjob ↦ ⟨hs', ?_⟩)
  rintro job rfl
  obtain ⟨-, -, text, htext, hparse⟩ := readJob_eq_ok (readJob_of_jobOf hjob)
  rw [hcount] at htext
  obtain rfl := Option.some.inj htext
  simpa using hparse.symm

theorem KeepsJob.yields_claim (hk : KeepsJob h db deadline id) (hfiled : Filed (db s)) {m : String}
    {readyAtMs now : ℤ}
    (hs : m = id → Standing deadline id status attempts False buried (db s)) :
    (claim m readyAtMs now).Yields h s (fun job? s' ↦ ∀ job, job? = some job → job.id = id →
      m = id ∧ job.attempts = attempts ∧ Standing deadline id .running attempts False buried (db s')) := by
  unfold claim
  split
  · refine Yields.bind (Q := fun _ _ ↦ True) (fun _ _ _ ↦ trivial) (fun _ _ _ ↦ ?_)
    exact yields_done (by rintro job ⟨⟩)
  · by_cases hm : m = id
    · subst hm
      refine (hk.yields_get_own (hs rfl)).bind ?_
      rintro job? s₁ ⟨hs₁, hattempts⟩
      cases job? with
      | none => exact yields_done (by rintro job ⟨⟩)
      | some job =>
        refine (hk.yields_update .running (by simp) (by simp) (by simp) (.inr ⟨by simp, rfl⟩) hs₁).bind ?_
        intro _ s₂ hs₂
        refine yields_done ?_
        rintro _ ⟨⟩ -
        exact ⟨rfl, hattempts job rfl, hs₂⟩
    · refine (hk.yields_get hfiled m).bind (fun job? s₁ hjob ↦ ?_)
      cases job? with
      | none => exact yields_done (by rintro job ⟨⟩)
      | some job =>
        refine Yields.bind (Q := fun _ _ ↦ True) (fun _ _ _ ↦ trivial) (fun _ _ _ ↦ yields_done ?_)
        rintro _ ⟨⟩ hid
        exact absurd ((hjob job rfl).symm.trans hid) hm

theorem KeepsJob.yields_take (hk : KeepsJob h db deadline id)
    (hs : Standing deadline id status attempts waiting buried (db s)) :
    take.Yields h s (fun job? s' ↦ ∀ job, job? = some job → job.id = id →
      waiting ∧ job.attempts = attempts ∧ Standing deadline id .running attempts False buried (db s')) := by
  refine (hk.yields_depth hs).bind (fun _ s₁ hs₁ ↦ ?_)
  have hnow : nowMs.Yields h s₁ (fun _ s' ↦ Standing deadline id status attempts waiting buried (db s')) :=
    hk.yields_elsewhere (only_nowMs (quiet_elsewhere rfl)) hs₁
  refine hnow.bind (fun now s₂ hs₂ ↦ ?_)
  have hpop : (redis (.zpopmin ready)).Yields h s₂ (fun popped s' ↦ Filed (db s') ∧
      ∀ score, popped = some (id, score) →
        waiting ∧ Standing deadline id status attempts False buried (db s')) := by
    refine hk.yields_redis (keys_queue rfl queueKey_ready) ?_
    intro at' d d' popped s' _ hsame hexec hsame'
    have hd := hs₂.congr hsame
    refine ⟨hsame'.filed (filed_of_pop hd.filed hexec), ?_⟩
    rintro score rfl
    obtain ⟨hwaiting, hd'⟩ := hd.pop hexec
    exact ⟨hwaiting, hd'.congr hsame'⟩
  refine hpop.bind ?_
  rintro popped s₃ ⟨hfiled, hs₃⟩
  rcases popped with _ | ⟨m, score⟩
  · exact yields_done (by rintro job ⟨⟩)
  · have hpopped : m = id → Standing deadline id status attempts False buried (db s₃) := by
      rintro rfl
      exact (hs₃ score rfl).2
    refine (hk.yields_claim hfiled hpopped).mono (fun job? s₄ hs₄ job hjob hid ↦ ?_)
    obtain ⟨rfl, hattempts, hrunning⟩ := hs₄ job hjob hid
    exact ⟨(hs₃ score rfl).1, hattempts, hrunning⟩

section Endings

variable {job : Job} (hk : KeepsJob h db deadline job.id)
  (hs : Standing deadline job.id status attempts waiting buried (db s))

include hk hs

theorem KeepsJob.yields_settle (status' : Status) {fields : List (String × String)}
    (hkeys : ∀ now, ((fields ++ [("updated_at_ms", intString now)]).map Prod.fst).Nodup)
    (hown : ∀ now, ∀ name ∈ (fields ++ [("updated_at_ms", intString now)]).map Prod.fst,
      name ≠ "id" ∧ name ≠ "attempts")
    (hstatus : ("status", status'.value) ∈ fields) :
    (nowMs >>= fun now ↦ update job.id now fields).Yields h s
      (fun _ s' ↦ Standing deadline job.id status' attempts waiting buried (db s')) := by
  have hnow := hk.yields_elsewhere (only_nowMs (quiet_elsewhere rfl)) hs
  refine hnow.bind (fun now s₁ hs₁ ↦ ?_)
  have hid : "id" ∉ (fields ++ [("updated_at_ms", intString now)]).map Prod.fst :=
    fun h ↦ (hown now _ h).1 rfl
  have hattempts : "attempts" ∉ (fields ++ [("updated_at_ms", intString now)]).map Prod.fst :=
    fun h ↦ (hown now _ h).2 rfl
  exact hk.yields_update status' (hkeys now) hid hstatus (.inr ⟨hattempts, rfl⟩) hs₁

theorem KeepsJob.yields_fail (error : String) : (Queue.fail job error).Yields h s
    (fun _ s' ↦ Standing deadline job.id .failed attempts waiting buried (db s')) :=
  hk.yields_settle hs .failed (by simp) (by simp) (by simp)

theorem KeepsJob.yields_complete (result : Json) : (Queue.complete job result).Yields h s
    (fun _ s' ↦ Standing deadline job.id .done attempts waiting buried (db s')) :=
  hk.yields_settle hs .done (by simp) (by simp) (by simp)

theorem KeepsJob.yields_deadLetter (error : String) : (Queue.deadLetter job error).Yields h s
    (fun _ s' ↦ Standing deadline job.id .dead attempts waiting True (db s')) := by
  have hnow := hk.yields_elsewhere (only_nowMs (quiet_elsewhere rfl)) hs
  refine hnow.bind (fun now s₁ hs₁ ↦ ?_)
  refine (hk.yields_update .dead (by simp) (by simp) (by simp) (.inr ⟨by simp, rfl⟩) hs₁).bind ?_
  intro _ s₂ hs₂
  refine hk.yields_redis (keys_queue rfl queueKey_dlq) ?_
  exact fun _ _ _ _ _ _ hsame hexec hsame' ↦ ((hs₂.congr hsame).bury hexec).congr hsame'

theorem KeepsJob.yields_retry (delayS : ℚ) (error : String) (count : Bool) {attempts' : ℕ}
    (hattempts : (if count then job.attempts + 1 else job.attempts) = attempts') :
    (Queue.retry job delayS error count).Yields h s
      (fun _ s' ↦ Standing deadline job.id .queued attempts' True buried (db s')) := by
  have hnow := hk.yields_elsewhere (only_nowMs (quiet_elsewhere rfl)) hs
  refine hnow.bind (fun now s₁ hs₁ ↦ ?_)
  dsimp only
  rw [hattempts]
  have hcount : ("attempts", intString attempts') ∈ [("status", Status.queued.value),
      ("attempts", intString attempts'), ("error", error)] ++ [("updated_at_ms", intString now)] := by simp
  refine (hk.yields_update .queued (by simp) (by simp) (by simp) (.inl hcount) hs₁).bind ?_
  intro _ s₂ hs₂
  have hput : ∀ score, (redis (.write (.zadd ready job.id score))).Yields h s₂
      (fun _ s' ↦ Standing deadline job.id .queued attempts' True buried (db s')) := by
    intro score
    refine hk.yields_redis (keys_queue rfl queueKey_ready) ?_
    exact fun _ _ _ _ _ _ hsame hexec hsame' ↦ ((hs₂.congr hsame).requeue hexec).congr hsame'
  exact (hput _).bind (fun _ _ hs₃ ↦ yields_done hs₃)

end Endings

end Yields

end HealingGateway.Worker
