import HealingGateway.JobRoundTrip

namespace HealingGateway.Queue

open Programs Programs.Prog Redis SortedSets
open Worker (Filed)

/-- A store whose jobs are absent, expired or whole, and whose ready set does not expire. -/
structure QueueState (db : Db) : Prop where
  kept : Kept db
  filed : Filed db
  lasting : ∀ e, db ready = some e → e.expireAt = none

def waitingItems (db : Db) : List (ℤ ×ₗ String) :=
  match db ready with
  | some ⟨.zset z, _⟩ => z.items
  | _ => []

def LiveDue (now : ℤ) (db : Db) (i : ℤ ×ₗ String) : Prop :=
  score i ≤ now ∧ live now db (key (member i)) ≠ none

/-- A pop returns the earliest job that is due and alive, and nothing only when there is no
such job; and where nothing is due it leaves the ready set as it was. -/
structure PopsEarliest (o : Outside) (db : Db) : Prop where
  earliest : ∀ job, (popDue.run o.answers db).1 = .ok (some job) →
    (get job.id).run o.answers db = (.ok (some job), db) ∧
      ∃ i ∈ waitingItems db, member i = job.id ∧ LiveDue o.now db i ∧
        ∀ j ∈ waitingItems db, LiveDue o.now db j → score i ≤ score j
  nothing : (popDue.run o.answers db).1 = .ok none → ∀ i ∈ waitingItems db, ¬ LiveDue o.now db i
  returns : ∃ job?, (popDue.run o.answers db).1 = .ok job?
  untouched : (∀ i ∈ waitingItems db, o.now < score i) →
    (popDue.run o.answers db).1 = .ok none ∧ (popDue.run o.answers db).2 ready = db ready

/-- The first entry of the ready set is due, but its job's hash has expired, and behind it
waits a job that is due and alive. -/
def StaleHead (now : ℤ) (db : Db) : Prop :=
  ∃ i rest, waitingItems db = i :: rest ∧ score i ≤ now ∧ live now db (key (member i)) = none ∧
    ∃ j ∈ rest, LiveDue now db j

section Pops

variable {db : Db} {o : Outside}

theorem QueueState.waiting (h : QueueState db) :
    db ready = none ∧ waitingItems db = [] ∨
      ∃ z, db ready = some ⟨.zset z, none⟩ ∧ waitingItems db = z.items := by
  rcases h.kept.readyZset with hdb | ⟨z, t, hdb⟩
  · exact .inl ⟨hdb, by rw [waitingItems, hdb]⟩
  · obtain rfl : t = none := h.lasting _ hdb
    exact .inr ⟨z, hdb, by rw [waitingItems, hdb]⟩

theorem QueueState.sorted (h : QueueState db) : (waitingItems db).Pairwise (· ≤ ·) := by
  rcases h.waiting with ⟨-, hitems⟩ | ⟨z, -, hitems⟩
  · rw [hitems]
    exact .nil
  · rw [hitems]
    exact z.sorted

theorem QueueState.pop_nil (h : QueueState db) (hnil : waitingItems db = []) :
    popDue.run o.answers db = (.ok none, db) := by
  have hexec : Redis.exec o.now (.zpopmin ready) db = (.ok none, db) := by
    rcases h.waiting with ⟨hdb, -⟩ | ⟨z, hdb, hitems⟩
    · simp only [Redis.exec, execZpopmin, live_of_none hdb]
    · have hpop : z.popMin = none := z.popMin_eq_none_iff.mpr (hitems.symm.trans hnil)
      simp only [Redis.exec, execZpopmin, live_eq_some.mpr ⟨hdb, expired_none _ _⟩, hpop]
  rw [popDue, run_bind_ok _ (o.run_nowMs db), run_redis_bind _ (Outside.answers_redis hexec)]
  rfl

theorem QueueState.pop_cons (h : QueueState db) {i : ℤ ×ₗ String} {rest : List (ℤ ×ₗ String)}
    (hitems : waitingItems db = i :: rest) :
    ∃ db', popDue.run o.answers db = (claim (member i) (score i) o.now).run o.answers db' ∧
      Kept db' ∧ (∀ k ≠ ready, db' k = db k) ∧
      (execWrite o.now (.zadd ready (member i) (score i)) db').1 = .ok () ∧
      (execWrite o.now (.zadd ready (member i) (score i)) db').2 ready = db ready := by
  rcases h.waiting with ⟨-, hnil⟩ | ⟨z, hdb, hz⟩
  · rw [hnil] at hitems
    cases hitems
  · cases hpop : z.popMin with
    | none =>
      have hnil := z.popMin_eq_none_iff.mp hpop
      rw [← hz, hitems] at hnil
      cases hnil
    | some p =>
      obtain ⟨i', z'⟩ := p
      have hcons := SortedSet.items_of_popMin hpop
      rw [← hz, hitems] at hcons
      obtain ⟨rfl, -⟩ := List.cons.inj hcons
      have hexec : Redis.exec o.now (.zpopmin ready) db = (.ok (some (member i, score i)),
          Function.update db ready (zsetEntry z' none)) := by
        simp only [Redis.exec, execZpopmin, live_eq_some.mpr ⟨hdb, expired_none _ _⟩, hpop]
      have hback : execWrite o.now (.zadd ready (member i) (score i))
          (Function.update db ready (zsetEntry z' none)) = (.ok (), Function.update
            (Function.update db ready (zsetEntry z' none)) ready (some ⟨.zset z, none⟩)) := by
        refine execWrite_ok ?_
        rw [Write.key, live_update_self, zsetEntry]
        split
        · next hnil =>
          rw [← SortedSet.add_of_popMin hpop, SortedSet.eq_empty hnil]
          rfl
        · rw [← SortedSet.add_of_popMin hpop]
          rfl
      have hkept : Kept (Function.update db ready (zsetEntry z' none)) := by
        refine h.kept.elsewhere (fun id ↦ (key_ne_ready id).symm) (zsetAt_update ?_)
        unfold zsetEntry
        split
        · exact .inl rfl
        · exact .inr ⟨z', none, rfl⟩
      refine ⟨_, ?_, hkept, fun k hk ↦ Function.update_of_ne hk _ _, by rw [hback], ?_⟩
      · rw [popDue, run_bind_ok _ (o.run_nowMs db), run_redis_bind _ (Outside.answers_redis hexec)]
      · simp only [hback, hdb, Function.update_self]

theorem run_get_congr {db' : Db} {m : String} (h : db' (key m) = db (key m)) :
    ((get m).run o.answers db').1 = ((get m).run o.answers db).1 := by
  rw [run_get_eq, run_get_eq, live_congr h]

variable {i : ℤ ×ₗ String} {rest : List (ℤ ×ₗ String)}

theorem QueueState.pop_early (h : QueueState db) (hitems : waitingItems db = i :: rest)
    (hlt : o.now < score i) :
    (popDue.run o.answers db).1 = .ok none ∧ (popDue.run o.answers db).2 ready = db ready := by
  obtain ⟨db', hpop, -, -, hok, hback⟩ := h.pop_cons (o := o) hitems
  have hanswer : o.answers (.redis (.write (.zadd ready (member i) (score i)))) db' =
      (.ok (), (execWrite o.now (.zadd ready (member i) (score i)) db').2) :=
    Outside.answers_redis (Prod.ext hok rfl)
  rw [hpop, claim, if_pos hlt, run_redis_bind _ hanswer]
  exact ⟨rfl, hback⟩

theorem QueueState.pop_stale (h : QueueState db) (hitems : waitingItems db = i :: rest)
    (hdue : score i ≤ o.now) (hgone : live o.now db (key (member i)) = none) :
    (popDue.run o.answers db).1 = .ok none := by
  obtain ⟨db', hpop, hkept, hframe, -⟩ := h.pop_cons (o := o) hitems
  obtain ⟨job?, hget, hnone⟩ := hkept.run_get o (member i)
  have hgone' : live o.now db' (key (member i)) = none := by
    rw [live_congr (hframe _ (key_ne_ready _))]
    exact hgone
  obtain rfl := hnone.mpr hgone'
  rw [hpop, claim, if_neg (not_lt.mpr hdue), run_bind_ok _ hget]
  rfl

theorem QueueState.pop_live (h : QueueState db) (hitems : waitingItems db = i :: rest)
    (hdue : LiveDue o.now db i) :
    ∃ job, (popDue.run o.answers db).1 = .ok (some job) ∧ job.id = member i ∧
      (get job.id).run o.answers db = (.ok (some job), db) := by
  obtain ⟨db', hpop, hkept, hframe, -⟩ := h.pop_cons (o := o) hitems
  have hjob := hframe _ (key_ne_ready (member i))
  have hlive : live o.now db' (key (member i)) ≠ none := by
    rw [live_congr hjob]
    exact hdue.2
  obtain ⟨job?, hget, hnone⟩ := hkept.run_get o (member i)
  obtain ⟨job, rfl⟩ : ∃ job, job? = some job :=
    Option.ne_none_iff_exists'.mp (fun hn ↦ hlive (hnone.mp hn))
  have hread : ((get (member i)).run o.answers db).1 = .ok (some job) := by
    rw [← run_get_congr hjob, hget]
  have hname : job.id = member i := id_of_get h.filed hread
  obtain ⟨db'', hupdate⟩ : ∃ db'', (update (member i) o.now
      [("status", Status.running.value)]).run o.answers db' = (.ok (), db'') :=
    hkept.run_update hlive
  refine ⟨job, ?_, hname, ?_⟩
  · rw [hpop, claim, if_neg (not_lt.mpr hdue.1), run_bind_ok _ hget]
    simp only
    rw [run_bind_ok _ hupdate]
    rfl
  · rw [hname]
    exact Prod.ext hread (by rw [run_get_eq])

theorem QueueState.head_le (h : QueueState db) (hitems : waitingItems db = i :: rest) :
    ∀ j ∈ waitingItems db, score i ≤ score j := by
  have hsorted := h.sorted
  rw [hitems] at hsorted ⊢
  intro j hj
  rcases List.mem_cons.mp hj with rfl | hj
  · exact le_rfl
  · exact Prod.Lex.monotone_fst _ _ (List.rel_of_pairwise_cons hsorted hj)

end Pops

/-- A pop does what it is for exactly when no expired job stands before a live one that is
due. -/
theorem popsEarliest_iff {db : Db} (h : QueueState db) (o : Outside) :
    PopsEarliest o db ↔ ¬ StaleHead o.now db := by
  constructor
  · rintro hpops ⟨i, rest, hitems, hdue, hgone, j, hj, hlive⟩
    refine hpops.nothing (h.pop_stale hitems hdue hgone) j ?_ hlive
    rw [hitems]
    exact List.mem_cons_of_mem _ hj
  · intro hstale
    cases hitems : waitingItems db with
    | nil =>
      have hpop := h.pop_nil (o := o) hitems
      refine ⟨fun job hjob ↦ ?_, fun _ i hi ↦ ?_, ⟨none, by rw [hpop]⟩, fun _ ↦ ?_⟩
      · rw [hpop] at hjob
        cases hjob
      · rw [hitems] at hi
        cases hi
      · rw [hpop]
        exact ⟨rfl, rfl⟩
    | cons i rest =>
      have hhead := h.head_le hitems
      have hmem : i ∈ waitingItems db := by rw [hitems]; exact List.mem_cons_self
      by_cases hdue : score i ≤ o.now
      · by_cases hgone : live o.now db (key (member i)) = none
        · have hpop := h.pop_stale hitems hdue hgone
          refine ⟨fun job hjob ↦ ?_, fun _ j hj hlive ↦ ?_, ⟨none, hpop⟩,
            fun hall ↦ absurd (hall i hmem) (not_lt.mpr hdue)⟩
          · rw [hpop] at hjob
            cases hjob
          · rw [hitems] at hj
            rcases List.mem_cons.mp hj with rfl | hj
            · exact hlive.2 hgone
            · exact hstale ⟨i, rest, hitems, hdue, hgone, j, hj, hlive⟩
        · obtain ⟨job, hpop, hid, hget⟩ := h.pop_live hitems ⟨hdue, hgone⟩
          refine ⟨fun job' hjob ↦ ?_, fun hnone ↦ ?_, ⟨_, hpop⟩,
            fun hall ↦ absurd (hall i hmem) (not_lt.mpr hdue)⟩
          · rw [hpop] at hjob
            obtain rfl : job = job' := Option.some.inj (Except.ok.inj hjob)
            exact ⟨hget, i, hmem, hid.symm, ⟨hdue, hgone⟩, fun j hj _ ↦ hhead j hj⟩
          · rw [hpop] at hnone
            cases hnone
      · have hlt := not_le.mp hdue
        obtain ⟨hpop, hback⟩ := h.pop_early hitems hlt
        refine ⟨fun job hjob ↦ ?_, fun _ j hj hlive ↦ ?_, ⟨none, hpop⟩, fun _ ↦ ⟨hpop, hback⟩⟩
        · rw [hpop] at hjob
          cases hjob
        · exact absurd hlive.1 (not_le.mpr (hlt.trans_le (hhead j hj)))

def twoJobs : Db :=
  let accept (o : Outside) (db : Db) : Db :=
    ((enqueue .shipped digest.metadata digest.payload).run o.answers db).2
  accept { now := 10000, uuid := .numbered 1 } (accept { now := 0 } (fun _ ↦ none))

theorem Kept.enqueue {db : Db} (h : Kept db) (config : GatewayConfig) (m : RequestMetadata)
    (payload : List (String × JsonText.Json)) (o : Outside) :
    Kept ((Queue.enqueue config m payload).run o.answers db).2 := by
  have hstep := h.step (o := o)
    (c := .redis (.pipeline (enqueueWrites config o.uuid.hex m payload o.now)))
    ⟨config, _, m, payload, o.now, rfl⟩ (fun k fields hc ↦ by cases hc)
  rw [Queue.enqueue, run_bind_ok _ (o.run_nowMs db), ask_bind, run_call, run_bind, run_redis]
  simp only [Outside.answers] at hstep ⊢
  cases (exec o.now (.pipeline (enqueueWrites config o.uuid.hex m payload o.now)) db).1 <;>
    exact hstep

theorem only_enqueue (config : GatewayConfig) (m : RequestMetadata)
    (payload : List (String × JsonText.Json)) : (Queue.enqueue config m payload).Only allowed :=
  (only_nowMs trivial).bind (fun now ↦ (only_ask trivial).bind (fun _ ↦
    (only_redis ⟨config, _, m, payload, now, rfl⟩).bind (fun _ ↦ trivial)))

theorem queueState_twoJobs : QueueState twoJobs := by
  have hindexed : Indexed (fun _ ↦ none) := ⟨.inl rfl, .inl rfl, fun _ _ _ _ h ↦ by cases h⟩
  have hkept : Kept (fun _ ↦ none) := ⟨fun _ _ h ↦ (by cases h), .inl rfl, .inl rfl⟩
  have hlasting : (twoJobs ready).all (·.expireAt.isNone) = true := by decide +kernel
  refine ⟨?_, ?_, fun e he ↦ ?_⟩
  · unfold twoJobs
    exact (hkept.enqueue ..).enqueue ..
  · unfold twoJobs
    exact ((hindexed.run (only_enqueue ..)).run (only_enqueue ..)).filed
  · rw [he] at hlasting
    simpa using hlasting

theorem popsEarliest_iff_twoJobs : PopsEarliest { now := 20000 } twoJobs := by
  refine (popsEarliest_iff queueState_twoJobs { now := 20000 }).mpr ?_
  rintro ⟨i, rest, hitems, -, hgone, -⟩
  have halive : (waitingItems twoJobs).all
      (fun i ↦ (live 20000 twoJobs (key (member i))).isSome) = true := by decide +kernel
  have hi := List.all_eq_true.mp halive i (by rw [hitems]; exact List.mem_cons_self)
  rw [hgone] at hi
  cases hi

/-- Five seconds after the first job's hash has expired, the second is due and alive and the
pop returns nothing. -/
theorem twoJobs_not_popsEarliest :
    QueueState twoJobs ∧ ¬ PopsEarliest { now := 86405000 } twoJobs := by
  refine ⟨queueState_twoJobs, fun h ↦ ?_⟩
  have hnothing : (popDue.run (Outside.answers { now := 86405000 }) twoJobs).1.toOption.any
      (·.isNone) = true := by decide +kernel
  have hlive : (waitingItems twoJobs).any (fun i ↦ decide (score i ≤ 86405000) &&
      (live 86405000 twoJobs (key (member i))).isSome) = true := by decide +kernel
  obtain ⟨i, hi, hdue⟩ := List.any_eq_true.mp hlive
  rw [Bool.and_eq_true, decide_eq_true_eq, Option.isSome_iff_ne_none] at hdue
  obtain ⟨job?, hjob⟩ := h.returns
  rw [hjob] at hnothing
  obtain rfl : job? = none := by simpa [Except.toOption] using hnothing
  exact h.nothing hjob i hi hdue

end HealingGateway.Queue
