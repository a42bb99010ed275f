import HealingGateway.JobPlaces
import HealingGateway.Library.Histories
import Mathlib.Data.Fintype.Basic

namespace HealingGateway

open Programs Redis

/-- What becomes of a command on the store: it is answered, it is refused, or it is carried out
and the answer is lost. -/
inductive Fate
  | answered
  | refused (e : Exn)
  | unheard (e : Exn)

def Outside.meets (o : Outside) (fate : Fate) : Handler Cmd Reply Db
  | .redis c, db =>
    match fate with
    | .answered => o.answers (.redis c) db
    | .refused e => (.error e, db)
    | .unheard e => (.error e, (o.answers (.redis c) db).2)
  | c, db => o.answers c db

theorem Outside.meets_store (o : Outside) (fate : Fate) (c : Cmd) (db : Db) :
    (o.meets fate c db).2 = db ∨ (o.meets fate c db).2 = (o.answers c db).2 := by
  cases c with
  | redis c =>
    cases fate with
    | answered | unheard => exact .inr rfl
    | refused => exact .inl rfl
  | _ => exact .inr rfl

theorem Outside.meets_ok {o : Outside} {fate : Fate} {c : Redis.Command} {db : Db} {r : Redis.Reply c}
    (h : (o.meets fate (.redis c) db).1 = .ok r) :
    o.meets fate (.redis c) db = o.answers (.redis c) db := by
  cases fate with
  | answered => rfl
  | refused | unheard => cases h

end HealingGateway

namespace HealingGateway.Worker

open Programs Programs.Prog Numerals JsonText Queue Tokens

/-- A process of the queue: one that puts a job there, or one that drains it. -/
inductive Role
  | enqueuer (config : GatewayConfig) (metadata : RequestMetadata) (payload : List (String × Json))
  | worker (env : Environ) (config : GatewayConfig) (schedules : List Router.RaceSchedule)

def Role.body : Role → Gateway Unit
  | enqueuer config metadata payload => do let _ ← Queue.enqueue config metadata payload
  | worker env config schedules => drain env config schedules

theorem Role.obeys_body (role : Role) (v : Hands) : role.body.Obeys handling v (fun _ _ ↦ True) := by
  cases role with
  | enqueuer config metadata payload =>
    exact obeys_before (obeys_enqueue config metadata payload v) (fun _ _ ↦ trivial)
  | worker env config schedules => exact obeys_drain env config schedules v

abbrev Processes (ι : Type) := Pool ι Cmd Reply Exn Unit Hands Redis.Db

/-- Where a job can be: in the ready set, with the enqueuer that drew its id, or in the hands of the
worker that popped it. -/
inductive Place (ι : Type)
  | queue
  | draft (i : ι)
  | hand (i : ι)

def board {ι : Type} (p : Processes ι) : Board (Place ι) String where
  tokens
    | .queue => {id | Awaits p.store id}
    | .draft i => {id | (p.view i).drawn = some id}
    | .hand i => {id | (p.view i).taken = some id}
  made := {id | ∃ i, id ∈ (p.view i).ids}

section Stores

variable {db : Redis.Db} {o : Outside} {fate : Fate} {c : Cmd} {id : String} {v : Hands}

theorem meets_frame {k : String} (hk : k ∉ c.keys) : (o.meets fate c db).2 k = db k := by
  rcases o.meets_store fate c db with h | h
  · rw [h]
  · rw [h]
    exact o.answers_frame hk db

theorem Filed.meets (hf : Filed db) (hc : handling.allowed v c) : Filed (o.meets fate c db).2 := by
  rcases o.meets_store fate c db with h | h
  · rwa [h]
  · rw [h]
    rcases hc.2 with hc | ⟨hc, -⟩
    · exact hf.congr (fun id ↦ o.answers_frame (fun hk ↦ hc _ hk (queueKey_key id)) db)
    · exact hf.step hc o

theorem Filed.files (hf : Filed db) (o : Outside) (fate : Fate) (c : Cmd) :
    Files c (o.meets fate c db).1 := by
  unfold Files
  split
  · rintro id raw name rfl hr hname
    rw [Outside.meets_ok hr] at hr
    cases hraw : Redis.asHash (Redis.live o.now db (Queue.key id)) with
    | error e =>
      simp only [Outside.answers, Redis.exec, hraw] at hr
      cases hr
    | ok found =>
      simp only [Outside.answers, Redis.exec, hraw] at hr
      cases hr
      exact hf.named hraw hname
  · trivial

theorem awaits_frame (hc : ready ∉ c.keys) (h : Awaits (o.meets fate c db).2 id) : Awaits db id :=
  (awaits_congr (meets_frame hc)).mp h

theorem awaits_zadd {m : String} {score : ℤ}
    (h : Awaits (o.meets fate (.redis (.write (.zadd ready m score))) db).2 id) :
    id = m ∨ Awaits db id := by
  rcases o.meets_store fate (.redis (.write (.zadd ready m score))) db with hs | hs
  · rw [hs] at h
    exact .inr h
  · rw [hs] at h
    exact Redis.member_of_zadd h

theorem answers_send (o : Outside) (config : GatewayConfig) (m : String) (metadata : RequestMetadata)
    (payload : List (String × Json)) (created : ℤ) (db : Redis.Db) :
    (o.answers (.redis (.pipeline (enqueueWrites config m metadata payload created))) db).2 =
      (Redis.execWrite o.now (.zadd ready m created)
        (Redis.execWrite o.now (.expire (Queue.key m) config.queue.jobTtlS)
          (Redis.execWrite o.now (.hset (Queue.key m) (newRecord m metadata payload created)) db).2).2).2 :=
  rfl

theorem awaits_send {config : GatewayConfig} {m : String} {metadata : RequestMetadata}
    {payload : List (String × Json)} {created : ℤ}
    (h : Awaits (o.meets fate (.redis (.pipeline
      (enqueueWrites config m metadata payload created))) db).2 id) : id = m ∨ Awaits db id := by
  rcases o.meets_store fate (.redis (.pipeline (enqueueWrites config m metadata payload created))) db
    with hs | hs
  · rw [hs] at h
    exact .inr h
  · rw [hs, answers_send] at h
    refine (Redis.member_of_zadd h).imp_right (fun hmember ↦ (awaits_congr ?_).mp hmember)
    rw [Redis.execWrite_frame (key_ne_ready m).symm, Redis.execWrite_frame (key_ne_ready m).symm]

theorem awaits_pop (h : Awaits (o.meets fate (.redis (.zpopmin ready)) db).2 id) : Awaits db id := by
  rcases o.meets_store fate (.redis (.zpopmin ready)) db with hs | hs
  · rwa [hs] at h
  · rw [hs] at h
    exact (Redis.member_of_zpopmin o.now ready db).1 id h

theorem awaits_popped {score : ℤ}
    (h : (o.meets fate (.redis (.zpopmin ready)) db).1 = .ok (some (id, score))) :
    Awaits db id ∧ ¬ Awaits (o.meets fate (.redis (.zpopmin ready)) db).2 id := by
  have hanswer := Outside.meets_ok h
  rw [hanswer] at h ⊢
  cases hexec : Redis.exec o.now (.zpopmin ready) db with
  | mk r db' =>
    simp only [Outside.answers, hexec] at h ⊢
    cases r with
    | error e => cases h
    | ok popped =>
      cases h
      have hmember := (Redis.member_of_zpopmin o.now ready db).2 id score (congrArg Prod.fst hexec)
      rwa [show (Redis.execZpopmin o.now ready db).2 = db' from congrArg Prod.snd hexec] at hmember

def Ended (db : Redis.Db) (id : String) : Prop :=
  ∃ status : Status, status.terminal = true ∧ statusOf db id = some status.value

theorem ended_congr {db' : Redis.Db} (h : db (Queue.key id) = db' (Queue.key id)) :
    Ended db id ↔ Ended db' id := by
  rw [Ended, Ended, statusOf_congr h]

theorem not_ended {status : Status} (hs : status.terminal = false)
    (h : statusOf db id = some status.value) : ¬ Ended db id := by
  rintro ⟨s, hterminal, hs'⟩
  rw [h] at hs'
  obtain rfl : status = s := by
    have hvalue := congrArg Status.ofValue? (Option.some.inj hs')
    simpa using hvalue
  rw [hs] at hterminal
  cases hterminal

theorem statusOf_hset {now : ℤ} {fields : List (String × String)} {status : Status}
    (hkeys : (fields.map Prod.fst).Nodup) (hstatus : ("status", status.value) ∈ fields) :
    (Redis.execWrite now (.hset (Queue.key id) fields) db).2 (Queue.key id) = db (Queue.key id) ∨
      statusOf (Redis.execWrite now (.hset (Queue.key id) fields) db).2 id = some status.value := by
  rcases Redis.execWrite_cases now (.hset (Queue.key id) fields) db with ⟨e, h⟩ | ⟨db', h⟩
  · rw [h]
    exact .inl rfl
  · obtain ⟨old, t, rfl, -⟩ := Redis.eq_of_hset h
    rw [h]
    exact .inr (statusOf_update hkeys hstatus)

theorem Ended.of_expire {now seconds : ℤ}
    (h : Ended (Redis.execWrite now (.expire (Queue.key id) seconds) db).2 id) : Ended db id := by
  rcases Redis.execWrite_cases now (.expire (Queue.key id) seconds) db with ⟨e, hexec⟩ | ⟨db', hexec⟩
  · rwa [hexec] at h
  · obtain ⟨e, rfl, he⟩ := Redis.eq_of_expire hexec
    rw [hexec] at h
    obtain ⟨s, hterminal, hs⟩ := h
    simp only [statusOf, Function.update_self] at hs
    rcases he with rfl | ⟨found, t, t', rfl, hdb⟩
    · cases hs
    · refine ⟨s, hterminal, ?_⟩
      rw [statusOf, hdb]
      cases found with
      | hash | str | zset => exact hs

theorem Ended.of_send {config : GatewayConfig} {metadata : RequestMetadata}
    {payload : List (String × Json)} {created : ℤ}
    (h : Ended (o.meets fate (.redis (.pipeline
      (enqueueWrites config id metadata payload created))) db).2 id) : Ended db id := by
  rcases o.meets_store fate (.redis (.pipeline (enqueueWrites config id metadata payload created))) db
    with hs | hs
  · rwa [hs] at h
  · rw [hs, answers_send] at h
    have hexpired := (ended_congr (Redis.execWrite_frame (key_ne_ready id) _ _)).mp h
    have hset := hexpired.of_expire
    rcases @statusOf_hset db id o.now (newRecord id metadata payload created) .queued
      (by simp [newRecord]) (by simp [newRecord]) with hsame | hqueued
    · exact (ended_congr hsame).mp hset
    · exact absurd hset (not_ended rfl hqueued)

end Stores

section Turns

variable {ι : Type} {p p' : Processes ι} {i : ι}

theorem tokens_subset (hview : ∀ j, j ≠ i → p'.view j = p.view j) (q : Place ι)
    (hqueue : q = .queue → ∀ id, Awaits p'.store id → Awaits p.store id)
    (hdraft : q = .draft i → ∀ id ∈ (p'.view i).drawn, id ∈ (p.view i).drawn)
    (hhand : q = .hand i → ∀ id ∈ (p'.view i).taken, id ∈ (p.view i).taken) :
    (board p').tokens q ⊆ (board p).tokens q := by
  intro id hid
  cases q with
  | queue => exact hqueue rfl id hid
  | draft j =>
    by_cases hj : j = i
    · subst hj
      exact hdraft rfl id hid
    · change (p'.view j).drawn = some id at hid
      rwa [hview j hj] at hid
  | hand j =>
    by_cases hj : j = i
    · subst hj
      exact hhand rfl id hid
    · change (p'.view j).taken = some id at hid
      rwa [hview j hj] at hid

theorem made_eq (hview : ∀ j, j ≠ i → p'.view j = p.view j) (hids : (p'.view i).ids = (p.view i).ids) :
    (board p').made = (board p).made := by
  ext id
  refine exists_congr (fun j ↦ ?_)
  by_cases hj : j = i
  · subst hj
    rw [hids]
  · rw [hview j hj]

theorem step_lose (hview : ∀ j, j ≠ i → p'.view j = p.view j) (hids : (p'.view i).ids = (p.view i).ids)
    (hqueue : ∀ id, Awaits p'.store id → Awaits p.store id)
    (hdraft : ∀ id ∈ (p'.view i).drawn, id ∈ (p.view i).drawn)
    (hhand : ∀ id ∈ (p'.view i).taken, id ∈ (p.view i).taken) : Step (board p) (board p') :=
  .lose (fun q ↦ tokens_subset hview q (fun _ ↦ hqueue) (fun _ ↦ hdraft) (fun _ ↦ hhand))
    (made_eq hview hids)

theorem step_put {m : String} (hview : ∀ j, j ≠ i → p'.view j = p.view j)
    (hself : p'.view i = { p.view i with taken := none }) (hm : (p.view i).taken = some m)
    (hqueue : ∀ id, Awaits p'.store id → id = m ∨ Awaits p.store id) : Step (board p) (board p') := by
  refine .move (p := .hand i) (q := .queue) hm ?_ hqueue (fun q hq ↦ ?_) (made_eq hview (by rw [hself]))
  · change (p'.view i).taken ≠ some m
    rw [hself]
    rintro ⟨⟩
  · refine tokens_subset hview q (fun h ↦ absurd h hq) (fun _ id hid ↦ ?_) (fun _ id hid ↦ ?_)
    · rwa [hself] at hid
    · rw [hself] at hid
      cases hid

theorem step_send {m : String} (hview : ∀ j, j ≠ i → p'.view j = p.view j)
    (hself : p'.view i = { p.view i with drawn := none }) (hm : (p.view i).drawn = some m)
    (hqueue : ∀ id, Awaits p'.store id → id = m ∨ Awaits p.store id) : Step (board p) (board p') := by
  refine .move (p := .draft i) (q := .queue) hm ?_ hqueue (fun q hq ↦ ?_) (made_eq hview (by rw [hself]))
  · change (p'.view i).drawn ≠ some m
    rw [hself]
    rintro ⟨⟩
  · refine tokens_subset hview q (fun h ↦ absurd h hq) (fun _ id hid ↦ ?_) (fun _ id hid ↦ ?_)
    · rw [hself] at hid
      cases hid
    · rwa [hself] at hid

theorem step_pop {m : String} (hview : ∀ j, j ≠ i → p'.view j = p.view j)
    (hself : p'.view i = { p.view i with taken := some m }) (hm : Awaits p.store m)
    (hgone : ¬ Awaits p'.store m) (hqueue : ∀ id, Awaits p'.store id → Awaits p.store id) :
    Step (board p) (board p') := by
  refine .move (p := .queue) (q := .hand i) hm hgone (fun id hid ↦ ?_) (fun q hq ↦ ?_)
    (made_eq hview (by rw [hself]))
  · change (p'.view i).taken = some id at hid
    rw [hself] at hid
    exact .inl (Option.some.inj hid).symm
  · refine tokens_subset hview q (fun _ ↦ hqueue) (fun _ id hid ↦ ?_) (fun h ↦ absurd h hq)
    rwa [hself] at hid

theorem step_draw {m : String} (hview : ∀ j, j ≠ i → p'.view j = p.view j)
    (hself : p'.view i = { p.view i with ids := m :: (p.view i).ids, drawn := some m })
    (hnew : ∀ j, m ∉ (p.view j).ids) (hqueue : ∀ id, Awaits p'.store id → Awaits p.store id) :
    Step (board p) (board p') := by
  refine .make (q := .draft i) (t := m) (fun ⟨j, hj⟩ ↦ hnew j hj) (fun id hid ↦ ?_) (fun q hq ↦ ?_) ?_
  · change (p'.view i).drawn = some id at hid
    rw [hself] at hid
    exact .inl (Option.some.inj hid).symm
  · refine tokens_subset hview q (fun _ ↦ hqueue) (fun h ↦ absurd h hq) (fun _ id hid ↦ ?_)
    rwa [hself] at hid
  · ext id
    constructor
    · rintro ⟨j, hj⟩
      by_cases hji : j = i
      · subst hji
        rw [hself] at hj
        rcases List.mem_cons.mp hj with rfl | hj
        · exact .inl rfl
        · exact .inr ⟨j, hj⟩
      · rw [hview j hji] at hj
        exact .inr ⟨j, hj⟩
    · rintro (rfl | ⟨j, hj⟩)
      · exact ⟨i, by rw [hself]; exact List.mem_cons_self ..⟩
      · by_cases hji : j = i
        · subst hji
          exact ⟨j, by rw [hself]; exact List.mem_cons_of_mem _ hj⟩
        · exact ⟨j, by rwa [hview j hji]⟩

variable {g : Bool} {c : Cmd} {o : Outside} {fate : Fate} {id : String}

theorem awaits_of_quiet (h : ready ∉ c.keys ∨ ∃ r, c = .redis r ∧ r.reads = true)
    {db : Redis.Db} (hid : Awaits (o.meets fate c db).2 id) : Awaits db id := by
  rcases h with h | ⟨r, rfl, hr⟩
  · exact awaits_frame h hid
  · rcases o.meets_store fate (.redis r) db with hs | hs
    · rwa [hs] at hid
    · rwa [hs, Outside.answers, Redis.exec_of_reads hr] at hid

theorem step_quiet (hview : ∀ j, j ≠ i → p'.view j = p.view j) (hself : p'.view i = p.view i)
    (hstore : p'.store = (o.meets fate c p.store).2)
    (hkeys : ready ∉ c.keys ∨ ∃ r, c = .redis r ∧ r.reads = true) : Step (board p) (board p') := by
  refine step_lose hview (by rw [hself]) (fun id hid ↦ ?_) ?_ ?_
  · rw [hstore] at hid
    exact awaits_of_quiet hkeys hid
  all_goals
    intro id hid
    rwa [hself] at hid

theorem step_dropTaken (hview : ∀ j, j ≠ i → p'.view j = p.view j)
    (hself : p'.view i = { p.view i with taken := none })
    (hqueue : ∀ id, Awaits p'.store id → Awaits p.store id) : Step (board p) (board p') := by
  refine step_lose hview (by rw [hself]) hqueue (fun id hid ↦ ?_) (fun id hid ↦ ?_)
  · rwa [hself] at hid
  · rw [hself] at hid
    cases hid

theorem step_dropDrawn (hview : ∀ j, j ≠ i → p'.view j = p.view j)
    (hself : p'.view i = { p.view i with drawn := none })
    (hqueue : ∀ id, Awaits p'.store id → Awaits p.store id) : Step (board p) (board p') := by
  refine step_lose hview (by rw [hself]) hqueue (fun id hid ↦ ?_) (fun id hid ↦ ?_)
  · rw [hself] at hid
    cases hid
  · rwa [hself] at hid

theorem step_zpopmin (hview : ∀ j, j ≠ i → p'.view j = p.view j)
    (hself : p'.view i = (p.view i).watch g (.redis (.zpopmin ready))
      (o.meets fate (.redis (.zpopmin ready)) p.store).1)
    (hstore : p'.store = (o.meets fate (.redis (.zpopmin ready)) p.store).2) :
    Step (board p) (board p') := by
  have hqueue : ∀ id, Awaits p'.store id → Awaits p.store id := by
    intro id hid
    rw [hstore] at hid
    exact awaits_pop hid
  rw [Hands.watch_zpopmin, if_pos rfl] at hself
  rcases hr : (o.meets fate (.redis (.zpopmin ready)) p.store).1 with e | _ | ⟨m, score⟩
  · rw [hr] at hself
    exact step_dropTaken hview hself hqueue
  · rw [hr] at hself
    exact step_dropTaken hview hself hqueue
  · rw [hr] at hself
    obtain ⟨hm, hgone⟩ := awaits_popped hr
    rw [← hstore] at hgone
    exact step_pop hview hself hm hgone hqueue

theorem step_hset {k : String} {fields : List (String × String)} (hk : k ≠ ready)
    (hview : ∀ j, j ≠ i → p'.view j = p.view j)
    (hself : p'.view i = (p.view i).watch g (.redis (.write (.hset k fields)))
      (o.meets fate (.redis (.write (.hset k fields))) p.store).1)
    (hstore : p'.store = (o.meets fate (.redis (.write (.hset k fields))) p.store).2) :
    Step (board p) (board p') := by
  have hkeys : ready ∉ (Cmd.redis (.write (.hset k fields))).keys := fun h ↦
    hk (List.mem_singleton.mp h).symm
  by_cases hends : (p.view i).taken.map Queue.key = some k ∧ ends fields = true
  · rw [Hands.watch, if_pos hends] at hself
    refine step_dropTaken hview hself (fun id hid ↦ ?_)
    rw [hstore] at hid
    exact awaits_frame hkeys hid
  · rw [Hands.watch, if_neg hends] at hself
    exact step_quiet hview hself hstore (.inl hkeys)

/-- One command of a process moves at most one job. -/
theorem board_turn (hview : ∀ j, j ≠ i → p'.view j = p.view j)
    (hself : p'.view i = (p.view i).watch g c (o.meets fate c p.store).1)
    (hstore : p'.store = (o.meets fate c p.store).2) (hallowed : handling.allowed (p.view i) c)
    (hnew : c = .uuid4 → ∀ j, o.uuid.hex ∉ (p.view j).ids) : Step (board p) (board p') := by
  cases c with
  | redis r =>
    have helsewhere : (∀ k ∈ r.keys, ¬ QueueKey k) → ready ∉ r.keys :=
      fun h hmem ↦ h ready hmem queueKey_ready
    cases r with
    | write w =>
      cases w with
      | hset k fields =>
        have hk : k ≠ ready := by
          rcases hallowed.2 with h | ⟨⟨⟨id, rfl⟩, -⟩, -⟩
          · rintro rfl
            exact h ready (List.mem_singleton.mpr rfl) queueKey_ready
          · exact key_ne_ready id
        exact step_hset hk hview hself hstore
      | zadd k m score =>
        by_cases hk : k = ready
        · subst hk
          rw [Hands.watch, if_pos rfl] at hself
          rcases hallowed.2 with h | ⟨-, h⟩
          · exact absurd queueKey_ready (h ready (List.mem_singleton.mpr rfl))
          · refine step_put hview hself (h rfl) (fun id hid ↦ ?_)
            rw [hstore] at hid
            exact awaits_zadd hid
        · rw [Hands.watch, if_neg hk] at hself
          exact step_quiet hview hself hstore (.inl (fun h ↦ hk (List.mem_singleton.mp h).symm))
      | zremrangebyscore k max | expire k seconds =>
        rcases hallowed.2 with h | ⟨⟨⟩, -⟩
        exact step_quiet hview hself hstore (.inl (helsewhere h))
    | pipeline ws =>
      rcases hallowed.2 with h | ⟨-, config, m, metadata, payload, created, hm, rfl⟩
      · refine step_dropDrawn hview hself (fun id hid ↦ ?_)
        rw [hstore] at hid
        exact awaits_frame (c := .redis (.pipeline ws)) (helsewhere h) hid
      · refine step_send hview hself hm (fun id hid ↦ ?_)
        rw [hstore] at hid
        exact awaits_send hid
    | zpopmin k =>
      by_cases hk : k = ready
      · subst hk
        exact step_zpopmin hview hself hstore
      · rw [Hands.watch_zpopmin, if_neg hk] at hself
        exact step_quiet hview hself hstore (.inl (fun h ↦ hk (List.mem_singleton.mp h).symm))
    | delete k | set k value nx ex =>
      rcases hallowed.2 with h | ⟨h, -⟩
      · exact step_quiet hview hself hstore (.inl (helsewhere h))
      · cases h
    | hgetall | get | zrangebyscore | zrange | zcard =>
      exact step_quiet hview hself hstore (.inr ⟨_, rfl, rfl⟩)
  | uuid4 =>
    refine step_draw hview hself (hnew rfl) (fun id hid ↦ ?_)
    rw [hstore] at hid
    exact awaits_of_quiet (c := .uuid4) (.inl (List.not_mem_nil)) hid
  | _ => exact step_quiet hview hself hstore (.inl (List.not_mem_nil))

theorem touched {v : Hands} {db : Redis.Db} (hallowed : handling.allowed v c)
    (hne : (o.meets fate c db).2 (Queue.key id) ≠ db (Queue.key id)) :
    (∃ fields, c = .redis (.write (.hset (Queue.key id) fields)) ∧ v.taken = some id ∧
      (fields.map Prod.fst).Nodup ∧ ∃ s : Status, ("status", s.value) ∈ fields) ∨
    ∃ config metadata payload created, v.drawn = some id ∧
      c = .redis (.pipeline (enqueueWrites config id metadata payload created)) := by
  have hkey : Queue.key id ∈ c.keys := by
    by_contra hk
    exact hne (meets_frame hk)
  rcases hallowed.2 with h | ⟨hqueue, hpermit⟩
  · exact absurd (queueKey_key id) (h _ hkey)
  · have hinj : ∀ id', Queue.key id = Queue.key id' → id = id' := fun id' h ↦ by
      simpa [Queue.key] using h
    cases c with
    | redis r =>
      cases r with
      | write w =>
        cases w with
        | hset k fields =>
          obtain ⟨⟨id', hid', rfl⟩, hkeys, hstatus⟩ := hpermit
          obtain rfl := hinj id' (List.mem_singleton.mp hkey)
          exact .inl ⟨fields, rfl, hid', hkeys, hstatus⟩
        | zadd k m score =>
          have hk := List.mem_singleton.mp hkey
          rcases hqueue with rfl | rfl
          · exact absurd hk (key_ne_ready id)
          · exact absurd hk (key_ne_dlq id)
        | zremrangebyscore | expire => cases hqueue
      | pipeline ws =>
        obtain ⟨config, id', metadata, payload, created, hid', rfl⟩ := hpermit
        have hk : Queue.key id = Queue.key id' := by
          simpa [Cmd.keys, Redis.Command.keys, enqueueWrites, Redis.Write.key, key_ne_ready] using hkey
        obtain rfl := hinj id' hk
        exact .inr ⟨config, metadata, payload, created, hid', rfl⟩
      | zpopmin k =>
        obtain rfl : k = ready := hqueue
        exact absurd (List.mem_singleton.mp hkey) (key_ne_ready id)
      | delete | set => cases hqueue
      | hgetall | get | zrangebyscore | zrange | zcard =>
        rcases o.meets_store fate (.redis _) db with hs | hs
        · exact absurd (congrFun hs _) hne
        · exact absurd (congrFun hs _) hne
    | _ => cases hkey

/-- A worker that brings the job in its hands to its end has no job any more. -/
theorem retired_of_ends {fields : List (String × String)} (h : Sound (board p))
    (hstep : Step (board p) (board p')) (hview : ∀ j, j ≠ i → p'.view j = p.view j)
    (hself : p'.view i = (p.view i).watch g (.redis (.write (.hset (Queue.key id) fields)))
      (o.meets fate (.redis (.write (.hset (Queue.key id) fields))) p.store).1)
    (hstore : p'.store = (o.meets fate (.redis (.write (.hset (Queue.key id) fields))) p.store).2)
    (htaken : (p.view i).taken = some id) (hends : ends fields = true) : Retired (board p') id := by
  rw [Hands.watch, if_pos ⟨by rw [htaken]; rfl, hends⟩] at hself
  refine h.retired hstep (p := .hand i) htaken ?_ (fun q hq ↦ ?_)
  · change (p'.view i).taken ≠ some id
    rw [hself]
    rintro ⟨⟩
  · refine tokens_subset hview q (fun _ id' hid ↦ ?_) (fun _ id' hid ↦ ?_) (fun hq' ↦ absurd hq' hq)
    · rw [hstore] at hid
      exact awaits_frame (fun hk ↦ key_ne_ready id (List.mem_singleton.mp hk).symm) hid
    · rwa [hself] at hid

/-- No job is at two places, and one that has ended is nowhere. -/
structure Orderly (p : Processes ι) : Prop where
  sound : Sound (board p)
  ended : ∀ id, Ended p.store id → Retired (board p) id

theorem Orderly.turn (h : Orderly p) (hview : ∀ j, j ≠ i → p'.view j = p.view j)
    (hself : p'.view i = (p.view i).watch g c (o.meets fate c p.store).1)
    (hstore : p'.store = (o.meets fate c p.store).2) (hallowed : handling.allowed (p.view i) c)
    (hnew : c = .uuid4 → ∀ j, o.uuid.hex ∉ (p.view j).ids) : Orderly p' := by
  have hstep : Step (board p) (board p') := board_turn hview hself hstore hallowed hnew
  refine ⟨h.sound.step hstep, fun id hended ↦ ?_⟩
  rw [hstore] at hended
  by_cases hsame : (o.meets fate c p.store).2 (Queue.key id) = p.store (Queue.key id)
  · exact (h.ended id ((ended_congr hsame).mp hended)).step hstep
  rcases touched hallowed hsame with ⟨fields, rfl, htaken, hkeys, s, hs⟩ |
    ⟨config, metadata, payload, created, hdrawn, rfl⟩
  · have hstatus : statusOf (o.meets fate (.redis (.write (.hset (Queue.key id) fields))) p.store).2 id =
        some s.value := by
      rcases o.meets_store fate (.redis (.write (.hset (Queue.key id) fields))) p.store with hm | hm
      · exact absurd (congrFun hm _) hsame
      · rw [hm] at hsame ⊢
        exact (statusOf_hset hkeys hs).resolve_left hsame
    have hterminal : s.terminal = true := by
      by_contra hnot
      exact not_ended (Bool.not_eq_true _ ▸ hnot) hstatus hended
    exact retired_of_ends h.sound hstep hview hself hstore htaken (by rw [ends_eq hkeys hs, hterminal])
  · exact absurd hdrawn ((h.ended id hended.of_send).2 (.draft i))

def nextCmd (p : Processes ι) (i : ι) : Option Cmd :=
  match p.rest i with
  | .call _ c _ => some c
  | _ => none

theorem nextCmd_eq_some (h : nextCmd p i = some c) :
    ∃ g k, p.rest i = .call g c k := by
  unfold nextCmd at h
  split at h
  · next g c' k hi =>
    obtain rfl := Option.some.inj h
    exact ⟨g, k, hi⟩
  · cases h

end Turns

section Runs

variable {ι : Type} [DecidableEq ι] (roles : ι → Role) (db : Redis.Db)

/-- The processes after some turns, each turn one command of one process with what becomes of it. -/
def processesAfter (turns : List (ι × (Outside × Fate))) : Processes ι :=
  Pool.run handling (fun o : Outside × Fate ↦ o.1.meets o.2)
    ⟨fun i ↦ (roles i).body, fun _ ↦ {}, db⟩ turns

def drawnAt (p : Processes ι) (turn : ι × (Outside × Fate)) : Option String :=
  match nextCmd p turn.1 with
  | some .uuid4 => some turn.2.1.uuid.hex
  | _ => none

/-- No id is drawn twice. -/
def DrawsFresh (turns : List (ι × (Outside × Fate))) : Prop :=
  ∀ before turn after, turns = before ++ turn :: after →
    ∀ id ∈ drawnAt (processesAfter roles db before) turn,
      ∀ j, id ∉ ((processesAfter roles db before).view j).ids

instance [Fintype ι] (turns : List (ι × (Outside × Fate))) : Decidable (DrawsFresh roles db turns) :=
  inferInstanceAs (Decidable (∀ _ _ _, _))

def NoQueue (db : Redis.Db) : Prop := ∀ k, QueueKey k → db k = none

def EndsAt (p : Processes ι) (turn : ι × (Outside × Fate)) (id : String) : Prop :=
  ∃ fields, nextCmd p turn.1 = some (.redis (.write (.hset (Queue.key id) fields))) ∧ ends fields = true

def HandlesAt (p : Processes ι) (turn : ι × (Outside × Fate)) (id : String) : Prop :=
  ∃ w, nextCmd p turn.1 = some (.redis (.write w)) ∧
    ((∃ fields, w = .hset (Queue.key id) fields) ∨ ∃ score, w = .zadd ready id score)

/-- At every moment a job is in the ready set or in the hands of one worker at most; only that
worker acts on it, and only with a job in hand does a worker call a provider; a job that has ended
is in neither place and its record never changes again; and it is brought to its end once at most. -/
structure Exclusive (turns : List (ι × (Outside × Fate))) : Prop where
  apart : ∀ before after, turns = before ++ after → ∀ id,
    (Awaits (processesAfter roles db before).store id →
      ∀ i, ((processesAfter roles db before).view i).taken ≠ some id) ∧
    ∀ i j, ((processesAfter roles db before).view i).taken = some id →
      ((processesAfter roles db before).view j).taken = some id → i = j
  acts : ∀ before turn after, turns = before ++ turn :: after →
    (∀ id, HandlesAt (processesAfter roles db before) turn id →
      ((processesAfter roles db before).view turn.1).taken = some id) ∧
    ∀ kwargs, nextCmd (processesAfter roles db before) turn.1 = some (.acompletion kwargs) →
      ∃ id, ((processesAfter roles db before).view turn.1).taken = some id
  ended : ∀ before during after, turns = before ++ during ++ after → ∀ id,
    Ended (processesAfter roles db before).store id →
      (processesAfter roles db (before ++ during)).store (Queue.key id) =
        (processesAfter roles db before).store (Queue.key id) ∧
      ¬ Awaits (processesAfter roles db (before ++ during)).store id ∧
      ∀ i, ((processesAfter roles db (before ++ during)).view i).taken ≠ some id
  once : ∀ before turn during turn' after id,
    turns = before ++ turn :: during ++ turn' :: after →
      EndsAt (processesAfter roles db before) turn id →
      ¬ EndsAt (processesAfter roles db (before ++ turn :: during)) turn' id

variable {roles db} {turns : List (ι × (Outside × Fate))}

theorem DrawsFresh.of_append {later : List (ι × (Outside × Fate))}
    (h : DrawsFresh roles db (turns ++ later)) : DrawsFresh roles db turns := by
  intro before turn after he
  exact h before turn (after ++ later) (by rw [he, List.append_assoc, List.cons_append])

/-- The processes keep to their protocol, and the store has every record filed under its job. -/
theorem filed_run (hdb : NoQueue db) :
    (processesAfter roles db turns).Obedient handling (fun _ _ _ ↦ True) ∧
      Filed (processesAfter roles db turns).store := by
  induction turns using List.reverseRec with
  | nil =>
    refine ⟨fun i ↦ (roles i).obeys_body {}, fun id raw t name hrecord ↦ ?_⟩
    rw [show (processesAfter roles db []).store = db from rfl, hdb _ (queueKey_key id)] at hrecord
    cases hrecord
  | append_singleton turns turn ih =>
    obtain ⟨hobedient, hfiled⟩ := ih
    rw [processesAfter, Pool.run_append_singleton]
    exact ⟨hobedient.step (fun c _ ↦ hfiled.files _ _ c),
      hobedient.store_step hfiled (fun c hc ↦ hfiled.meets hc)⟩

theorem processes_turn (roles : ι → Role) (db : Redis.Db) (turns : List (ι × (Outside × Fate)))
    (turn : ι × (Outside × Fate)) :
    processesAfter roles db (turns ++ [turn]) = processesAfter roles db turns ∨
      ∃ g c k, (processesAfter roles db turns).rest turn.1 = .call g c k := by
  rw [processesAfter, Pool.run_append_singleton]
  exact Pool.step_cases handling (turn.2.1.meets turn.2.2) turn.1 (processesAfter roles db turns)

section Turn

variable {turn : ι × (Outside × Fate)} {g : Bool} {c : Cmd} {k : Reply c → Gateway Unit}

theorem view_turn (hi : (processesAfter roles db turns).rest turn.1 = .call g c k) :
    (∀ j, j ≠ turn.1 → (processesAfter roles db (turns ++ [turn])).view j =
      (processesAfter roles db turns).view j) ∧
    (processesAfter roles db (turns ++ [turn])).view turn.1 =
      ((processesAfter roles db turns).view turn.1).watch g c
        (turn.2.1.meets turn.2.2 c (processesAfter roles db turns).store).1 ∧
    (processesAfter roles db (turns ++ [turn])).store =
      (turn.2.1.meets turn.2.2 c (processesAfter roles db turns).store).2 := by
  have hstep : processesAfter roles db (turns ++ [turn]) =
      (processesAfter roles db turns).step handling (turn.2.1.meets turn.2.2) turn.1 := by
    rw [processesAfter, Pool.run_append_singleton]
    rfl
  rw [hstep, Pool.step_call hi]
  exact ⟨fun j hj ↦ Function.update_of_ne hj _ _, Function.update_self .., rfl⟩

theorem new_of_fresh (hfresh : DrawsFresh roles db (turns ++ [turn]))
    (hi : (processesAfter roles db turns).rest turn.1 = .call g c k) (hc : c = .uuid4) (j : ι) :
    turn.2.1.uuid.hex ∉ ((processesAfter roles db turns).view j).ids := by
  subst hc
  refine hfresh turns turn [] rfl _ ?_ j
  simp [drawnAt, nextCmd, hi]

end Turn

theorem orderly_run (hdb : NoQueue db) (hfresh : DrawsFresh roles db turns) :
    Orderly (processesAfter roles db turns) := by
  induction turns using List.reverseRec with
  | nil =>
    constructor
    · apply sound_empty
      intro q
      ext id
      refine iff_of_false (fun h ↦ ?_) (Set.notMem_empty id)
      cases q with
      | queue =>
        obtain ⟨z, t, hready, -⟩ := h
        rw [show (processesAfter roles db []).store = db from rfl, hdb _ queueKey_ready] at hready
        cases hready
      | draft i | hand i => cases h
    · rintro id ⟨s, -, hs⟩
      rw [show (processesAfter roles db []).store = db from rfl, statusOf, hdb _ (queueKey_key id)] at hs
      cases hs
  | append_singleton turns turn ih =>
    have hbefore := ih hfresh.of_append
    rcases processes_turn roles db turns turn with hs | ⟨g, c, k, hi⟩
    · rwa [hs]
    · obtain ⟨hview, hself, hstore⟩ := view_turn hi
      exact hbefore.turn hview hself hstore ((filed_run hdb).1.allowed hi) (new_of_fresh hfresh hi)

section Later

variable (hdb : NoQueue db)

include hdb

theorem turn_cases {turn : ι × (Outside × Fate)} (hfresh : DrawsFresh roles db (turns ++ [turn])) :
    processesAfter roles db (turns ++ [turn]) = processesAfter roles db turns ∨
      Step (board (processesAfter roles db turns)) (board (processesAfter roles db (turns ++ [turn]))) := by
  rcases processes_turn roles db turns turn with hs | ⟨g, c, k, hi⟩
  · exact .inl hs
  · obtain ⟨hview, hself, hstore⟩ := view_turn hi
    exact .inr (board_turn hview hself hstore ((filed_run hdb).1.allowed hi) (new_of_fresh hfresh hi))

/-- A job that is nowhere stays nowhere, and its record stays as it is. -/
theorem retired_run {before during : List (ι × (Outside × Fate))} {id : String}
    (hfresh : DrawsFresh roles db (before ++ during))
    (h : Retired (board (processesAfter roles db before)) id) :
    Retired (board (processesAfter roles db (before ++ during))) id ∧
      (processesAfter roles db (before ++ during)).store (Queue.key id) =
        (processesAfter roles db before).store (Queue.key id) := by
  induction during using List.reverseRec with
  | nil => simpa using h
  | append_singleton during turn ih =>
    rw [← List.append_assoc] at hfresh ⊢
    obtain ⟨hretired, hrecord⟩ := ih hfresh.of_append
    constructor
    · rcases turn_cases hdb hfresh with hs | hstep
      · rwa [hs]
      · exact hretired.step hstep
    · rw [← hrecord]
      rcases processes_turn roles db (before ++ during) turn with hs | ⟨g, c, k, hi⟩
      · rw [hs]
      · obtain ⟨-, -, hstore⟩ := view_turn hi
        rw [hstore]
        by_contra hne
        rcases touched ((filed_run hdb).1.allowed hi) hne with ⟨_, -, htaken, -⟩ | ⟨_, _, _, _, hdrawn, -⟩
        · exact hretired.2 (.hand turn.1) htaken
        · exact hretired.2 (.draft turn.1) hdrawn

/-- Only the worker that has a job in its hands acts on it. -/
theorem taken_of_handles {turn : ι × (Outside × Fate)} {id : String}
    (h : HandlesAt (processesAfter roles db turns) turn id) :
    ((processesAfter roles db turns).view turn.1).taken = some id := by
  obtain ⟨w, hnext, hw⟩ := h
  obtain ⟨g, k, hi⟩ := nextCmd_eq_some hnext
  obtain ⟨-, hallowed⟩ := (filed_run hdb).1.allowed hi
  rcases hw with ⟨fields, rfl⟩ | ⟨score, rfl⟩
  · rcases hallowed with h | ⟨-, ⟨id', htaken, hid'⟩, -⟩
    · exact absurd (queueKey_key id) (h _ (List.mem_singleton.mpr rfl))
    · obtain rfl : id = id' := by simpa [Queue.key] using hid'
      exact htaken
  · rcases hallowed with h | ⟨-, h⟩
    · exact absurd queueKey_ready (h _ (List.mem_singleton.mpr rfl))
    · exact h rfl

/-- A job that was brought to its end is nowhere. -/
theorem retired_of_endsAt {turn : ι × (Outside × Fate)} {id : String}
    (hfresh : DrawsFresh roles db (turns ++ [turn])) (h : EndsAt (processesAfter roles db turns) turn id) :
    Retired (board (processesAfter roles db (turns ++ [turn]))) id := by
  obtain ⟨fields, hnext, hends⟩ := h
  have htaken := taken_of_handles hdb ⟨_, hnext, .inl ⟨fields, rfl⟩⟩
  obtain ⟨g, k, hi⟩ := nextCmd_eq_some hnext
  obtain ⟨hview, hself, hstore⟩ := view_turn hi
  have hsound := (orderly_run hdb hfresh.of_append).sound
  have hstep := board_turn hview hself hstore ((filed_run hdb).1.allowed hi) (new_of_fresh hfresh hi)
  exact retired_of_ends hsound hstep hview hself hstore htaken hends

/-- Any number of enqueuers and workers, whatever becomes of their commands, keep jobs exclusive. -/
theorem exclusive_of_fresh (hfresh : DrawsFresh roles db turns) : Exclusive roles db turns := by
  constructor
  · rintro before after rfl id
    have hsound := (orderly_run hdb hfresh.of_append).sound
    refine ⟨fun hawaits i hi ↦ ?_, fun i j hi hj ↦ ?_⟩
    · have hplace : Place.queue = .hand i := hsound.eq (t := id) hawaits hi
      cases hplace
    · have hplace : Place.hand i = .hand j := hsound.eq (t := id) hi hj
      exact Place.hand.inj hplace
  · rintro before turn after rfl
    refine ⟨fun id h ↦ taken_of_handles hdb h, fun kwargs hnext ↦ ?_⟩
    obtain ⟨g, k, hi⟩ := nextCmd_eq_some hnext
    exact Option.isSome_iff_exists.mp (((filed_run hdb).1.allowed hi).1 rfl)
  · rintro before during after rfl id hended
    have hretired := (orderly_run hdb hfresh.of_append.of_append).ended id hended
    obtain ⟨hretired', hrecord⟩ := retired_run hdb hfresh.of_append hretired
    exact ⟨hrecord, hretired'.2 .queue, fun i ↦ hretired'.2 (.hand i)⟩
  · rintro before turn during turn' after id rfl hends hends'
    have hsplit : before ++ turn :: during ++ turn' :: after =
        before ++ [turn] ++ during ++ turn' :: after := by simp
    rw [hsplit] at hfresh
    have hretired := retired_of_endsAt hdb hfresh.of_append.of_append hends
    have hlater := (retired_run hdb hfresh.of_append hretired).1
    obtain ⟨fields, hnext, -⟩ := hends'
    have htaken := taken_of_handles hdb ⟨_, hnext, .inl ⟨fields, rfl⟩⟩
    rw [show before ++ turn :: during = before ++ [turn] ++ during by simp] at htaken
    exact hlater.2 (.hand turn'.1) htaken

end Later

end Runs

section Worlds

/-- One enqueuer and two workers. -/
def twoWorkers : Fin 3 → Role
  | 0 => .enqueuer .shipped nightly []
  | _ => .worker noEnv .shipped [⟨0, [], 0⟩]

/-- Both workers look for a job, and the one that gets it goes on. -/
def contended : List (Fin 3 × (Outside × Fate)) :=
  (([0, 0, 0, 1, 2, 1, 2, 1, 2, 1, 2] : List (Fin 3)) ++ List.replicate 24 1).mapIdx
    (fun n i ↦ (i, { now := 0, uuid := .numbered n }, .answered))

theorem exclusive_contended :
    Exclusive twoWorkers (fun _ ↦ none) contended ∧
      statusOf (processesAfter twoWorkers (fun _ ↦ none) contended).store (Uuid.numbered 1).hex =
        some Status.done.value :=
  ⟨exclusive_of_fresh (fun _ _ ↦ rfl) (by decide +kernel), by decide +kernel⟩

end Worlds

end HealingGateway.Worker
