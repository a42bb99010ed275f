import Mathlib.Data.List.Dedup
import HealingGateway.EarliestDue

namespace HealingGateway.Queue

open Programs Programs.Prog Redis SortedSets

/-- One job put into the dead-letter queue. -/
structure Burial where
  o : Outside
  job : Job
  error : String

def Burial.exec (b : Burial) (db : Db) : Db := ((deadLetter b.job b.error).run b.o.answers db).2

def buriedStore (history : List Burial) (db : Db) : Db :=
  history.foldl (fun db b ↦ b.exec db) db

def burialTime (history : List Burial) (id : String) : Option ℤ :=
  (history.reverse.find? (fun b ↦ b.job.id = id)).map (·.o.now)

/-- The dead-letter index is empty or a sorted set that does not expire, and under a job's key
there is a hash or nothing. -/
structure Graveyard (z : SortedSet ℤ String) (db : Db) : Prop where
  index : z.items = [] ∧ db dlq = none ∨ db dlq = some ⟨.zset z, none⟩
  hashes : ∀ id e, db (key id) = some e → ∃ raw t, e = ⟨.hash raw, t⟩ ∧ raw ≠ []

def survivors (o : Outside) (history : List Burial) (db : Db) : List String :=
  (history.map (·.job.id)).dedup.filter
    (fun id ↦ (live o.now (buriedStore history db) (key id)).isSome)

/-- The listing shows as many of the buried jobs that are still there as the limit lets
through, the oldest burial first. -/
def Lists (o : Outside) (limit : ℤ) (history : List Burial) (db : Db) : Prop :=
  ∃ ids jobs, (dead limit).run o.answers (buriedStore history db) =
      (.ok jobs, buriedStore history db) ∧
    List.Forall₂ (fun id job ↦ (get id).run o.answers (buriedStore history db) =
      (.ok (some job), buriedStore history db)) ids jobs ∧
    ids.Nodup ∧ ids ⊆ survivors o history db ∧
    ids.Pairwise (fun id id' ↦ ∀ s ∈ burialTime history id, ∀ s' ∈ burialTime history id', s ≤ s') ∧
    (ids.length : ℤ) = min limit (survivors o history db).length

def indexOf (db : Db) : List String :=
  match db dlq with
  | some ⟨.zset z, _⟩ => members z
  | _ => []

/-- No expired job is among the first `limit` of the index with one behind them that is still
there, and the records among the first that are still there can be read. -/
structure Unhidden (o : Outside) (limit : ℤ) (db : Db) : Prop where
  nonneg : 0 ≤ limit
  zero : limit = 0 → ∀ id ∈ indexOf db, live o.now db (key id) = none
  readable : 0 < limit → ∀ id ∈ (indexOf db).take limit.toNat, ∀ raw t,
    live o.now db (key id) = some ⟨.hash raw, t⟩ → ∃ job, readJob raw = .ok job
  behind : 0 < limit → (∀ id ∈ (indexOf db).take limit.toNat, live o.now db (key id) ≠ none) ∨
    ∀ id ∈ (indexOf db).drop limit.toNat, live o.now db (key id) = none

section Burials

variable {db : Db} {z : SortedSet ℤ String} {o : Outside}

theorem burialTime_append_singleton (history : List Burial) (b : Burial) (id : String) :
    burialTime (history ++ [b]) id =
      if b.job.id = id then some b.o.now else burialTime history id := by
  unfold burialTime
  rw [List.reverse_append, List.reverse_singleton, List.singleton_append, List.find?_cons]
  by_cases h : b.job.id = id <;> simp [h]

theorem Graveyard.run_update (h : Graveyard z db) (id : String) (now : ℤ)
    (fields : List (String × String)) :
    ∃ db', (update id now fields).run o.answers db = (.ok (), db') ∧ Graveyard z db' := by
  have hne : fields ++ [("updated_at_ms", Numerals.intString now)] ≠ [] := by simp
  have hwrite : ∃ raw t, execWrite o.now
      (.hset (key id) (fields ++ [("updated_at_ms", Numerals.intString now)])) db =
        (.ok (), Function.update db (key id) (some ⟨.hash raw, t⟩)) ∧ raw ≠ [] := by
    cases hl : live o.now db (key id) with
    | none =>
      refine ⟨_, none, execWrite_ok ?_, Dicts.merge_ne_nil (d := []) hne⟩
      simp only [Write.key, hl, Write.apply]
    | some e =>
      obtain ⟨raw, t, rfl, -⟩ := h.hashes id e (live_eq_some.mp hl).1
      refine ⟨_, t, execWrite_ok ?_, Dicts.merge_ne_nil (d := raw) hne⟩
      simp only [Write.key, hl, Write.apply]
  obtain ⟨raw, t, hexec, hraw⟩ := hwrite
  refine ⟨Function.update db (key id) (some ⟨.hash raw, t⟩), ?_, ?_, fun id' e he ↦ ?_⟩
  · rw [update, run_redis]
    exact Outside.answers_redis hexec
  · rw [Function.update_of_ne (key_ne_dlq id).symm]
    exact h.index
  · by_cases hid : key id' = key id
    · rw [hid, Function.update_self] at he
      exact ⟨raw, t, (Option.some.inj he).symm, hraw⟩
    · rw [Function.update_of_ne hid] at he
      exact h.hashes id' e he

theorem Graveyard.run_zadd (h : Graveyard z db) (m : String) (s : ℤ) :
    ∃ db', (redis (.write (.zadd dlq m s))).run o.answers db = (.ok (), db') ∧
      Graveyard (z.add m s) db' := by
  have hexec : execWrite o.now (.zadd dlq m s) db =
      (.ok (), Function.update db dlq (some ⟨.zset (z.add m s), none⟩)) := by
    refine execWrite_ok ?_
    rcases h.index with ⟨hnil, hdb⟩ | hdb
    · rw [Write.key, live_of_none hdb, SortedSet.eq_empty hnil]
      rfl
    · rw [Write.key, live_eq_some.mpr ⟨hdb, expired_none _ _⟩]
      rfl
  refine ⟨Function.update db dlq (some ⟨.zset (z.add m s), none⟩), ?_,
    .inr (Function.update_self ..), fun id e he ↦ ?_⟩
  · rw [run_redis]
    exact Outside.answers_redis hexec
  · rw [Function.update_of_ne (key_ne_dlq id)] at he
    exact h.hashes id e he

theorem Graveyard.exec (h : Graveyard z db) (b : Burial) :
    Graveyard (z.add b.job.id b.o.now) (b.exec db) := by
  obtain ⟨db₁, hupdate, h₁⟩ := h.run_update (o := b.o) b.job.id b.o.now
    [("status", Status.dead.value), ("error", b.error)]
  obtain ⟨db₂, hzadd, h₂⟩ := h₁.run_zadd (o := b.o) b.job.id b.o.now
  rw [Burial.exec, deadLetter, run_bind_ok _ (b.o.run_nowMs db), run_bind_ok _ hupdate, hzadd]
  exact h₂

theorem graveyard_buriedStore (h : Graveyard .empty db) (history : List Burial) :
    ∃ z, Graveyard z (buriedStore history db) ∧
      ∀ i, i ∈ z.items ↔ burialTime history (member i) = some (score i) := by
  induction history using List.reverseRec with
  | nil => exact ⟨.empty, h, fun i ↦ by simp [burialTime]⟩
  | append_singleton history b ih =>
    obtain ⟨z, hz, htimes⟩ := ih
    refine ⟨z.add b.job.id b.o.now, ?_, fun i ↦ ?_⟩
    · rw [buriedStore, List.foldl_append]
      exact hz.exec b
    · rw [(SortedSet.items_add_perm _ _ z).mem_iff, burialTime_append_singleton, List.mem_cons,
        List.mem_filter, htimes i, decide_eq_true_eq]
      by_cases hi : b.job.id = member i
      · rw [if_pos hi]
        constructor
        · rintro (rfl | ⟨-, hne⟩)
          · rfl
          · exact absurd hi.symm hne
        · intro hs
          exact .inl (Prod.ext (Option.some.inj hs).symm hi.symm)
      · rw [if_neg hi]
        constructor
        · rintro (rfl | ⟨ht, -⟩)
          · exact absurd rfl hi
          · exact ht
        · exact fun ht ↦ .inr ⟨ht, Ne.symm hi⟩

end Burials

section Slices

variable {α β ε : Type}

/-- A slice holds as many of the elements that count as it can exactly when all of it counts
or nothing behind it does. -/
theorem length_filter_take_iff (p : α → Bool) (n : ℕ) (l : List α) :
    ((l.take n).filter p).length = min n (l.filter p).length ↔
      (∀ a ∈ l.take n, p a = true) ∨ ∀ a ∈ l.drop n, p a = false := by
  have hsplit : (l.filter p).length = ((l.take n).filter p).length + ((l.drop n).filter p).length := by
    rw [← List.length_append, ← List.filter_append, List.take_append_drop]
  have hle : ((l.take n).filter p).length ≤ (l.take n).length := List.length_filter_le ..
  have hall : ((l.take n).filter p).length = (l.take n).length ↔ ∀ a ∈ l.take n, p a = true :=
    List.length_filter_eq_length_iff
  have hnone : ((l.drop n).filter p).length = 0 ↔ ∀ a ∈ l.drop n, p a = false := by
    rw [List.length_eq_zero_iff, List.filter_eq_nil_iff]
    simp
  have htake : (l.take n).length = min n l.length := List.length_take ..
  have hdrop : (l.drop n).length = l.length - n := List.length_drop ..
  have hdropped : ((l.drop n).filter p).length ≤ (l.drop n).length := List.length_filter_le ..
  rw [← hall, ← hnone]
  omega

theorem mapM_eq_ok_iff {f : α → Except ε β} {as : List α} {bs : List β} :
    as.mapM f = .ok bs ↔ List.Forall₂ (fun a b ↦ f a = .ok b) as bs := by
  induction as generalizing bs with
  | nil =>
    rw [List.mapM_nil, List.forall₂_nil_left_iff]
    exact ⟨fun h ↦ (Except.ok.inj h).symm, fun h ↦ by rw [h]; rfl⟩
  | cons a as ih =>
    rw [List.mapM_cons]
    constructor
    · intro h
      cases hb : f a with
      | error e => rw [hb] at h; cases h
      | ok b =>
        cases hbs : as.mapM f with
        | error e => rw [hb, hbs] at h; cases h
        | ok bs' =>
          rw [hb, hbs] at h
          cases h
          exact .cons hb (ih.mp hbs)
    · rintro (_ | ⟨hb, hbs⟩)
      rw [hb, ih.mpr hbs]
      rfl

theorem exists_mapM_eq_ok {f : α → Except ε β} {as : List α} (h : ∀ a ∈ as, ∃ b, f a = .ok b) :
    ∃ bs, as.mapM f = .ok bs := by
  induction as with
  | nil => exact ⟨[], rfl⟩
  | cons a as ih =>
    obtain ⟨b, hb⟩ := h a List.mem_cons_self
    obtain ⟨bs, hbs⟩ := ih (fun a' ha' ↦ h a' (List.mem_cons_of_mem _ ha'))
    exact ⟨b :: bs, mapM_eq_ok_iff.mpr (.cons hb (mapM_eq_ok_iff.mp hbs))⟩

theorem forall₂_filterMap {f : α → Except ε (Option β)} {p : α → Bool} {as : List α}
    {bs : List (Option β)} (h : List.Forall₂ (fun a b ↦ f a = .ok b) as bs)
    (hp : ∀ a ∈ as, p a = false ↔ f a = .ok none) :
    List.Forall₂ (fun a b ↦ f a = .ok (some b)) (as.filter p) (bs.filterMap id) := by
  induction h with
  | nil => exact .nil
  | @cons a b as bs hab _ ih =>
    have ih := ih (fun a' ha' ↦ hp a' (List.mem_cons_of_mem _ ha'))
    have ha := hp a List.mem_cons_self
    cases b with
    | none =>
      rw [List.filter_cons, ha.mpr hab]
      exact ih
    | some b =>
      have hpa : p a = true := by
        by_contra hn
        rw [Bool.not_eq_true] at hn
        rw [ha.mp hn] at hab
        cases hab
      rw [List.filter_cons, hpa]
      exact .cons hab ih

end Slices

section Listings

variable {db : Db} {z : SortedSet ℤ String} {o : Outside}

def reads (o : Outside) (db : Db) (id : String) : Except Exn (Option Job) :=
  ((get id).run o.answers db).1

theorem run_get (o : Outside) (db : Db) (id : String) :
    (get id).run o.answers db = (reads o db id, db) :=
  Prod.ext rfl (by rw [run_get_eq])

theorem run_getAll (o : Outside) (db : Db) (ids : List String) :
    (getAll ids).run o.answers db = (ids.mapM (reads o db), db) := by
  induction ids with
  | nil => rfl
  | cons id ids ih =>
    rw [getAll, List.mapM_cons]
    cases hid : reads o db id with
    | error e =>
      rw [run_bind, run_get, hid]
      rfl
    | ok job =>
      rw [run_bind_ok _ ((run_get o db id).trans (by rw [hid])), run_bind, ih]
      cases ids.mapM (reads o db) <;> rfl

theorem Graveyard.indexOf_eq (h : Graveyard z db) : indexOf db = members z := by
  unfold indexOf
  rcases h.index with ⟨hnil, hdb⟩ | hdb
  · rw [hdb, members, hnil]
    rfl
  · rw [hdb]

theorem Graveyard.run_dead (h : Graveyard z db) (limit : ℤ) :
    (dead limit).run o.answers db =
      ((((indexOf db).take
        (if 0 < limit then limit else (indexOf db).length + limit).toNat).mapM (reads o db)).map
          (List.filterMap id), db) := by
  have hexec : Redis.exec o.now (.zrange dlq (limit - 1)) db = (.ok ((indexOf db).take
      (if 0 < limit then limit else (indexOf db).length + limit).toNat), db) := by
    have hslice : upToRank (limit - 1) z = (indexOf db).take
        (if 0 < limit then limit else (indexOf db).length + limit).toNat := by
      have hlength : ((indexOf db).length : ℤ) = z.items.length := by
        rw [h.indexOf_eq, members, List.length_map]
      rw [upToRank, hlength, h.indexOf_eq]
      congr 2
      split <;> split <;> omega
    rcases h.index with ⟨hnil, hdb⟩ | hdb
    · rw [← hslice, SortedSet.eq_empty hnil]
      simp only [Redis.exec, live_of_none hdb]
      rfl
    · rw [← hslice]
      simp only [Redis.exec, live_eq_some.mpr ⟨hdb, expired_none _ _⟩]
      rfl
  rw [dead, run_redis_bind _ (Outside.answers_redis hexec), run_bind, run_getAll]
  cases ((indexOf db).take _).mapM (reads o db) <;> rfl

theorem Graveyard.reads_eq_none_iff (h : Graveyard z db) (id : String) :
    (live o.now db (key id)).isSome = false ↔ reads o db id = .ok none := by
  rw [reads, run_get_eq]
  cases hl : live o.now db (key id) with
  | none => exact ⟨fun _ ↦ rfl, fun _ ↦ rfl⟩
  | some e =>
    obtain ⟨raw, t, rfl, hne⟩ := h.hashes id e (live_eq_some.mp hl).1
    obtain ⟨f, fs, rfl⟩ := List.exists_cons_of_ne_nil hne
    simp only [asHash, Except.mapError, Except.bind, Option.isSome_some, Bool.true_eq_false,
      false_iff, jobOf]
    cases readJob (f :: fs) <;> rintro ⟨⟩

theorem Graveyard.reads_eq (h : Graveyard z db) {id : String} {raw : List (String × String)}
    {t : Option ℤ} (hl : live o.now db (key id) = some ⟨.hash raw, t⟩) :
    reads o db id = (readJob raw).map some := by
  obtain ⟨raw', t', he, hne⟩ := h.hashes id _ (live_eq_some.mp hl).1
  cases he
  obtain ⟨f, fs, rfl⟩ := List.exists_cons_of_ne_nil hne
  rw [reads, run_get_eq, hl]
  rfl

variable {history : List Burial}

theorem burialTime_eq_none_iff (history : List Burial) (id : String) :
    burialTime history id = none ↔ id ∉ history.map (·.job.id) := by
  simp only [burialTime, Option.map_eq_none_iff, List.find?_eq_none, List.mem_reverse,
    decide_eq_true_eq, List.mem_map, not_exists, not_and]

/-- The index holds the buried jobs, each of them once, in the order of their burials. -/
theorem Graveyard.indexOf (h : Graveyard .empty db) (history : List Burial) :
    (∀ id, id ∈ Queue.indexOf (buriedStore history db) ↔ id ∈ history.map (·.job.id)) ∧
      (Queue.indexOf (buriedStore history db)).Nodup ∧
      (Queue.indexOf (buriedStore history db)).Pairwise (fun id id' ↦
        ∀ s ∈ burialTime history id, ∀ s' ∈ burialTime history id', s ≤ s') := by
  obtain ⟨z, hz, htimes⟩ := graveyard_buriedStore h history
  rw [hz.indexOf_eq]
  refine ⟨fun id ↦ ?_, z.unique, ?_⟩
  · rw [← not_iff_not, ← burialTime_eq_none_iff, Option.eq_none_iff_forall_ne_some]
    constructor
    · intro hid s hs
      exact hid (List.mem_map.mpr ⟨toLex (s, id), (htimes _).mpr hs, rfl⟩)
    · rintro hid hmem
      obtain ⟨i, hi, rfl⟩ := List.mem_map.mp hmem
      exact hid _ ((htimes i).mp hi)
  · rw [members, List.pairwise_map]
    refine z.sorted.imp_of_mem (fun {i j} hi hj hle s hs s' hs' ↦ ?_)
    rw [(htimes i).mp hi] at hs
    rw [(htimes j).mp hj] at hs'
    obtain rfl := Option.some.inj hs
    obtain rfl := Option.some.inj hs'
    exact Prod.Lex.monotone_fst _ _ hle

theorem Graveyard.survivors_perm (h : Graveyard .empty db) (history : List Burial) (o : Outside) :
    (survivors o history db).Perm ((Queue.indexOf (buriedStore history db)).filter
      (fun id ↦ (live o.now (buriedStore history db) (key id)).isSome)) := by
  obtain ⟨hmem, hnodup, -⟩ := h.indexOf history
  refine List.Perm.filter _ ((List.perm_ext_iff_of_nodup (List.nodup_dedup _) hnodup).mpr
    (fun id ↦ ?_))
  rw [List.mem_dedup, hmem]

theorem Graveyard.run_dead_ok (h : Graveyard z db) {limit : ℤ} {jobs : List Job}
    (hdead : (dead limit).run o.answers db = (.ok jobs, db)) :
    ∃ slice, slice = (Queue.indexOf db).take
        (if 0 < limit then limit else (Queue.indexOf db).length + limit).toNat ∧
      (∀ id ∈ slice, ∃ job?, reads o db id = .ok job?) ∧
      jobs.length = (slice.filter (fun id ↦ (live o.now db (key id)).isSome)).length := by
  rw [h.run_dead] at hdead
  refine ⟨_, rfl, ?_⟩
  generalize (Queue.indexOf db).take _ = slice at hdead ⊢
  cases hslice : slice.mapM (reads o db) with
  | error e => rw [hslice] at hdead; cases hdead
  | ok bs =>
    rw [hslice] at hdead
    cases hdead
    have hread := mapM_eq_ok_iff.mp hslice
    have hlisted := forall₂_filterMap hread (fun id _ ↦ h.reads_eq_none_iff id)
    refine ⟨fun id hid ↦ ?_, hlisted.length_eq.symm⟩
    obtain ⟨i, hi, rfl⟩ := List.mem_iff_getElem.mp hid
    exact ⟨_, hread.get hi (hread.length_eq ▸ hi)⟩

/-- Where the listing is right, nothing it should show is hidden from it. -/
theorem Graveyard.unhidden_of_lists (h : Graveyard .empty db) {limit : ℤ}
    (hlists : Lists o limit history db) : Unhidden o limit (buriedStore history db) := by
  obtain ⟨z, hz, -⟩ := graveyard_buriedStore h history
  have hlength := (h.survivors_perm history o).length_eq
  obtain ⟨ids, jobs, hdead, hget, -, -, -, hcount⟩ := hlists
  rw [hlength] at hcount
  generalize buriedStore history db = db' at *
  obtain ⟨slice, hslice, hread, hjobs⟩ := hz.run_dead_ok hdead
  rw [hget.length_eq, hjobs] at hcount
  refine ⟨by omega, fun hzero id hid ↦ ?_, fun hpos id hid raw t hl ↦ ?_, fun hpos ↦ ?_⟩
  · rw [hzero, if_neg (lt_irrefl _), add_zero, Int.toNat_natCast, List.take_length] at hslice
    have hgone : (slice.filter (fun id ↦ (live o.now db' (key id)).isSome)).length = 0 := by
      omega
    rw [List.length_eq_zero_iff, List.filter_eq_nil_iff] at hgone
    simpa using hgone id (hslice ▸ hid)
  · rw [if_pos hpos] at hslice
    obtain ⟨job?, hjob⟩ := hread id (hslice ▸ hid)
    rw [hz.reads_eq hl] at hjob
    cases hraw : readJob raw with
    | error e => rw [hraw] at hjob; cases hjob
    | ok job => exact ⟨job, rfl⟩
  · rw [if_pos hpos] at hslice
    have hall := (length_filter_take_iff (fun id ↦ (live o.now db' (key id)).isSome)
      limit.toNat (Queue.indexOf db')).mp (by rw [← hslice]; omega)
    simpa [Option.isSome_iff_ne_none] using hall

theorem Unhidden.reads_ok {limit : ℤ} (h : Unhidden o limit db) (hz : Graveyard z db) {id : String}
    (hid : id ∈ (indexOf db).take
      (if 0 < limit then limit else (indexOf db).length + limit).toNat) :
    ∃ job?, reads o db id = .ok job? := by
  cases hl : live o.now db (key id) with
  | none => exact ⟨none, (hz.reads_eq_none_iff id).mp (by rw [hl]; rfl)⟩
  | some e =>
    obtain ⟨raw, t, rfl, -⟩ := hz.hashes id e (live_eq_some.mp hl).1
    rcases h.nonneg.lt_or_eq with hpos | hzero
    · rw [if_pos hpos] at hid
      obtain ⟨job, hjob⟩ := h.readable hpos id hid raw t hl
      exact ⟨some job, by rw [hz.reads_eq hl, hjob]; rfl⟩
    · rw [h.zero hzero.symm id (List.mem_of_mem_take hid)] at hl
      cases hl

theorem Unhidden.length_slice {limit : ℤ} (h : Unhidden o limit db) :
    ((((indexOf db).take (if 0 < limit then limit else (indexOf db).length + limit).toNat).filter
      (fun id ↦ (live o.now db (key id)).isSome)).length : ℤ) =
      min limit ((indexOf db).filter (fun id ↦ (live o.now db (key id)).isSome)).length := by
  rcases h.nonneg.lt_or_eq with hpos | hzero
  · have hbehind := h.behind hpos
    have hcount := (length_filter_take_iff (fun id ↦ (live o.now db (key id)).isSome)
      limit.toNat (indexOf db)).mpr (by simpa [Option.isSome_iff_ne_none] using hbehind)
    rw [if_pos hpos]
    omega
  · have hnil : ∀ ids : List String, ids ⊆ indexOf db →
        ids.filter (fun id ↦ (live o.now db (key id)).isSome) = [] := by
      refine fun ids hids ↦ List.filter_eq_nil_iff.mpr (fun id hid ↦ ?_)
      rw [h.zero hzero.symm id (hids hid)]
      exact Bool.false_ne_true
    rw [hnil _ (List.take_subset _ _), hnil _ (List.Subset.refl _), List.length_nil]
    omega

theorem Graveyard.lists_of_unhidden (h : Graveyard .empty db) {limit : ℤ}
    (hu : Unhidden o limit (buriedStore history db)) : Lists o limit history db := by
  obtain ⟨z, hz, -⟩ := graveyard_buriedStore h history
  obtain ⟨-, hnodup, hordered⟩ := h.indexOf history
  have hsurvivors := h.survivors_perm history o
  have hcount := hu.length_slice
  rw [← hsurvivors.length_eq] at hcount
  unfold Lists
  generalize buriedStore history db = db' at *
  obtain ⟨slice, hslice⟩ : ∃ slice, slice = (Queue.indexOf db').take
      (if 0 < limit then limit else (Queue.indexOf db').length + limit).toNat := ⟨_, rfl⟩
  rw [← hslice] at hcount
  have hread : ∀ id ∈ slice, ∃ job?, reads o db' id = .ok job? :=
    fun id hid ↦ hu.reads_ok hz (by rwa [hslice] at hid)
  obtain ⟨bs, hbs⟩ := exists_mapM_eq_ok hread
  have hlisted := forall₂_filterMap (mapM_eq_ok_iff.mp hbs)
    (fun id _ ↦ hz.reads_eq_none_iff (o := o) id)
  have hsub : (slice.filter (fun id ↦ (live o.now db' (key id)).isSome)).Sublist
      ((Queue.indexOf db').filter (fun id ↦ (live o.now db' (key id)).isSome)) := by
    rw [hslice]
    exact (List.take_sublist _ _).filter _
  have hindex := hsub.trans List.filter_sublist
  refine ⟨_, bs.filterMap id, ?_, ?_, hnodup.sublist hindex, ?_, hordered.sublist hindex, hcount⟩
  · rw [hz.run_dead, ← hslice, hbs]
    rfl
  · exact hlisted.imp (fun id job hjob ↦ by rw [run_get, hjob])
  · exact fun id hid ↦ hsurvivors.mem_iff.mpr (hsub.subset hid)

end Listings

/-- The listing is right exactly when nothing that has expired hides a job behind it, nothing
it reads is broken, and the limit is no edge case. -/
theorem lists_iff {db : Db} (h : Graveyard .empty db) (history : List Burial) (o : Outside)
    (limit : ℤ) : Lists o limit history db ↔ Unhidden o limit (buriedStore history db) :=
  ⟨h.unhidden_of_lists, h.lists_of_unhidden⟩

def twoBurials : List Burial :=
  [{ o := { now := 20000 }, job := digest, error := "late" },
    { o := { now := 21000 }, job := { digest with id := (Uuid.numbered 1).hex }, error := "late" }]

theorem graveyard_twoJobs : Graveyard .empty twoJobs := by
  have hempty : (twoJobs dlq).isNone = true := by decide +kernel
  refine ⟨.inl ⟨rfl, Option.isNone_iff_eq_none.mp hempty⟩, fun id e he ↦ ?_⟩
  obtain ⟨raw, t, rfl, hraw⟩ := queueState_twoJobs.kept.jobs id e he
  refine ⟨raw, t, rfl, ?_⟩
  rintro rfl
  obtain ⟨job, hjob⟩ := readJob_of_readable hraw
  cases hjob

/-- While both hashes are there, both jobs are listed. -/
theorem lists_iff_twoBurials : Lists { now := 30000 } 100 twoBurials twoJobs := by
  refine (lists_iff graveyard_twoJobs twoBurials { now := 30000 } 100).mpr ?_
  have hread : (indexOf (buriedStore twoBurials twoJobs)).all (fun id ↦
      (asHash (live 30000 (buriedStore twoBurials twoJobs) (key id))).toOption.any
        (fun raw ↦ (readJob raw).isOk)) = true := by decide +kernel
  rw [List.all_eq_true] at hread
  refine ⟨by decide, by decide, fun _ id hid raw t hl ↦ ?_, fun _ ↦ .inl (fun id hid hl ↦ ?_)⟩
  · have hid := hread id (List.mem_of_mem_take hid)
    rw [hl] at hid
    change (readJob raw).isOk = true at hid
    cases hraw : readJob raw with
    | error e => rw [hraw] at hid; cases hid
    | ok job => exact ⟨job, rfl⟩
  · have hid := hread id (List.mem_of_mem_take hid)
    rw [hl] at hid
    cases hid

/-- Five seconds after the first buried job's hash has expired the second is still there, and
a listing of one shows nothing. -/
theorem twoBurials_not_lists :
    Graveyard .empty twoJobs ∧ ¬ Lists { now := 86405000 } 1 twoBurials twoJobs := by
  refine ⟨graveyard_twoJobs, ?_⟩
  rintro ⟨ids, jobs, hdead, hget, -, -, -, hcount⟩
  have hnothing : ((dead 1).run (Outside.answers { now := 86405000 })
      (buriedStore twoBurials twoJobs)).1.toOption.map List.length = some 0 := by decide +kernel
  have hone : (survivors { now := 86405000 } twoBurials twoJobs).length = 1 := by decide +kernel
  rw [hdead] at hnothing
  have hjobs : jobs.length = 0 := by simpa [Except.toOption] using hnothing
  rw [hget.length_eq, hjobs, hone] at hcount
  exact absurd hcount (by decide)

end HealingGateway.Queue
