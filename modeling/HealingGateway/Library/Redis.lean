import HealingGateway.Library.Dicts
import HealingGateway.Library.SortedSets
import Mathlib.Data.String.Basic
import Mathlib.Logic.Function.Basic

namespace Redis

open SortedSets

inductive Value
  | str (s : String)
  | hash (fields : List (String × String))
  | zset (z : SortedSet ℤ String)

/-- A stored value and the instant after which it is gone, in milliseconds. -/
structure Entry where
  value : Value
  expireAt : Option ℤ := none

abbrev Db := String → Option Entry

def Entry.expired (now : ℤ) (e : Entry) : Bool :=
  match e.expireAt with
  | none => false
  | some t => t < now

def live (now : ℤ) (db : Db) (key : String) : Option Entry :=
  (db key).filter (fun e ↦ !e.expired now)

inductive Error
  | wrongType
  | invalidExpire
  deriving DecidableEq

/-- The commands that change one key and whose reply nobody reads. -/
inductive Write
  | hset (key : String) (fields : List (String × String))
  | zadd (key member : String) (score : ℤ)
  | zremrangebyscore (key : String) (max : ℤ)
  | expire (key : String) (seconds : ℤ)

def Write.key : Write → String
  | hset key _ => key
  | zadd key _ _ => key
  | zremrangebyscore key _ => key
  | expire key _ => key

def zsetEntry (z : SortedSet ℤ String) (expireAt : Option ℤ) : Option Entry :=
  if z.items = [] then none else some ⟨.zset z, expireAt⟩

def Write.apply (now : ℤ) : Write → Option Entry → Except Error (Option Entry)
  | hset _ fields, none => .ok (some ⟨.hash (Dicts.merge [] fields), none⟩)
  | hset _ fields, some ⟨.hash old, t⟩ => .ok (some ⟨.hash (Dicts.merge old fields), t⟩)
  | hset .., some _ => .error .wrongType
  | zadd _ m s, none => .ok (some ⟨.zset (SortedSet.empty.add m s), none⟩)
  | zadd _ m s, some ⟨.zset z, t⟩ => .ok (some ⟨.zset (z.add m s), t⟩)
  | zadd .., some _ => .error .wrongType
  | zremrangebyscore .., none => .ok none
  | zremrangebyscore _ max, some ⟨.zset z, t⟩ =>
    .ok (zsetEntry (z.filter (fun i ↦ max < score i)) t)
  | zremrangebyscore .., some _ => .error .wrongType
  | expire .., none => .ok none
  | expire _ seconds, some e =>
    .ok (if seconds ≤ 0 then none else some { e with expireAt := some (now + seconds * 1000) })

inductive Command
  | write (w : Write)
  | pipeline (ws : List Write)
  | delete (key : String)
  | hgetall (key : String)
  | get (key : String)
  | set (key value : String) (nx : Bool) (ex : ℤ)
  | zrangebyscore (key : String) (above : ℤ)
  | zrange (key : String) (stop : ℤ)
  | zpopmin (key : String)
  | zcard (key : String)

@[reducible] def Reply : Command → Type
  | .write _ => Unit
  | .pipeline _ => Unit
  | .delete _ => Bool
  | .hgetall _ => List (String × String)
  | .get _ => Option String
  | .set .. => Bool
  | .zrangebyscore .. => List String
  | .zrange .. => List String
  | .zpopmin _ => Option (String × ℤ)
  | .zcard _ => ℕ

def Command.keys : Command → List String
  | .write w => [w.key]
  | .pipeline ws => ws.map Write.key
  | .delete key => [key]
  | .hgetall key => [key]
  | .get key => [key]
  | .set key .. => [key]
  | .zrangebyscore key _ => [key]
  | .zrange key _ => [key]
  | .zpopmin key => [key]
  | .zcard key => [key]

def execWrite (now : ℤ) (w : Write) (db : Db) : Except Error Unit × Db :=
  match w.apply now (live now db w.key) with
  | .ok e => (.ok (), Function.update db w.key e)
  | .error e => (.error e, db)

def execPipeline (now : ℤ) : List Write → Db → Except Error Unit × Db
  | [], db => (.ok (), db)
  | w :: ws, db =>
    let (r, db) := execWrite now w db
    let (rs, db) := execPipeline now ws db
    (r.bind (fun _ ↦ rs), db)

def asHash : Option Entry → Except Error (List (String × String))
  | none => .ok []
  | some ⟨.hash fields, _⟩ => .ok fields
  | some _ => .error .wrongType

def asString : Option Entry → Except Error (Option String)
  | none => .ok none
  | some ⟨.str s, _⟩ => .ok (some s)
  | some _ => .error .wrongType

def asZset : Option Entry → Except Error (SortedSet ℤ String)
  | none => .ok .empty
  | some ⟨.zset z, _⟩ => .ok z
  | some _ => .error .wrongType

def members (z : SortedSet ℤ String) : List String := z.items.map member

def upToRank (stop : ℤ) (z : SortedSet ℤ String) : List String :=
  (members z).take (if 0 ≤ stop then stop + 1 else z.items.length + stop + 1).toNat

def execZpopmin (now : ℤ) (key : String) (db : Db) :
    Except Error (Option (String × ℤ)) × Db :=
  match live now db key with
  | none => (.ok none, db)
  | some ⟨.zset z, t⟩ =>
    match z.popMin with
    | none => (.ok none, db)
    | some (i, rest) => (.ok (some (member i, score i)), Function.update db key (zsetEntry rest t))
  | some _ => (.error .wrongType, db)

def exec (now : ℤ) : (c : Command) → Db → Except Error (Reply c) × Db
  | .write w, db => execWrite now w db
  | .pipeline ws, db => execPipeline now ws db
  | .delete key, db => (.ok (live now db key).isSome, Function.update db key none)
  | .hgetall key, db => (asHash (live now db key), db)
  | .get key, db => (asString (live now db key), db)
  | .set key value nx ex, db =>
    if ex ≤ 0 then (.error .invalidExpire, db)
    else if nx = true ∧ (live now db key).isSome then (.ok false, db)
    else (.ok true, Function.update db key (some ⟨.str value, some (now + ex * 1000)⟩))
  | .zrangebyscore key above, db =>
    ((asZset (live now db key)).map (fun z ↦ members (z.filter (fun i ↦ above < score i))), db)
  | .zrange key stop, db => ((asZset (live now db key)).map (upToRank stop), db)
  | .zpopmin key, db => execZpopmin now key db
  | .zcard key, db => ((asZset (live now db key)).map (fun z ↦ z.items.length), db)

def Command.reads : Command → Bool
  | .hgetall _ | .get _ | .zrangebyscore .. | .zrange .. | .zcard _ => true
  | _ => false

theorem exec_of_reads {c : Command} (hc : c.reads = true) (now : ℤ) (db : Db) :
    (exec now c db).2 = db := by
  cases c <;> first | rfl | cases hc

theorem execWrite_ok {now : ℤ} {w : Write} {db : Db} {e : Option Entry}
    (h : w.apply now (live now db w.key) = .ok e) :
    execWrite now w db = (.ok (), Function.update db w.key e) := by
  rw [execWrite, h]

theorem execPipeline_cons_ok {now : ℤ} {w : Write} {db db' : Db}
    (h : execWrite now w db = (.ok (), db')) (ws : List Write) :
    execPipeline now (w :: ws) db = execPipeline now ws db' := by
  simp only [execPipeline, h]
  rfl

theorem execWrite_frame {w : Write} {k : String} (hk : k ≠ w.key) (now : ℤ) (db : Db) :
    (execWrite now w db).2 k = db k := by
  unfold execWrite
  split
  · exact Function.update_of_ne hk _ _
  · rfl

theorem execPipeline_frame {ws : List Write} {k : String} (hk : k ∉ ws.map Write.key) (now : ℤ)
    (db : Db) : (execPipeline now ws db).2 k = db k := by
  induction ws generalizing db with
  | nil => rfl
  | cons w ws ih =>
    simp only [List.map_cons, List.mem_cons, not_or] at hk
    exact (ih hk.2 _).trans (execWrite_frame hk.1 now db)

/-- A command changes no key but its own. -/
theorem exec_frame {c : Command} {k : String} (hk : k ∉ c.keys) (now : ℤ) (db : Db) :
    (exec now c db).2 k = db k := by
  cases c with
  | write w => exact execWrite_frame (by simpa [Command.keys] using hk) now db
  | pipeline ws => exact execPipeline_frame hk now db
  | delete key => exact Function.update_of_ne (by simpa [Command.keys] using hk) _ _
  | set key value nx ex =>
    have hne : k ≠ key := by simpa [Command.keys] using hk
    simp only [exec]
    split
    · rfl
    · split
      · rfl
      · exact Function.update_of_ne hne _ _
  | zpopmin key =>
    have hne : k ≠ key := by simpa [Command.keys] using hk
    simp only [exec, execZpopmin]
    split
    · rfl
    · split
      · rfl
      · exact Function.update_of_ne hne _ _
    · rfl
  | hgetall | get | zrangebyscore | zrange | zcard => rfl

theorem live_congr {db db' : Db} {key : String} (h : db key = db' key) (now : ℤ) :
    live now db key = live now db' key := by
  rw [live, live, h]

theorem live_of_none {db : Db} {key : String} (h : db key = none) (now : ℤ) :
    live now db key = none := by
  rw [live, h]
  rfl

@[simp] theorem live_update_self (now : ℤ) (db : Db) (key : String) (e : Option Entry) :
    live now (Function.update db key e) key = e.filter (fun e ↦ !e.expired now) := by
  simp [live]

theorem live_eq_some {now : ℤ} {db : Db} {key : String} {e : Entry} :
    live now db key = some e ↔ db key = some e ∧ e.expired now = false := by
  simp [live, Option.filter_eq_some_iff]

@[simp] theorem expired_none (now : ℤ) (v : Value) : (Entry.mk v none).expired now = false := rfl

def HashAt (db : Db) (key : String) (fields : List (String × String)) : Prop :=
  db key = none ∧ fields = [] ∨ db key = some ⟨.hash fields, none⟩

theorem HashAt.asHash {db : Db} {key : String} {fields : List (String × String)}
    (h : HashAt db key fields) (now : ℤ) : asHash (live now db key) = .ok fields := by
  rcases h with ⟨h, rfl⟩ | h
  · rw [live_of_none h]
    rfl
  · rw [live_eq_some.mpr ⟨h, rfl⟩]
    rfl

theorem HashAt.hset {db : Db} {key : String} {fields : List (String × String)}
    (h : HashAt db key fields) (now : ℤ) (new : List (String × String)) :
    exec now (.write (.hset key new)) db =
      (.ok (), Function.update db key (some ⟨.hash (Dicts.merge fields new), none⟩)) := by
  rcases h with ⟨h, rfl⟩ | h
  · simp only [exec, execWrite, Write.key, live_of_none h, Write.apply]
  · simp only [exec, execWrite, Write.key, live_eq_some.mpr ⟨h, rfl⟩, Write.apply]

theorem hashAt_update (db : Db) (key : String) (fields : List (String × String)) :
    HashAt (Function.update db key (some ⟨.hash fields, none⟩)) key fields :=
  .inr (Function.update_self _ _ _)

theorem HashAt.congr {db db' : Db} {key : String} {fields : List (String × String)}
    (h : HashAt db key fields) (hk : db' key = db key) : HashAt db' key fields := by
  rwa [HashAt, hk]

def ZsetAt (db : Db) (key : String) : Prop :=
  db key = none ∨ ∃ z t, db key = some ⟨.zset z, t⟩

theorem ZsetAt.asZset {db : Db} {key : String} (h : ZsetAt db key) (now : ℤ) :
    ∃ z, asZset (live now db key) = .ok z := by
  rcases h with h | ⟨z, t, h⟩
  · exact ⟨.empty, by rw [live_of_none h]; rfl⟩
  · by_cases he : (Entry.mk (.zset z) t).expired now = true
    · exact ⟨.empty, by simp only [live, h, Option.filter_some, he]; rfl⟩
    · exact ⟨z, by rw [live_eq_some.mpr ⟨h, by simpa using he⟩]; rfl⟩

theorem ZsetAt.cleared {db db' : Db} {key : String} (h : ZsetAt db key) {b : Bool}
    (hk : db' key = if b then none else db key) : ZsetAt db' key := by
  cases b with
  | true => exact .inl hk
  | false =>
    rw [if_neg (by simp)] at hk
    rwa [ZsetAt, hk]

theorem ZsetAt.congr {db db' : Db} {key : String} (h : ZsetAt db key) (hk : db' key = db key) :
    ZsetAt db' key := by
  rwa [ZsetAt, hk]

theorem zsetAt_update {db : Db} {key : String} {e : Option Entry}
    (he : e = none ∨ ∃ z t, e = some ⟨.zset z, t⟩) :
    ZsetAt (Function.update db key e) key := by
  rwa [ZsetAt, Function.update_self]

theorem ZsetAt.live {db : Db} {key : String} (h : ZsetAt db key) (now : ℤ) :
    live now db key = none ∨ ∃ z t, live now db key = some ⟨.zset z, t⟩ := by
  cases hl : Redis.live now db key with
  | none => exact .inl rfl
  | some e =>
    obtain ⟨hdb, -⟩ := live_eq_some.mp hl
    rcases h with h | ⟨z, t, h⟩
    · rw [h] at hdb
      cases hdb
    · rw [h] at hdb
      exact .inr ⟨z, t, hdb.symm⟩

theorem ZsetAt.zadd {db : Db} {key : String} (h : ZsetAt db key) (now : ℤ) (m : String) (s : ℤ) :
    ∃ z t, execWrite now (.zadd key m s) db =
      (.ok (), Function.update db key (some ⟨.zset z, t⟩)) := by
  rcases h.live now with h | ⟨z, t, h⟩
  · exact ⟨SortedSet.empty.add m s, none, execWrite_ok (by simp only [Write.key, h, Write.apply])⟩
  · exact ⟨z.add m s, t, execWrite_ok (by simp only [Write.key, h, Write.apply])⟩

theorem ZsetAt.zpopmin {db : Db} {key : String} (h : ZsetAt db key) (now : ℤ) :
    ∃ r e, exec now (.zpopmin key) db = (.ok r, Function.update db key e) ∧
      ZsetAt (Function.update db key e) key := by
  have hsame : Function.update db key (db key) = db := Function.update_eq_self key db
  rcases h.live now with hl | ⟨z, t, hl⟩
  · exact ⟨none, db key, by simp only [exec, execZpopmin, hl, hsame], by rwa [hsame]⟩
  · cases hz : z.popMin with
    | none => exact ⟨none, db key, by simp only [exec, execZpopmin, hl, hz, hsame], by rwa [hsame]⟩
    | some p =>
      refine ⟨some (member p.1, score p.1), zsetEntry p.2 t, ?_, zsetAt_update ?_⟩
      · simp only [exec, execZpopmin, hl, hz]
      · unfold zsetEntry
        split
        · exact .inl rfl
        · exact .inr ⟨_, _, rfl⟩

section Accepted

variable {now : ℤ} {db db' : Db} {k m : String} {s : ℤ}

theorem execWrite_cases (now : ℤ) (w : Write) (db : Db) :
    (∃ e, execWrite now w db = (.error e, db)) ∨ ∃ db', execWrite now w db = (.ok (), db') := by
  unfold execWrite
  split
  · exact .inr ⟨_, rfl⟩
  · exact .inl ⟨_, rfl⟩

theorem eq_of_execWrite {w : Write} (h : execWrite now w db = (.ok (), db')) :
    ∃ e, w.apply now (live now db w.key) = .ok e ∧ db' = Function.update db w.key e := by
  unfold execWrite at h
  split at h
  · next e he => exact ⟨e, he, (congrArg Prod.snd h).symm⟩
  · cases congrArg Prod.fst h

theorem eq_of_hset {fields : List (String × String)}
    (h : execWrite now (.hset k fields) db = (.ok (), db')) :
    ∃ old t, db' = Function.update db k (some ⟨.hash (Dicts.merge old fields), t⟩) ∧
      (old = [] ∨ db k = some ⟨.hash old, t⟩) := by
  obtain ⟨e, he, rfl⟩ := eq_of_execWrite h
  simp only [Write.key] at he
  cases hl : live now db k with
  | none =>
    rw [hl] at he
    obtain rfl := Except.ok.inj he
    exact ⟨_, _, rfl, .inl rfl⟩
  | some found =>
    obtain ⟨v, t⟩ := found
    rw [hl] at he
    cases v with
    | hash old =>
      obtain rfl := Except.ok.inj he
      exact ⟨_, _, rfl, .inr (live_eq_some.mp hl).1⟩
    | str | zset => cases he

theorem eq_of_expire {seconds : ℤ} (h : execWrite now (.expire k seconds) db = (.ok (), db')) :
    ∃ e, db' = Function.update db k e ∧
      (e = none ∨ ∃ v t t', e = some ⟨v, t⟩ ∧ db k = some ⟨v, t'⟩) := by
  obtain ⟨e, he, rfl⟩ := eq_of_execWrite h
  refine ⟨e, rfl, ?_⟩
  simp only [Write.key] at he
  cases hl : live now db k with
  | none =>
    rw [hl] at he
    obtain rfl := Except.ok.inj he
    exact .inl rfl
  | some found =>
    rw [hl] at he
    obtain rfl := Except.ok.inj he
    split
    · exact .inl rfl
    · exact .inr ⟨_, _, _, rfl, (live_eq_some.mp hl).1⟩

theorem execWrite_expire {v : Value} {t : Option ℤ} (h : live now db k = some ⟨v, t⟩) {seconds : ℤ}
    (hseconds : 0 < seconds) : execWrite now (.expire k seconds) db =
      (.ok (), Function.update db k (some ⟨v, some (now + seconds * 1000)⟩)) :=
  execWrite_ok (by simp only [Write.key, h, Write.apply, if_neg (not_le.mpr hseconds)])

theorem eq_of_zadd (h : execWrite now (.zadd k m s) db = (.ok (), db')) :
    ∃ z t, db' = Function.update db k (some ⟨.zset z, t⟩) ∧ z.Mem m := by
  obtain ⟨e, he, rfl⟩ := eq_of_execWrite h
  simp only [Write.key] at he
  generalize live now db k = found at he
  rcases found with _ | ⟨v, t⟩
  · obtain rfl := Except.ok.inj he
    exact ⟨_, _, rfl, (SortedSet.mem_add ..).mpr (.inl rfl)⟩
  · cases v with
    | zset z =>
      obtain rfl := Except.ok.inj he
      exact ⟨_, _, rfl, (SortedSet.mem_add ..).mpr (.inl rfl)⟩
    | str | hash => cases he

theorem eq_of_zpopmin (h : exec now (.zpopmin k) db = (.ok (some (m, s)), db')) :
    ∃ z t, db' = Function.update db k (zsetEntry z t) ∧ ¬ z.Mem m := by
  simp only [exec, execZpopmin] at h
  split at h
  · cases congrArg Prod.fst h
  · split at h
    · cases congrArg Prod.fst h
    · next i rest hpop =>
      have hfst := congrArg Prod.fst h
      simp only [Except.ok.injEq, Option.some.injEq, Prod.mk.injEq] at hfst
      obtain ⟨rfl, -⟩ := hfst
      exact ⟨rest, _, (congrArg Prod.snd h).symm, SortedSet.notMem_of_popMin hpop⟩
  · cases congrArg Prod.fst h

end Accepted

section Members

def Member (db : Db) (k m : String) : Prop := ∃ z t, db k = some ⟨.zset z, t⟩ ∧ z.Mem m

variable {now : ℤ} {db : Db} {k m m' : String} {s : ℤ}

theorem member_of_zadd (h : Member (execWrite now (.zadd k m s) db).2 k m') :
    m' = m ∨ Member db k m' := by
  rcases execWrite_cases now (.zadd k m s) db with ⟨e, hexec⟩ | ⟨db', hexec⟩
  · rw [hexec] at h
    exact .inr h
  · obtain ⟨e, he, hdb⟩ := eq_of_execWrite hexec
    obtain ⟨z, t, hz, hmem⟩ := h
    rw [hexec, hdb] at hz
    simp only [Write.key, Function.update_self] at he hz
    subst hz
    cases hl : live now db k with
    | none =>
      rw [hl] at he
      cases he
      rcases (SortedSet.mem_add ..).mp hmem with rfl | hold
      · exact .inl rfl
      · cases hold
    | some found =>
      obtain ⟨v, t'⟩ := found
      rw [hl] at he
      cases v with
      | zset old =>
        cases he
        rcases (SortedSet.mem_add ..).mp hmem with rfl | hold
        · exact .inl rfl
        · exact .inr ⟨old, _, (live_eq_some.mp hl).1, hold⟩
      | str | hash => cases he

theorem member_of_zpopmin (now : ℤ) (k : String) (db : Db) :
    (∀ m, Member (execZpopmin now k db).2 k m → Member db k m) ∧
      ∀ m s, (execZpopmin now k db).1 = .ok (some (m, s)) →
        Member db k m ∧ ¬ Member (execZpopmin now k db).2 k m := by
  unfold execZpopmin
  split
  · exact ⟨fun _ h ↦ h, by rintro m s ⟨⟩⟩
  · next z t hl =>
    split
    · exact ⟨fun _ h ↦ h, by rintro m s ⟨⟩⟩
    · next i rest hpop =>
      have hitems := SortedSet.items_of_popMin hpop
      have hdb := (live_eq_some.mp hl).1
      have hrest : ∀ m, Member (Function.update db k (zsetEntry rest t)) k m → rest.Mem m := by
        rintro m ⟨z', t', hz, hmem⟩
        rw [Function.update_self, zsetEntry] at hz
        split at hz
        · cases hz
        · cases hz
          exact hmem
      refine ⟨fun m h ↦ ⟨z, t, hdb, ?_⟩, ?_⟩
      · rw [SortedSet.Mem, hitems]
        exact List.mem_cons_of_mem _ (hrest m h)
      · rintro m s h
        simp only [Except.ok.injEq, Option.some.injEq, Prod.mk.injEq] at h
        obtain ⟨rfl, -⟩ := h
        refine ⟨⟨z, t, hdb, ?_⟩, fun h ↦ SortedSet.notMem_of_popMin hpop (hrest _ h)⟩
        rw [SortedSet.Mem, hitems]
        exact List.mem_cons_self ..
  · exact ⟨fun _ h ↦ h, by rintro m s ⟨⟩⟩

end Members

section Applied

variable {now : ℤ} {key : String} {found e : Option Entry}

theorem apply_hset {fields : List (String × String)}
    (h : (Write.hset key fields).apply now found = .ok e) :
    ∃ old t, e = some ⟨.hash (Dicts.merge old fields), t⟩ ∧
      (found = none ∧ old = [] ∧ t = none ∨ found = some ⟨.hash old, t⟩) := by
  rcases found with _ | ⟨v, t⟩
  · cases h
    exact ⟨[], none, rfl, .inl ⟨rfl, rfl, rfl⟩⟩
  · cases v with
    | hash old =>
      cases h
      exact ⟨old, t, rfl, .inr rfl⟩
    | str | zset => cases h

theorem apply_zadd {m : String} {s : ℤ} (h : (Write.zadd key m s).apply now found = .ok e) :
    ∃ z t, e = some ⟨.zset (z.add m s), t⟩ ∧
      (found = none ∧ z = .empty ∧ t = none ∨ found = some ⟨.zset z, t⟩) := by
  rcases found with _ | ⟨v, t⟩
  · cases h
    exact ⟨.empty, none, rfl, .inl ⟨rfl, rfl, rfl⟩⟩
  · cases v with
    | zset z =>
      cases h
      exact ⟨z, t, rfl, .inr rfl⟩
    | str | hash => cases h

theorem eq_of_zsetEntry {z : SortedSet ℤ String} {t : Option ℤ} {x : Entry}
    (h : zsetEntry z t = some x) : x = ⟨.zset z, t⟩ := by
  unfold zsetEntry at h
  split at h
  · cases h
  · exact (Option.some.inj h).symm

theorem apply_zremrangebyscore {max : ℤ} {x : Entry}
    (h : (Write.zremrangebyscore key max).apply now found = .ok e) (hx : e = some x) :
    ∃ z t, found = some ⟨.zset z, t⟩ ∧ x = ⟨.zset (z.filter (fun i ↦ max < score i)), t⟩ := by
  rcases found with _ | ⟨v, t⟩
  · cases h
    cases hx
  · cases v with
    | zset z =>
      obtain rfl := Except.ok.inj h
      exact ⟨z, t, rfl, eq_of_zsetEntry hx⟩
    | str | hash => cases h

theorem apply_expire {seconds : ℤ} {x : Entry}
    (h : (Write.expire key seconds).apply now found = .ok e) (hx : e = some x) :
    ∃ y, found = some y ∧ x = { y with expireAt := some (now + seconds * 1000) } := by
  rcases found with _ | y
  · cases h
    cases hx
  · obtain rfl := Except.ok.inj h
    split at hx
    · cases hx
    · exact ⟨y, rfl, (Option.some.inj hx).symm⟩

end Applied

section Kinds

inductive Kind
  | str
  | hash
  | zset

def Value.kind : Value → Kind
  | str _ => .str
  | hash _ => .hash
  | zset _ => .zset

def Write.kind : Write → Option Kind
  | hset .. => some .hash
  | zadd .. => some .zset
  | zremrangebyscore .. => some .zset
  | expire .. => none

variable {now : ℤ} {db : Db}

theorem execWrite_answered {w : Write}
    (h : ∀ e, live now db w.key = some e → ∀ k ∈ w.kind, e.value.kind = k) :
    (execWrite now w db).1 = .ok () := by
  have hfound : ∃ e, w.apply now (live now db w.key) = .ok e := by
    cases hl : live now db w.key with
    | none => cases w <;> exact ⟨_, rfl⟩
    | some found =>
      obtain ⟨v, t⟩ := found
      have hkind := h _ hl
      cases w with
      | expire => exact ⟨_, rfl⟩
      | hset | zadd | zremrangebyscore => cases v <;> first | exact ⟨_, rfl⟩ | cases hkind _ rfl
  obtain ⟨e, he⟩ := hfound
  rw [execWrite_ok he]

/-- What every write of a pipeline keeps, the pipeline keeps. -/
theorem execPipeline_rule {I : Db → Prop} {ws : List Write}
    (hstep : ∀ w ∈ ws, ∀ db, I db → I (execWrite now w db).2) (h : I db) :
    I (execPipeline now ws db).2 := by
  induction ws generalizing db with
  | nil => exact h
  | cons w ws ih =>
    exact ih (fun w' hw' ↦ hstep w' (List.mem_cons_of_mem _ hw')) (hstep w (List.mem_cons_self ..) db h)

theorem execPipeline_answered {I : Db → Prop} {ws : List Write}
    (hstep : ∀ w ∈ ws, ∀ db, I db → (execWrite now w db).1 = .ok () ∧ I (execWrite now w db).2)
    (h : I db) : (execPipeline now ws db).1 = .ok () ∧ I (execPipeline now ws db).2 := by
  induction ws generalizing db with
  | nil => exact ⟨rfl, h⟩
  | cons w ws ih =>
    obtain ⟨hw, hI⟩ := hstep w (List.mem_cons_self ..) db h
    obtain ⟨hws, hrest⟩ := ih (fun w' hw' ↦ hstep w' (List.mem_cons_of_mem _ hw')) hI
    refine ⟨?_, hrest⟩
    simp only [execPipeline, hw, hws]
    rfl

end Kinds

theorem execPipeline_cons_snd (now : ℤ) (w : Write) (ws : List Write) (db : Db) :
    (execPipeline now (w :: ws) db).2 = (execPipeline now ws (execWrite now w db).2).2 := rfl

end Redis
