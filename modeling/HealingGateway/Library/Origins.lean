import HealingGateway.Library.Redis

namespace Redis

/-- What can be read off a value: a text, or a field of a hash. -/
inductive Piece
  | text (s : String)
  | field (name text : String)

inductive Value.Shows : Value → Piece → Prop
  | text (s : String) : Value.Shows (.str s) (.text s)
  | field {raw : List (String × String)} {name text : String} (h : raw.lookup name = some text) :
      Value.Shows (.hash raw) (.field name text)

/-- A key shows this, expired or not. -/
def Stored (db : Db) (k : String) (x : Piece) : Prop := ∃ v t, db k = some ⟨v, t⟩ ∧ v.Shows x

/-- A command that may put this under a key. -/
inductive Puts (k : String) : Command → Piece → Prop
  | set (s : String) (nx : Bool) (ex : ℤ) : Puts k (.set k s nx ex) (.text s)
  | write {fields : List (String × String)} {name text : String} (h : (name, text) ∈ fields) :
      Puts k (.write (.hset k fields)) (.field name text)
  | pipeline {ws : List Write} {fields : List (String × String)} {name text : String}
      (hw : Write.hset k fields ∈ ws) (h : (name, text) ∈ fields) : Puts k (.pipeline ws) (.field name text)

variable {now : ℤ} {db : Db} {k s : String} {x : Piece}

theorem stored_update {k' : String} {e : Option Entry} (h : Stored (Function.update db k' e) k x) :
    Stored db k x ∨ k = k' ∧ ∃ v t, e = some ⟨v, t⟩ ∧ v.Shows x := by
  obtain ⟨v, t, hv, hx⟩ := h
  by_cases hk : k = k'
  · subst hk
    rw [Function.update_self] at hv
    exact .inr ⟨rfl, v, t, hv, hx⟩
  · rw [Function.update_of_ne hk] at hv
    exact .inl ⟨v, t, hv, hx⟩

theorem stored_of_live {v : Value} {t : Option ℤ} (h : live now db k = some ⟨v, t⟩) (hx : v.Shows x) :
    Stored db k x := ⟨v, t, (live_eq_some.mp h).1, hx⟩

theorem not_shows_zset {z : SortedSets.SortedSet ℤ String} : ¬ (Value.zset z).Shows x := by rintro ⟨⟩

theorem stored_execWrite {w : Write} (h : Stored (execWrite now w db).2 k x) :
    Stored db k x ∨ Puts k (.write w) x := by
  unfold execWrite at h
  split at h
  · next e happly =>
    obtain h | ⟨rfl, v, t, rfl, hx⟩ := stored_update h
    · exact .inl h
    · cases w with
      | hset key fields =>
        obtain ⟨old, t', heq, hold⟩ := apply_hset happly
        cases heq
        cases hx with
        | field hlookup =>
          next name text =>
          rcases Dicts.lookup_merge_cases old fields name with hl | ⟨text', hmem, hl⟩
          · rw [hl] at hlookup
            obtain ⟨-, rfl, -⟩ | hfound := hold
            · cases hlookup
            · exact .inl (stored_of_live hfound (.field hlookup))
          · rw [hl] at hlookup
            cases hlookup
            exact .inr (.write hmem)
      | zadd key m score =>
        obtain ⟨z, t', heq, -⟩ := apply_zadd happly
        cases heq
        exact absurd hx not_shows_zset
      | zremrangebyscore key max =>
        obtain ⟨z, t', -, heq⟩ := apply_zremrangebyscore happly rfl
        cases heq
        exact absurd hx not_shows_zset
      | expire key seconds =>
        obtain ⟨y, hfound, heq⟩ := apply_expire happly rfl
        cases heq
        exact .inl (stored_of_live hfound hx)
  · exact .inl h

theorem stored_execPipeline {ws : List Write} (h : Stored (execPipeline now ws db).2 k x) :
    Stored db k x ∨ Puts k (.pipeline ws) x := by
  induction ws generalizing db with
  | nil => exact .inl h
  | cons w ws ih =>
    rw [execPipeline_cons_snd] at h
    obtain h | hputs := ih h
    · obtain h | hputs := stored_execWrite h
      · exact .inl h
      · cases hputs with
        | write hmem => exact .inr (.pipeline (List.mem_cons_self ..) hmem)
    · cases hputs with
      | pipeline hw hmem => exact .inr (.pipeline (List.mem_cons_of_mem _ hw) hmem)

theorem stored_exec {c : Command} (h : Stored (exec now c db).2 k x) : Stored db k x ∨ Puts k c x := by
  cases c with
  | write w => exact stored_execWrite h
  | pipeline ws => exact stored_execPipeline h
  | delete key =>
    obtain h | ⟨-, v, t, heq, -⟩ := stored_update h
    · exact .inl h
    · cases heq
  | set key value nx ex =>
    simp only [exec] at h
    split at h
    · exact .inl h
    · split at h
      · exact .inl h
      · obtain h | ⟨rfl, v, t, heq, hx⟩ := stored_update h
        · exact .inl h
        · cases heq
          cases hx
          exact .inr (.set _ _ _)
  | zpopmin key =>
    simp only [exec, execZpopmin] at h
    split at h
    · exact .inl h
    · split at h
      · exact .inl h
      · obtain h | ⟨-, v, t, heq, hx⟩ := stored_update h
        · exact .inl h
        · cases eq_of_zsetEntry heq
          exact absurd hx not_shows_zset
    · exact .inl h
  | hgetall | get | zrangebyscore | zrange | zcard => exact .inl h

theorem stored_of_get (h : (exec now (.get k) db).1 = .ok (some s)) : Stored db k (.text s) := by
  simp only [exec] at h
  cases hl : live now db k with
  | none =>
    rw [hl] at h
    cases h
  | some e =>
    obtain ⟨v, t⟩ := e
    rw [hl] at h
    cases v with
    | str =>
      cases h
      exact stored_of_live hl (.text _)
    | hash | zset => cases h

end Redis
