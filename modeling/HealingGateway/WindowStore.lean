import HealingGateway.Outside
import HealingGateway.Window

namespace HealingGateway.Health

open Programs Programs.Prog SortedSets Redis

theorem perm_map_iff {α β : Type} {f : α → β} {l : List β} {l' : List α} :
    l.Perm (l'.map f) ↔ ∃ l'' : List α, l = l''.map f ∧ l''.Perm l' := by
  have h := congrFun (congrFun (List.eq_map_comp_perm f) l) l'
  exact (iff_of_eq h).symm

/-- From `now` on, the stored window shows exactly the logged calls that it covers. -/
def WindowHolds (window now : ℤ) (provider : String) (log : List Sample) (db : Db) : Prop :=
  ∀ t ≥ now, ∃ z, asZset (live t db (key provider)) = .ok z ∧
    (z.items.filter (fun i ↦ decide (t - window < score i))).Perm
      ((log.filter (fun s ↦ decide (t - window < s.recordedAt))).map Sample.item)

theorem windowHolds_of_none {db : Db} {provider : String} (h : db (key provider) = none)
    (window now : ℤ) : WindowHolds window now provider [] db := by
  intro t _
  exact ⟨.empty, by rw [live_of_none h]; rfl, by simp⟩

theorem WindowHolds.congr {window now : ℤ} {provider : String} {log : List Sample} {db db' : Db}
    (h : WindowHolds window now provider log db) (hk : db' (key provider) = db (key provider)) :
    WindowHolds window now provider log db' := by
  intro t ht
  rw [live_congr hk]
  exact h t ht

theorem WindowHolds.mono {window now now' : ℤ} {provider : String} {log : List Sample} {db : Db}
    (h : WindowHolds window now provider log db) (hn : now ≤ now') :
    WindowHolds window now' provider log db :=
  fun t ht ↦ h t (hn.trans ht)

def recordedEntry (window : ℤ) (s : Sample) (z : SortedSet ℤ String) : Option Entry :=
  let z' := (z.add s.text s.recordedAt).filter (fun i ↦ decide (s.recordedAt - window < score i))
  if z'.items = [] ∨ window / 1000 * 2 ≤ 0 then none
  else some ⟨.zset z', some (s.recordedAt + window / 1000 * 2 * 1000)⟩

theorem exec_recordWrites {db : Db} {provider : String} {s : Sample} {z : SortedSet ℤ String}
    (window : ℤ) (hz : asZset (live s.recordedAt db (key provider)) = .ok z) :
    ∃ db', exec s.recordedAt (.pipeline (recordWrites provider s.text s.recordedAt window)) db =
        (.ok (), db') ∧ db' (key provider) = recordedEntry window s z := by
  obtain ⟨t, ht, hadd⟩ : ∃ t,
      (Entry.mk (.zset (z.add s.text s.recordedAt)) t).expired s.recordedAt = false ∧
      (Write.zadd (key provider) s.text s.recordedAt).apply s.recordedAt
        (live s.recordedAt db (key provider)) =
          .ok (some ⟨.zset (z.add s.text s.recordedAt), t⟩) := by
    rcases hl : live s.recordedAt db (key provider) with _ | ⟨v, t⟩
    · rw [hl] at hz
      cases hz
      exact ⟨none, rfl, rfl⟩
    · rw [hl] at hz
      cases v with
      | zset z' =>
        cases hz
        exact ⟨t, (live_eq_some.mp hl).2, rfl⟩
      | str => cases hz
      | hash => cases hz
  simp only [exec, recordWrites, execPipeline_cons_ok (execWrite_ok hadd), Write.key]
  have hevict : (Write.zremrangebyscore (key provider) (s.recordedAt - window)).apply s.recordedAt
      (live s.recordedAt (Function.update db (key provider)
        (some ⟨.zset (z.add s.text s.recordedAt), t⟩)) (key provider)) =
      .ok (zsetEntry ((z.add s.text s.recordedAt).filter
        (fun i ↦ decide (s.recordedAt - window < score i))) t) := by
    rw [live_update_self, Option.filter_some, ht]
    rfl
  simp only [execPipeline_cons_ok (execWrite_ok hevict), Write.key]
  generalize hz' : (z.add s.text s.recordedAt).filter
    (fun i ↦ decide (s.recordedAt - window < score i)) = z'
  have hexpire : (Write.expire (key provider) (window / 1000 * 2)).apply s.recordedAt
      (live s.recordedAt (Function.update (Function.update db (key provider)
        (some ⟨.zset (z.add s.text s.recordedAt), t⟩)) (key provider) (zsetEntry z' t))
        (key provider)) = .ok (recordedEntry window s z) := by
    have ht' : (Entry.mk (.zset z') t).expired s.recordedAt = false := ht
    simp only [live_update_self, recordedEntry, zsetEntry, hz']
    by_cases he : z'.items = []
    · simp only [he, if_true, true_or, Option.filter_none]
      rfl
    · by_cases hs : window / 1000 * 2 ≤ 0
      · simp only [he, hs, if_false, or_true, if_true, Option.filter_some, ht', Bool.not_false,
          Write.apply]
      · simp only [he, hs, if_false, or_self, if_true, Option.filter_some, ht', Bool.not_false,
          Write.apply]
  rw [execPipeline_cons_ok (execWrite_ok hexpire)]
  exact ⟨_, rfl, Function.update_self _ _ _⟩

section Recording

variable {window now : ℤ} {provider : String} {log : List Sample} {s : Sample}
  {z : SortedSet ℤ String}

theorem add_perm
    (hz : (z.items.filter (fun i ↦ decide (s.recordedAt - window < score i))).Perm
      ((log.filter (fun c ↦ decide (s.recordedAt - window < c.recordedAt))).map Sample.item))
    (hnew : ∀ c ∈ log, c.uuid.token ≠ s.uuid.token) :
    ((z.add s.text s.recordedAt).items.filter
        (fun i ↦ decide (s.recordedAt - window < score i))).Perm
      (((log ++ [s]).filter (fun c ↦ decide (s.recordedAt - window < c.recordedAt))).map
        Sample.item) := by
  have hkeep : ((log.filter (fun c ↦ decide (s.recordedAt - window < c.recordedAt))).map
      Sample.item).filter (fun i ↦ member i ≠ s.text) =
        (log.filter (fun c ↦ decide (s.recordedAt - window < c.recordedAt))).map Sample.item := by
    refine List.filter_eq_self.mpr (fun i hi ↦ ?_)
    obtain ⟨c, hc, rfl⟩ := List.mem_map.mp hi
    refine decide_eq_true (fun he ↦ hnew c (List.mem_filter.mp hc).1 (token_eq_of_text_eq ?_))
    simpa [Sample.item] using he
  have hrest := hz.filter (fun i ↦ member i ≠ s.text)
  rw [hkeep, List.filter_filter] at hrest
  have hp := (SortedSet.items_add_perm s.text s.recordedAt z).filter
    (fun i ↦ decide (s.recordedAt - window < score i))
  rw [List.filter_append, List.map_append]
  refine hp.trans ?_
  rw [List.filter_cons, List.filter_filter]
  simp only [Bool.and_comm] at hrest
  by_cases hw : s.recordedAt - window < s.recordedAt
  · simp only [score_toLex, hw, decide_true, if_true, List.filter_cons, List.filter_nil,
      List.map_cons, List.map_nil]
    exact (hrest.cons _).trans (List.perm_append_singleton _ _).symm
  · simp only [score_toLex, hw, decide_false, Bool.false_eq_true, if_false, List.filter_cons,
      List.filter_nil, List.map_nil, List.append_nil]
    exact hrest

theorem filter_later {α : Type} (at' : α → ℤ) {t u : ℤ} (h : t ≤ u) (l : List α) :
    (l.filter (fun a ↦ decide (t - window < at' a))).filter (fun a ↦ decide (u - window < at' a)) =
      l.filter (fun a ↦ decide (u - window < at' a)) := by
  rw [List.filter_filter]
  refine List.filter_congr (fun a _ ↦ ?_)
  simp only [Bool.and_eq_decide, decide_eq_decide, decide_eq_true_eq]
  omega

theorem map_filter_item (t : ℤ) (l : List Sample) :
    (l.map Sample.item).filter (fun i ↦ decide (t - window < score i)) =
      (l.filter (fun c ↦ decide (t - window < c.recordedAt))).map Sample.item := by
  rw [List.filter_map]
  rfl

/-- The write-side eviction and the expiry take nothing that a later snapshot counts. -/
theorem WindowHolds.record {db' : Db} (hwhole : window % 1000 = 0)
    (hpast : ∀ c ∈ log, c.recordedAt ≤ s.recordedAt)
    (hz : (z.items.filter (fun i ↦ decide (s.recordedAt - window < score i))).Perm
      ((log.filter (fun c ↦ decide (s.recordedAt - window < c.recordedAt))).map Sample.item))
    (hnew : ∀ c ∈ log, c.uuid.token ≠ s.uuid.token)
    (hdb : db' (key provider) = recordedEntry window s z) :
    WindowHolds window s.recordedAt provider (log ++ [s]) db' := by
  intro t ht
  have hadd := add_perm hz hnew
  have hnone : ∀ u, u + window ≤ t → (∀ c ∈ log ++ [s], c.recordedAt ≤ u) →
      (log ++ [s]).filter (fun c ↦ decide (t - window < c.recordedAt)) = [] := by
    intro u hu hall
    refine List.filter_eq_nil_iff.mpr (fun c hc ↦ ?_)
    have hc' := hall c hc
    simp only [decide_eq_true_eq]
    omega
  have hall : ∀ c ∈ log ++ [s], c.recordedAt ≤ s.recordedAt := by
    intro c hc
    rcases List.mem_append.mp hc with hc | hc
    · exact hpast c hc
    · rw [List.mem_singleton.mp hc]
  simp only [recordedEntry] at hdb
  split at hdb
  · next hempty =>
    refine ⟨.empty, by rw [live_of_none hdb]; rfl, ?_⟩
    suffices h : (log ++ [s]).filter (fun c ↦ decide (t - window < c.recordedAt)) = [] by
      rw [h]
      simp
    rcases hempty with hempty | hempty
    · rw [SortedSet.items_filter] at hempty
      rw [hempty] at hadd
      have hnil := List.map_eq_nil_iff.mp hadd.nil_eq.symm
      rw [← filter_later Sample.recordedAt ht, hnil]
      rfl
    · exact hnone s.recordedAt (by omega) hall
  · next hne =>
    by_cases hexp : s.recordedAt + window / 1000 * 2 * 1000 < t
    · refine ⟨.empty, ?_, ?_⟩
      · simp only [live, hdb, Option.filter_some, Entry.expired, hexp, decide_true, Bool.not_true,
          Bool.false_eq_true, if_false]
        rfl
      · rw [hnone s.recordedAt (by omega) hall]
        simp
    · refine ⟨(z.add s.text s.recordedAt).filter
        (fun i ↦ decide (s.recordedAt - window < score i)), ?_, ?_⟩
      · simp only [live, hdb, Option.filter_some, Entry.expired, hexp, decide_false, Bool.not_false,
          if_true]
        rfl
      · rw [SortedSet.items_filter, filter_later score ht]
        have hlater := hadd.filter (fun i ↦ decide (t - window < score i))
        rwa [filter_later score ht, map_filter_item, filter_later Sample.recordedAt ht] at hlater

end Recording

end HealingGateway.Health
