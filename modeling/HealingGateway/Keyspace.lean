import HealingGateway.MonitorStore
import HealingGateway.Service

namespace HealingGateway

open Programs Programs.Prog Numerals JsonText Redis

/-- The keys of the store. -/
inductive Key
  | circuit (p : String)
  | window (p : String)
  | fault (p : String)
  | slot (l : String)
  | job (id : String)
  | ready
  | dlq

namespace Key

def text : Key → String
  | circuit p => Breaker.key p
  | window p => Health.key p
  | fault p => Chaos.key p
  | slot l => Idempotency.slotKey l
  | job id => Queue.key id
  | ready => Queue.ready
  | dlq => Queue.dlq

theorem text_injective : Function.Injective text := by
  intro k k' h
  cases k <;> cases k' <;>
    simp [text, Breaker.key, Health.key, Chaos.key, Idempotency.slotKey, Queue.key, Queue.ready,
      Queue.dlq, ← String.toList_inj] at h ⊢ <;>
    exact h

def kind : Key → Redis.Kind
  | circuit _ | job _ => .hash
  | window _ | ready | dlq => .zset
  | fault _ | slot _ => .str

/-- A record none of whose fields is spelled wrong, and that names no other job. -/
structure RecordOf (id : String) (raw : List (String × String)) : Prop where
  spelled : ∀ f ∈ Queue.schema, ∀ text, raw.lookup f.1 = some text → f.2 text = true
  named : ∀ name, raw.lookup "id" = some name → name = id

/-- What may be found under a key. -/
inductive Holds : Key → Entry → Prop
  | circuit {p : String} {raw : List (String × String)}
      (h : ∀ config, ∃ s, Breaker.readCircuit config p raw = .ok s ∧
        (s.state = .opened → s.openedAtMs.isSome)) : Holds (circuit p) ⟨.hash raw, none⟩
  | window {p : String} {z : SortedSets.SortedSet ℤ String} (t : Option ℤ)
      (h : Health.Readable (members z)) : Holds (window p) ⟨.zset z, t⟩
  | fault {spec : Chaos.ChaosSpec} (h : spec.Sound) (t : ℤ) :
      Holds (fault spec.provider) ⟨.str (dumps spec.asDict), some t⟩
  | slot (l : String) {value : String} (t : ℤ) (h : value = Idempotency.inFlight ∨
      ∃ status body, value = Idempotency.envelope status body ∧ status < 400) : Holds (slot l) ⟨.str value, some t⟩
  | job {id : String} {raw : List (String × String)} (t : Option ℤ) (h : RecordOf id raw) :
      Holds (job id) ⟨.hash raw, t⟩
  | ready (z : SortedSets.SortedSet ℤ String) (t : Option ℤ) : Holds ready ⟨.zset z, t⟩
  | dlq (z : SortedSets.SortedSet ℤ String) (t : Option ℤ) : Holds dlq ⟨.zset z, t⟩

theorem Holds.kind_eq {k : Key} {e : Entry} (h : k.Holds e) : e.value.kind = k.kind := by
  cases h <;> rfl

end Key

/-- Nothing is stored but under the gateway's keys, and there only what they may hold. -/
structure Conforms (db : Db) : Prop where
  holds : ∀ (k : Key) e, db k.text = some e → k.Holds e
  keyed : ∀ key e, db key = some e → ∃ k : Key, key = k.text

namespace Conforms

variable {db : Db} {now : ℤ}

theorem empty : Conforms (fun _ ↦ none) := ⟨(fun _ _ h ↦ by cases h), (fun _ _ h ↦ by cases h)⟩

theorem update (h : Conforms db) (k : Key) {e : Option Entry} (he : ∀ x, e = some x → k.Holds x) :
    Conforms (Function.update db k.text e) := by
  constructor
  · intro k' x hx
    by_cases hk : k' = k
    · subst hk
      rw [Function.update_self] at hx
      exact he x hx
    · rw [Function.update_of_ne (fun ht ↦ hk (Key.text_injective ht))] at hx
      exact h.holds k' x hx
  · intro key x hx
    by_cases hk : key = k.text
    · exact ⟨k, hk⟩
    · rw [Function.update_of_ne hk] at hx
      exact h.keyed key x hx

theorem live (h : Conforms db) (k : Key) {e : Entry} (he : Redis.live now db k.text = some e) :
    k.Holds e := h.holds k e (live_eq_some.mp he).1

theorem write (h : Conforms db) (k : Key) {w : Write} (hk : w.key = k.text)
    (hkind : ∀ kind ∈ w.kind, kind = k.kind)
    (hw : ∀ found e x, (∀ y, found = some y → k.Holds y) → w.apply now found = .ok e → e = some x →
      k.Holds x) : (execWrite now w db).1 = .ok () ∧ Conforms (execWrite now w db).2 := by
  constructor
  · refine execWrite_answered (fun e he kind hkd ↦ ?_)
    rw [hk] at he
    exact (h.live k he).kind_eq.trans (hkind kind hkd).symm
  · unfold execWrite
    split
    · next e he =>
      rw [hk] at he ⊢
      exact h.update k (fun x hx ↦ hw _ _ x (fun y hy ↦ h.live k hy) he hx)
    · exact h

theorem circuit_write (h : Conforms db) (p : String) {fields : List (String × String)}
    (hf : ∀ raw, (∀ config, ∃ s, Breaker.readCircuit config p raw = .ok s ∧
        (s.state = .opened → s.openedAtMs.isSome)) → ∀ config, ∃ s,
      Breaker.readCircuit config p (Dicts.merge raw fields) = .ok s ∧
        (s.state = .opened → s.openedAtMs.isSome)) :
    (execWrite now (.hset (Breaker.key p) fields) db).1 = .ok () ∧
      Conforms (execWrite now (.hset (Breaker.key p) fields) db).2 := by
  refine h.write (.circuit p) rfl (by rintro _ ⟨⟩; rfl) (fun found e x hfound he hx ↦ ?_)
  obtain ⟨old, t, rfl, ⟨rfl, rfl, rfl⟩ | rfl⟩ := apply_hset he
  · cases hx
    exact .circuit (hf [] (fun config ↦ ⟨_, rfl, fun hs ↦ by cases hs⟩))
  · cases hx
    cases hfound _ rfl with
    | circuit hold => exact .circuit (hf old hold)

theorem job_hset (h : Conforms db) (id : String) {fields : List (String × String)}
    (hf : Queue.Fits fields) (hid : ∀ name, ("id", name) ∈ fields → name = id) :
    (execWrite now (.hset (Queue.key id) fields) db).1 = .ok () ∧
      Conforms (execWrite now (.hset (Queue.key id) fields) db).2 := by
  have hmerge : ∀ raw, Key.RecordOf id raw → Key.RecordOf id (Dicts.merge raw fields) := by
    intro raw hraw
    constructor
    · intro f hmem text htext
      rcases Dicts.lookup_merge_cases raw fields f.1 with hl | ⟨text', hmem', hl⟩
      · exact hraw.spelled f hmem text (hl ▸ htext)
      · rw [hl] at htext
        cases htext
        exact hf _ hmem' f hmem rfl
    · intro name hname
      rcases Dicts.lookup_merge_cases raw fields "id" with hl | ⟨text', hmem', hl⟩
      · exact hraw.named name (hl ▸ hname)
      · rw [hl] at hname
        cases hname
        exact hid _ hmem'
  refine h.write (.job id) rfl (by rintro _ ⟨⟩; rfl) (fun found e x hfound he hx ↦ ?_)
  obtain ⟨old, t, rfl, ⟨rfl, rfl, rfl⟩ | rfl⟩ := apply_hset he
  · cases hx
    exact .job none (hmerge [] ⟨(fun _ _ _ hl ↦ by cases hl), (fun _ hl ↦ by cases hl)⟩)
  · cases hx
    cases hfound _ rfl with
    | job t hold => exact .job t (hmerge old hold)

theorem job_expire (h : Conforms db) (id : String) (seconds : ℤ) :
    (execWrite now (.expire (Queue.key id) seconds) db).1 = .ok () ∧
      Conforms (execWrite now (.expire (Queue.key id) seconds) db).2 := by
  refine h.write (.job id) rfl (by rintro _ ⟨⟩) (fun found e x hfound he hx ↦ ?_)
  obtain ⟨y, rfl, rfl⟩ := apply_expire he hx
  cases hfound _ rfl with
  | job t hold => exact .job _ hold

theorem window_zadd (h : Conforms db) (p : String) (s : Health.Sample) (score : ℤ) :
    (execWrite now (.zadd (Health.key p) s.text score) db).1 = .ok () ∧
      Conforms (execWrite now (.zadd (Health.key p) s.text score) db).2 := by
  have hadd : ∀ z : SortedSets.SortedSet ℤ String, Health.Readable (members z) →
      Health.Readable (members (z.add s.text score)) := by
    intro z hz m hm
    rcases (SortedSets.SortedSet.mem_add s.text m score z).mp hm with rfl | hold
    · rw [Health.readingOf?_text]
      rfl
    · exact hz m hold
  refine h.write (.window p) rfl (by rintro _ ⟨⟩; rfl) (fun found e x hfound he hx ↦ ?_)
  obtain ⟨z, t, rfl, ⟨rfl, rfl, rfl⟩ | rfl⟩ := apply_zadd he
  · cases hx
    exact .window none (hadd .empty (fun m hm ↦ by cases hm))
  · cases hx
    cases hfound _ rfl with
    | window t hold => exact .window t (hadd z hold)

theorem window_zremrangebyscore (h : Conforms db) (p : String) (max : ℤ) :
    (execWrite now (.zremrangebyscore (Health.key p) max) db).1 = .ok () ∧
      Conforms (execWrite now (.zremrangebyscore (Health.key p) max) db).2 := by
  refine h.write (.window p) rfl (by rintro _ ⟨⟩; rfl) (fun found e x hfound he hx ↦ ?_)
  obtain ⟨z, t, rfl, rfl⟩ := apply_zremrangebyscore he hx
  cases hfound _ rfl with
  | window t hold =>
    refine .window t (fun m hm ↦ hold m ?_)
    obtain ⟨i, hi, rfl⟩ := List.mem_map.mp hm
    exact List.mem_map_of_mem (List.mem_of_mem_filter hi)

theorem window_expire (h : Conforms db) (p : String) (seconds : ℤ) :
    (execWrite now (.expire (Health.key p) seconds) db).1 = .ok () ∧
      Conforms (execWrite now (.expire (Health.key p) seconds) db).2 := by
  refine h.write (.window p) rfl (by rintro _ ⟨⟩) (fun found e x hfound he hx ↦ ?_)
  obtain ⟨y, rfl, rfl⟩ := apply_expire he hx
  cases hfound _ rfl with
  | window t hold => exact .window _ hold

theorem zadd (h : Conforms db) (k : Key) {key : String} (hkey : key = k.text) (hkind : k.kind = .zset)
    (hk : ∀ z t, k.Holds ⟨.zset z, t⟩) (m : String) (score : ℤ) :
    (execWrite now (.zadd key m score) db).1 = .ok () ∧
      Conforms (execWrite now (.zadd key m score) db).2 := by
  refine h.write k hkey (by rintro _ ⟨⟩; exact hkind.symm) (fun found e x _ he hx ↦ ?_)
  obtain ⟨z, t, rfl, -⟩ := apply_zadd he
  cases hx
  exact hk _ _

theorem delete (h : Conforms db) (k : Key) : Conforms (Redis.exec now (.delete k.text) db).2 :=
  h.update k (fun _ hx ↦ by cases hx)

theorem set (h : Conforms db) (k : Key) {value : String} {nx : Bool} {ex : ℤ}
    (hk : ∀ t, k.Holds ⟨.str value, some t⟩) :
    Conforms (Redis.exec now (.set k.text value nx ex) db).2 ∧
      (0 < ex → (Redis.exec now (.set k.text value nx ex) db).1.isOk = true) := by
  simp only [Redis.exec]
  split
  · next hex => exact ⟨h, fun hpos ↦ absurd hex (not_le.mpr hpos)⟩
  · split
    · exact ⟨h, fun _ ↦ rfl⟩
    · exact ⟨h.update k (fun x hx ↦ by cases hx; exact hk _), fun _ ↦ rfl⟩

theorem zpopmin (h : Conforms db) : Conforms (Redis.exec now (.zpopmin Queue.ready) db).2 ∧
    (Redis.exec now (.zpopmin Queue.ready) db).1.isOk = true := by
  simp only [Redis.exec, execZpopmin]
  split
  · exact ⟨h, rfl⟩
  · split
    · exact ⟨h, rfl⟩
    · exact ⟨h.update .ready (fun x hx ↦ by rw [eq_of_zsetEntry hx]; exact .ready _ _), rfl⟩
  · next e hne hl =>
    cases h.live .ready hl with
    | ready z t => exact absurd rfl (hne z t)

section Reads

theorem hgetall_circuit (h : Conforms db) (now : ℤ) (p : String) :
    ∃ raw, (Redis.exec now (.hgetall (Breaker.key p)) db).1 = .ok raw ∧
      ∀ config, ∃ s, Breaker.readCircuit config p raw = .ok s ∧
        (s.state = .opened → s.openedAtMs.isSome) := by
  cases hl : Redis.live now db (Breaker.key p) with
  | none => exact ⟨[], by rw [Redis.exec, hl]; rfl, fun config ↦ ⟨_, rfl, fun hs ↦ by cases hs⟩⟩
  | some e =>
    cases h.live (.circuit p) hl with
    | circuit hraw => exact ⟨_, by rw [Redis.exec, hl]; rfl, hraw⟩

theorem hgetall_job (h : Conforms db) (now : ℤ) (id : String) :
    ∃ raw, (Redis.exec now (.hgetall (Queue.key id)) db).1 = .ok raw ∧ Key.RecordOf id raw := by
  cases hl : Redis.live now db (Queue.key id) with
  | none =>
    exact ⟨[], by rw [Redis.exec, hl]; rfl, (fun _ _ _ ht ↦ by cases ht), (fun _ hn ↦ by cases hn)⟩
  | some e =>
    cases h.live (.job id) hl with
    | job t hraw => exact ⟨_, by rw [Redis.exec, hl]; rfl, hraw⟩

theorem zrangebyscore_window (h : Conforms db) (now : ℤ) (p : String) (above : ℤ) :
    ∃ ms, (Redis.exec now (.zrangebyscore (Health.key p) above) db).1 = .ok ms ∧
      Health.Readable ms := by
  cases hl : Redis.live now db (Health.key p) with
  | none => exact ⟨[], by rw [Redis.exec, hl]; rfl, (fun m hm ↦ by cases hm)⟩
  | some e =>
    cases h.live (.window p) hl with
    | window t hz =>
      refine ⟨_, by rw [Redis.exec, hl]; rfl, fun m hm ↦ hz m ?_⟩
      obtain ⟨i, hi, rfl⟩ := List.mem_map.mp hm
      exact List.mem_map_of_mem (List.mem_of_mem_filter hi)

theorem get_fault (h : Conforms db) (now : ℤ) (p : String) :
    ∃ found, (Redis.exec now (.get (Chaos.key p)) db).1 = .ok found ∧
      ∀ text ∈ found, ∃ spec : Chaos.ChaosSpec, spec.provider = p ∧ spec.Sound ∧
        text = dumps spec.asDict := by
  cases hl : Redis.live now db (Chaos.key p) with
  | none => exact ⟨none, by rw [Redis.exec, hl]; rfl, (fun text ht ↦ by cases ht)⟩
  | some e =>
    cases h.live (.fault p) hl with
    | fault hs t => exact ⟨_, by rw [Redis.exec, hl]; rfl, fun text ht ↦ ⟨_, rfl, hs, by cases ht; rfl⟩⟩

theorem get_slot (h : Conforms db) (now : ℤ) (l : String) :
    ∃ found, (Redis.exec now (.get (Idempotency.slotKey l)) db).1 = .ok found ∧
      ∀ text ∈ found, text = Idempotency.inFlight ∨
        ∃ status body, text = Idempotency.envelope status body ∧ status < 400 := by
  cases hl : Redis.live now db (Idempotency.slotKey l) with
  | none => exact ⟨none, by rw [Redis.exec, hl]; rfl, (fun text ht ↦ by cases ht)⟩
  | some e =>
    cases h.live (.slot l) hl with
    | slot l t hvalue => exact ⟨_, by rw [Redis.exec, hl]; rfl, fun text ht ↦ by cases ht; exact hvalue⟩

theorem asZset_isOk (h : Conforms db) (k : Key) (hk : k.kind = .zset) :
    (Redis.asZset (Redis.live now db k.text)).isOk = true := by
  cases hl : Redis.live now db k.text with
  | none => rfl
  | some e =>
    have hkind := (h.live k hl).kind_eq
    rw [hk] at hkind
    obtain ⟨v, t⟩ := e
    cases v with
    | zset z => rfl
    | str | hash => cases hkind

end Reads

/-- Every command the gateway issues leaves a store that conforms, and none finds a value of the
wrong kind. -/
theorem exec {w : Warrant} {c : Redis.Command} (hc : Stores w c) (h : Conforms db) (now : ℤ) :
    Conforms (Redis.exec now c db).2 ∧
      ((∀ key value nx ex, c = .set key value nx ex → 0 < ex) →
        (Redis.exec now c db).1.isOk = true) := by
  have hread : ∀ {α : Type} {r : Except Redis.Error α}, (∃ a, r = .ok a) → r.isOk = true := by
    rintro α r ⟨a, rfl⟩
    rfl
  have hwrite : ∀ {r : Except Redis.Error Unit × Db}, r.1 = .ok () ∧ Conforms r.2 →
      Conforms r.2 ∧ ((∀ key value nx ex, c = .set key value nx ex → 0 < ex) → r.1.isOk = true) :=
    fun hr ↦ ⟨hr.2, fun _ ↦ by rw [hr.1]; rfl⟩
  cases hc with
  | readCircuit p =>
    obtain ⟨raw, hraw, -⟩ := h.hgetall_circuit now p
    exact ⟨h, fun _ ↦ hread ⟨raw, hraw⟩⟩
  | readWindow p above =>
    obtain ⟨ms, hms, -⟩ := h.zrangebyscore_window now p above
    exact ⟨h, fun _ ↦ hread ⟨ms, hms⟩⟩
  | readFault _ p =>
    obtain ⟨found, hfound, -⟩ := h.get_fault now p
    exact ⟨h, fun _ ↦ hread ⟨found, hfound⟩⟩
  | @readSlot l ttlS =>
    obtain ⟨found, hfound, -⟩ := h.get_slot now l
    exact ⟨h, fun _ ↦ hread ⟨found, hfound⟩⟩
  | readJob id =>
    obtain ⟨raw, hraw, -⟩ := h.hgetall_job now id
    exact ⟨h, fun _ ↦ hread ⟨raw, hraw⟩⟩
  | listDead stop =>
    refine ⟨h, fun _ ↦ ?_⟩
    have hz : (Redis.asZset (Redis.live now db Key.dlq.text)).isOk = true := h.asZset_isOk .dlq rfl
    simp only [Redis.exec]
    cases hd : Redis.asZset (Redis.live now db Queue.dlq) with
    | ok z => rfl
    | error e =>
      rw [show Key.dlq.text = Queue.dlq from rfl, hd] at hz
      cases hz
  | depth =>
    refine ⟨h, fun _ ↦ ?_⟩
    have hz : (Redis.asZset (Redis.live now db Key.ready.text)).isOk = true := h.asZset_isOk .ready rfl
    simp only [Redis.exec]
    cases hd : Redis.asZset (Redis.live now db Queue.ready) with
    | ok z => rfl
    | error e =>
      rw [show Key.ready.text = Queue.ready from rfl, hd] at hz
      cases hz
  | moveCircuit p c cooldownS =>
    refine hwrite (h.circuit_write p
      (fun raw _ config ↦ ⟨_, Breaker.readCircuit_fields config p raw _ _ _, ?_⟩))
    cases c with
    | closed | halfOpen => exact fun hs ↦ by cases hs
    | opened t cooldown => exact fun _ ↦ rfl
  | countProbe p n =>
    refine hwrite (h.circuit_write p (fun raw hraw config ↦ ?_))
    obtain ⟨s, hs, hopened⟩ := hraw config
    exact ⟨_, Breaker.readCircuit_probes hs n, hopened⟩
  | noteCall p s window =>
    refine hwrite (execPipeline_answered (fun w hw db hdb ↦ ?_) h)
    simp only [Health.recordWrites, List.mem_cons, List.not_mem_nil, or_false] at hw
    obtain rfl | rfl | rfl := hw
    · exact hdb.window_zadd p s _
    · exact hdb.window_zremrangebyscore p _
    · exact hdb.window_expire p _
  | forgetWindow p => exact ⟨h.delete (.window p), fun _ ↦ rfl⟩
  | inject hspec hs =>
    obtain ⟨hconforms, hok⟩ := h.set (.fault _) (fun t ↦ .fault hs t)
    exact ⟨hconforms, fun hex ↦ hok (hex _ _ _ _ rfl)⟩
  | lift hp => exact ⟨h.delete (.fault _), fun _ ↦ rfl⟩
  | claimSlot hl =>
    obtain ⟨hconforms, hok⟩ := h.set (.slot _) (fun t ↦ .slot _ t (.inl rfl))
    exact ⟨hconforms, fun hex ↦ hok (hex _ _ _ _ rfl)⟩
  | settleSlot hl hs body =>
    obtain ⟨hconforms, hok⟩ := h.set (.slot _) (fun t ↦ .slot _ t (.inr ⟨_, body, rfl, hs⟩))
    exact ⟨hconforms, fun hex ↦ hok (hex _ _ _ _ rfl)⟩
  | freeSlot hl => exact ⟨h.delete (.slot _), fun _ ↦ rfl⟩
  | acceptJob config id ha created =>
    refine hwrite (execPipeline_answered (fun w hw db hdb ↦ ?_) h)
    simp only [Queue.enqueueWrites, List.mem_cons, List.not_mem_nil, or_false] at hw
    obtain rfl | rfl | rfl := hw
    · refine hdb.job_hset id (Queue.fits_newRecord _ _ _ _) (fun name hname ↦ ?_)
      simpa [Queue.newRecord] using hname
    · exact hdb.job_expire id _
    · exact hdb.zadd .ready rfl rfl .ready id _
  | popJob => exact ⟨h.zpopmin.1, fun _ ↦ h.zpopmin.2⟩
  | updateJob _ id hf =>
    refine hwrite (h.job_hset id hf.fits (fun name hname ↦ ?_))
    exact absurd (hf.changes _ hname) (by simp [Queue.mutableFields])
  | putJob _ id readyAtMs => exact hwrite (h.zadd .ready rfl rfl .ready id _)
  | buryJob _ id created => exact hwrite (h.zadd .dlq rfl rfl .dlq id _)

end Conforms

end HealingGateway
