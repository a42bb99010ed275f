import HealingGateway.Library.Registers
import HealingGateway.Traffic

namespace HealingGateway.Service

open Programs Programs.Prog JsonText Registers

abbrev FaultEdit := Edit String Chaos.ChaosSpec ℤ

variable {ι : Type} (tasks : ι → Task)

def Task.posts? : Task → Option ChaosRequest
  | .request ⟨.chaosSet posted, _⟩ => some posted
  | _ => none

def Task.clears? : Task → Option String
  | .request ⟨.chaosClear provider, _⟩ => some provider
  | _ => none

def editBy (task : Task) (now : ℤ) : Cmd → Option FaultEdit
  | .redis (.set key ..) =>
    (task.posts?.filter (fun request ↦ key = Chaos.key request.provider)).map (fun request ↦
      ⟨request.provider, some (request.spec, now + request.ttlS * 1000)⟩)
  | .redis (.delete key) =>
    (task.clears?.filter (fun provider ↦ key = Chaos.key provider)).map (fun provider ↦
      ⟨provider, none⟩)
  | _ => none

def editOf (a : Deed ι) : Option FaultEdit :=
  match a.outside.2 with
  | .refused _ => none
  | _ => editBy (tasks a.thread) a.outside.1.now a.cmd

def faultEdits (done : List (Deed ι)) : List FaultEdit := done.filterMap (editOf tasks)

structure Posts (env : Environ) (config : GatewayConfig) (task : Task) (request : ChaosRequest) :
    Prop where
  task : ∃ headers, task = .request ⟨.chaosSet request, headers⟩ ∧
    Main.requireSecret env headers = .ok ()
  known : (config.providers.lookup request.provider).isSome
  sound : request.spec.Sound

def Clears (env : Environ) (task : Task) (provider : String) : Prop :=
  ∃ headers, task = .request ⟨.chaosClear provider, headers⟩ ∧
    Main.requireSecret env headers = .ok ()

inductive Bears (env : Environ) (config : GatewayConfig) (task : Task) : Cmd → Prop
  | apart {c : Cmd} (h : ∀ p, Chaos.key p ∉ c.keys) : Bears env config task c
  | look (p : String) : Bears env config task (.redis (.get (Chaos.key p)))
  | post {request : ChaosRequest} (h : Posts env config task request) : Bears env config task
      (.redis (.set (Chaos.key request.provider) (dumps request.spec.asDict) false request.ttlS))
  | clear {p : String} (h : Clears env task p) :
      Bears env config task (.redis (.delete (Chaos.key p)))

variable {env : Environ} {config : GatewayConfig} {encoders : Main.Encoders} {tasks}

theorem bears_of_stores {task : Task} {c : Redis.Command} (h : Stores (task.warrant env config) c) :
    Bears env config task (.redis c) := by
  have hinject : ∀ {spec ttlS}, (task.warrant env config).injects spec ttlS → spec.Sound →
      ∃ request, Posts env config task request ∧ spec = request.spec ∧ ttlS = request.ttlS := by
    intro spec ttlS hspec hs
    cases task with
    | lifespan | worker => cases hspec
    | request r =>
      obtain ⟨route, headers⟩ := r
      cases route with
      | chaosSet request =>
        obtain ⟨hsecret, rfl, rfl, hknown, -⟩ := hspec
        exact ⟨request, ⟨⟨headers, rfl, hsecret⟩, hknown, hs⟩, rfl, rfl⟩
      | _ => cases hspec
  have hlift : ∀ {p}, (task.warrant env config).lifts p → Clears env task p := by
    intro p hp
    cases task with
    | lifespan | worker => cases hp
    | request r =>
      obtain ⟨route, headers⟩ := r
      cases route with
      | chaosClear provider =>
        obtain ⟨hsecret, rfl⟩ := hp
        exact ⟨headers, rfl, hsecret⟩
      | _ => cases hp
  cases h with
  | readFault _ p => exact .look p
  | inject hspec hs =>
    obtain ⟨request, hposts, rfl, rfl⟩ := hinject hspec hs
    exact .post hposts
  | lift hp => exact .clear (hlift hp)
  | _ =>
    refine .apart (fun p hp ↦ ?_)
    simp [Cmd.keys, Redis.Command.keys, Redis.Write.key, Health.recordWrites, Queue.enqueueWrites,
      Chaos.key, Breaker.key, Health.key, Idempotency.slotKey, Queue.key, Queue.ready, Queue.dlq,
      ← String.toList_inj] at hp

theorem bears_of_issues {task : Task} {c : Cmd} (h : Issues (task.warrant env config) c) :
    Bears env config task c := by
  cases h with
  | store h => exact bears_of_stores h
  | inward h => exact .apart (fun p hp ↦ by rw [c.keys_of_quiet (Cmd.quiet_of_inward h)] at hp; cases hp)
  | dispatch | observe | respond | count => exact .apart (fun p hp ↦ by cases hp)

section Edits

variable {task : Task} {i : ι} {o : Outside} {fate : Fate} {db : Redis.Db} {p : String}

theorem editBy_apart {c : Cmd} (h : ∀ p, Chaos.key p ∉ c.keys) (now : ℤ) : editBy task now c = none := by
  have hfilter : ∀ {α : Type} {found : Option α} {key : String} {name : α → String},
      key ∈ c.keys → found.filter (fun a ↦ key = Chaos.key (name a)) = none := by
    intro α found key name hkey
    refine Option.filter_eq_none_iff.mpr (fun a _ ha ↦ h (name a) ?_)
    rwa [← of_decide_eq_true ha]
  unfold editBy
  split
  · rw [hfilter (by simp [Cmd.keys, Redis.Command.keys])]
    rfl
  · rw [hfilter (by simp [Cmd.keys, Redis.Command.keys])]
    rfl
  · rfl

def faultEntry (held : Chaos.ChaosSpec × ℤ) : Redis.Entry := ⟨.str (dumps held.1.asDict), some held.2⟩

theorem editBy_post {request : ChaosRequest} (h : Posts env config task request) (value : String)
    (now : ℤ) : editBy task now (.redis (.set (Chaos.key request.provider) value false request.ttlS)) =
      some ⟨request.provider, some (request.spec, now + request.ttlS * 1000)⟩ := by
  obtain ⟨⟨headers, rfl, -⟩, -, -⟩ := h
  simp [editBy, Task.posts?]

theorem editBy_clear (h : Clears env task p) (now : ℤ) :
    editBy task now (.redis (.delete (Chaos.key p))) = some ⟨p, none⟩ := by
  obtain ⟨headers, rfl, -⟩ := h
  simp [editBy, Task.clears?]

theorem fault_answers {c : Cmd} (hc : Bears env config task c) (o : Outside) (db : Redis.Db)
    (p : String) :
    (o.answers c db).2 (Chaos.key p) =
      ((editBy task o.now c).elim (db (Chaos.key p)) (fun e ↦
        if e.key = p then e.entry.map faultEntry else db (Chaos.key p))) := by
  have hkey : ∀ {q e}, Function.update db (Chaos.key q) e (Chaos.key p) =
      if q = p then e else db (Chaos.key p) := by
    intro q e
    by_cases hq : q = p
    · rw [hq, Function.update_self, if_pos rfl]
    · have hne : Chaos.key p ≠ Chaos.key q := by simpa [Chaos.key, ← String.toList_inj] using Ne.symm hq
      rw [Function.update_of_ne hne, if_neg hq]
  cases hc with
  | apart h =>
    rw [editBy_apart h]
    exact o.answers_frame (h p) db
  | look q => rfl
  | post h =>
    next request =>
    have hpos : ¬ request.ttlS ≤ 0 := not_le.mpr request.ttlS_bounds.1
    rw [editBy_post h]
    simp only [Outside.answers, Redis.exec, if_neg hpos, Bool.false_eq_true, false_and, if_false]
    exact hkey
  | clear h =>
    rw [editBy_clear h]
    exact hkey

theorem faultEdits_append_singleton (before : List (Deed ι)) (a : Deed ι) :
    faultEdits tasks (before ++ [a]) = faultEdits tasks before ++ (editOf tasks a).toList := by
  rw [faultEdits, List.filterMap_append, ← faultEdits]
  cases ha : editOf tasks a <;> simp [ha]

/-- A deed leaves of a provider's fault what its edit says. -/
theorem fault_deed {a : Deed ι} (ha : Bears env config (tasks a.thread) a.cmd) {before : List (Deed ι)}
    (h : db (Chaos.key p) = (latest p (faultEdits tasks before)).map faultEntry) :
    (meets a.outside a.cmd db).2 (Chaos.key p) =
      (latest p (faultEdits tasks (before ++ [a]))).map faultEntry := by
  have hanswers : ((a.outside.1.answers a.cmd db).2 (Chaos.key p)) =
      (latest p (faultEdits tasks before ++
        (editBy (tasks a.thread) a.outside.1.now a.cmd).toList)).map faultEntry := by
    rw [fault_answers ha a.outside.1 db p]
    cases editBy (tasks a.thread) a.outside.1.now a.cmd with
    | none => simpa using h
    | some e =>
      simp only [Option.elim_some, Option.toList_some, latest_append_singleton]
      split
      · rfl
      · exact h
  obtain ⟨i, ⟨o, fate⟩, g, c, r⟩ := a
  rw [faultEdits_append_singleton]
  cases c with
  | redis c =>
    cases fate with
    | answered => exact hanswers
    | unheard e => exact hanswers
    | refused e => simpa [editOf, meets, Outside.meets] using h
  | _ => cases fate <;> simpa [editOf, editBy, meets, Outside.meets, Outside.answers] using h

variable [DecidableEq ι]

/-- What is stored for a provider is its last fault, unless that was lifted since. -/
theorem store_fault (turns : List (ι × (Outside × Fate))) (p : String) :
    (after env config encoders tasks turns).store (Chaos.key p) =
      (latest p (faultEdits tasks (deeds env config encoders tasks turns))).map faultEntry := by
  rw [after, Pool.store_run_eq]
  refine Pool.replay_rule (I := fun done (db : Redis.Db) ↦ db (Chaos.key p) =
    (latest p (faultEdits tasks done)).map faultEntry) rfl (fun before a db ha h ↦ ?_)
  exact fault_deed (bears_of_issues (within_deeds env config encoders tasks turns a ha)) h

end Edits

section Found

variable {db : Redis.Db} {now : ℤ} {p : String} {edits : List FaultEdit}

theorem exec_get_fault (h : db (Chaos.key p) = (latest p edits).map faultEntry) (now : ℤ) :
    (Redis.exec now (.get (Chaos.key p)) db).1 =
      .ok ((held now p edits).map (fun spec ↦ dumps spec.asDict)) := by
  rw [Redis.exec, Redis.live, h, held]
  cases latest p edits with
  | none => rfl
  | some entry =>
    obtain ⟨spec, t⟩ := entry
    by_cases ht : now ≤ t
    · have hlive : (faultEntry (spec, t)).expired now = false := by
        simpa [Redis.Entry.expired, faultEntry] using ht
      simp only [Option.map_some, Option.filter_some, hlive, ht, decide_true]
      rfl
    · have hgone : (faultEntry (spec, t)).expired now = true := by
        simpa [Redis.Entry.expired, faultEntry] using ht
      simp only [Option.map_some, Option.filter_some, hgone, ht, decide_false]
      rfl

theorem readRaw_held (found : Option Chaos.ChaosSpec) :
    Chaos.readRaw (found.map (fun spec ↦ dumps spec.asDict)) = .ok found := by
  cases found with
  | none => rfl
  | some spec => exact Chaos.readRaw_asDict spec

theorem run_get_fault (h : db (Chaos.key p) = (latest p edits).map faultEntry) (o : Outside) :
    (Chaos.get p).run o.answers db = (.ok (held o.now p edits), db) := by
  have hget : o.answers (.redis (.get (Chaos.key p))) db =
      (.ok ((held o.now p edits).map (fun spec ↦ dumps spec.asDict)), db) :=
    Outside.answers_redis (Prod.ext (exec_get_fault h o.now) rfl)
  rw [Chaos.get, run_redis_bind _ hget, run_ofExcept, readRaw_held]

theorem run_specsOf_fault (h : ∀ p, db (Chaos.key p) = (latest p edits).map faultEntry) (o : Outside)
    (providers : List String) (specs : List (String × Option Chaos.ChaosSpec)) :
    (Chaos.specsOf providers specs).run o.answers db =
      (.ok (Dicts.merge specs (providers.map (fun p ↦ (p, held o.now p edits)))), db) := by
  induction providers generalizing specs with
  | nil => rfl
  | cons p providers ih =>
    rw [Chaos.specsOf, run_bind_ok _ (run_get_fault (h p) o), ih, List.map_cons, Dicts.merge_cons]

/-- The faults listed are those still held. -/
theorem run_active_fault (h : ∀ p, db (Chaos.key p) = (latest p edits).map faultEntry) (o : Outside)
    (providers : List String) :
    ∃ specs, (Chaos.active providers).run o.answers db = (.ok specs, db) ∧
      ∀ p spec, (p, spec) ∈ specs ↔ p ∈ providers ∧ held o.now p edits = some spec := by
  let found := Dicts.merge [] (providers.map (fun p ↦ (p, held o.now p edits)))
  have hrun : (Chaos.specsOf providers []).run o.answers db = (.ok found, db) :=
    run_specsOf_fault h o providers []
  have hnodup : (found.map Prod.fst).Nodup := Dicts.nodup_merge (d := []) List.nodup_nil _
  refine ⟨_, by rw [Chaos.active, run_bind_ok _ hrun]; rfl, fun p spec ↦ ?_⟩
  have hmem : ∀ v, (p, v) ∈ found ↔ p ∈ providers ∧ held o.now p edits = v := by
    intro v
    rw [Dicts.mem_iff_lookup hnodup, Dicts.lookup_merge_map]
    split
    · next hp => simp [hp]
    · next hp => simp [hp]
  rw [← hmem, List.mem_filterMap]
  constructor
  · rintro ⟨⟨q, v⟩, hq, hv⟩
    obtain ⟨spec', rfl, heq⟩ := Option.map_eq_some_iff.mp hv
    cases heq
    exact hq
  · exact fun hp ↦ ⟨(p, some spec), hp, rfl⟩

end Found

theorem editOf_eq_some {a : Deed ι} {e : FaultEdit} {spec : Chaos.ChaosSpec} {t : ℤ}
    (ha : Bears env config (tasks a.thread) a.cmd) (h : editOf tasks a = some e)
    (he : e.entry = some (spec, t)) :
    ∃ request, Posts env config (tasks a.thread) request ∧ e.key = request.provider ∧
      spec = request.spec ∧ t = a.outside.1.now + request.ttlS * 1000 := by
  have hedit : editBy (tasks a.thread) a.outside.1.now a.cmd = some e := by
    unfold editOf at h
    split at h
    · cases h
    · exact h
  obtain ⟨i, o, g, c, r⟩ := a
  cases ha with
  | apart hc =>
    rw [editBy_apart hc] at hedit
    cases hedit
  | look p => cases hedit
  | post hposts =>
    rw [editBy_post hposts] at hedit
    cases hedit
    cases he
    exact ⟨_, hposts, rfl, rfl, rfl⟩
  | clear hclears =>
    rw [editBy_clear hclears] at hedit
    cases hedit
    cases he

section Registry

variable [DecidableEq ι]

/-- Whatever goes on, who looks for a provider's fault finds what was last posted for it, if that is
neither lifted nor gone, and the listing shows the faults that would be found. -/
theorem faults_registered (turns : List (ι × (Outside × Fate))) (o : Outside) :
    (∀ p, (Chaos.get p).run o.answers (after env config encoders tasks turns).store =
      (.ok (held o.now p (faultEdits tasks (deeds env config encoders tasks turns))),
        (after env config encoders tasks turns).store)) ∧
    ∀ providers, ∃ specs,
      (Chaos.active providers).run o.answers (after env config encoders tasks turns).store =
          (.ok specs, (after env config encoders tasks turns).store) ∧
        ∀ p spec, (p, spec) ∈ specs ↔ p ∈ providers ∧
          held o.now p (faultEdits tasks (deeds env config encoders tasks turns)) = some spec :=
  ⟨fun p ↦ run_get_fault (store_fault turns p) o, run_active_fault (store_fault turns) o⟩

theorem requireSecret_eq_ok {headers : Main.Headers} (h : Main.requireSecret env headers = .ok ()) :
    ∃ secret ≠ "", env "ADMIN_SECRET" = some secret ∧ headers.xAdminSecret = some secret := by
  unfold Main.requireSecret Main.requireAdmin at h
  split at h
  · cases h
  · next expected hexpected =>
    split at h
    · cases h
    · next given hgiven =>
      obtain ⟨equal, hequal, h⟩ := bind_eq_ok.mp h
      split at h
      · next heq =>
        obtain rfl : given = expected := of_decide_eq_true ((Main.compareDigest_eq_ok hequal).symm.trans heq)
        obtain ⟨hsecret, hne⟩ := Option.filter_eq_some_iff.mp hexpected
        exact ⟨given, by simpa using hne, hsecret, (Option.filter_eq_some_iff.mp hgiven).1⟩
      · cases h

/-- A fault was posted by whom the admin secret is known to, for a provider of the configuration, at
most an hour ago, and is still the last word on it. What it raises is classified as was asked for. -/
structure PostedBy (env : Environ) (config : GatewayConfig) (tasks : ι → Task) (before : List (Deed ι))
    (now : ℤ) (p : String) (spec : Chaos.ChaosSpec) : Prop where
  posted : ∃ earlier a since request headers secret, before = earlier ++ a :: since ∧
    tasks a.thread = .request ⟨.chaosSet request, headers⟩ ∧
    secret ≠ "" ∧ env "ADMIN_SECRET" = some secret ∧ headers.xAdminSecret = some secret ∧
    request.provider = p ∧ request.spec = spec ∧
    now ≤ a.outside.1.now + request.ttlS * 1000 ∧ now ≤ a.outside.1.now + 3600000 ∧
    ∀ e ∈ faultEdits tasks since, e.key ≠ p
  known : (config.providers.lookup p).isSome
  classified : spec.fault.isException = true ∧
    Outcome.ofValue? spec.errorType = some (classifyException spec.fault)

/-- Nobody ever finds a fault that was not posted so. -/
theorem faults_posted {turns : List (ι × (Outside × Fate))} {o : Outside} {p : String}
    {spec : Chaos.ChaosSpec}
    (h : ((Chaos.get p).run o.answers (after env config encoders tasks turns).store).1 = .ok (some spec)) :
    PostedBy env config tasks (deeds env config encoders tasks turns) o.now p spec := by
  rw [run_get_fault (store_fault turns p) o] at h
  have hheld : held o.now p (faultEdits tasks (deeds env config encoders tasks turns)) = some spec :=
    Except.ok.inj h
  obtain ⟨t, hlatest, ht⟩ := held_eq_some.mp hheld
  obtain ⟨edits, edits', hedits, hlast⟩ := latest_eq_some.mp hlatest
  obtain ⟨earlier, rest, hdeeds, rfl, hrest⟩ := List.filterMap_eq_append_iff.mp hedits
  obtain ⟨idle, a, since, rfl, -, hedit, rfl⟩ := List.filterMap_eq_cons_iff.mp hrest
  have hmem : a ∈ deeds env config encoders tasks turns := by simp [hdeeds]
  obtain ⟨request, ⟨⟨headers, htask, hsecret⟩, hknown, hsound⟩, hkey, rfl, rfl⟩ :=
    editOf_eq_some (bears_of_issues (within_deeds env config encoders tasks turns a hmem)) hedit rfl
  obtain ⟨secret, hne, hset, hgiven⟩ := requireSecret_eq_ok hsecret
  obtain rfl : p = request.provider := hkey
  have hhour : request.ttlS * 1000 ≤ 3600000 := by
    have := request.ttlS_bounds.2
    omega
  exact ⟨⟨earlier ++ idle, a, since, request, headers, secret, by simp [hdeeds], htask, hne, hset, hgiven, rfl,
    rfl, ht, by omega, hlast⟩, hknown, hsound.classify_fault⟩

end Registry

section Worlds

theorem half_bounds : 0 ≤ (⟨5, 0⟩ : Numerals.Decimal).toRat ∧ (⟨5, 0⟩ : Numerals.Decimal).toRat ≤ 1 := by
  norm_num [Numerals.Decimal.toRat]

def flaky : ChaosRequest where
  provider := "groq"
  errorRate := ⟨5, 0⟩
  errorType := "timeout"
  ttlS := 60
  errorRate_bounds := half_bounds
  latencyMs_bounds := by decide
  ttlS_bounds := by decide

def adminEnv : Environ := fun name ↦ if name = "ADMIN_SECRET" then some "s3cret" else none

def adminHeaders : Main.Headers := { xAdminSecret := some "s3cret" }

/-- A fault is posted while the faults are listed. -/
def drill : Bool → Task
  | true => .request ⟨.chaosSet flaky, adminHeaders⟩
  | false => .request ⟨.chaosList, adminHeaders⟩

def drillTurns : List (Bool × (Outside × Fate)) :=
  [(false, { now := 0 }, .answered), (true, { now := 1000 }, .answered), (false, { now := 2000 }, .answered)]

deriving instance DecidableEq for Chaos.ChaosSpec

theorem faults_posted_drill :
    PostedBy adminEnv .shipped drill (deeds adminEnv .shipped {} drill drillTurns) 61000 "groq"
      flaky.spec := by
  have hheld : held 61000 "groq" (faultEdits drill (deeds adminEnv .shipped {} drill drillTurns)) =
      some flaky.spec := by decide +kernel
  have hstore : (after adminEnv .shipped {} drill drillTurns).store (Chaos.key "groq") = _ :=
    store_fault drillTurns "groq"
  exact faults_posted (o := { now := 61000 }) (by rw [run_get_fault hstore, hheld])

end Worlds

end HealingGateway.Service
