import HealingGateway.Completions
import HealingGateway.Footprint
import HealingGateway.Library.Leases
import HealingGateway.Rendering

namespace HealingGateway.Main

open Programs Programs.Prog JsonText Leases Idempotency Router

def Apart (c : Cmd) : Prop := ∀ l, slotKey l ∉ c.keys

theorem apart_quiet {c : Cmd} (h : c.quiet = true) : Apart c := by
  intro l hl
  rw [c.keys_of_quiet h] at hl
  cases hl

theorem apart_own {c : Cmd} (h : Router.Own c) : Apart c := by
  intro l hl
  have hne : ∀ p, slotKey l ≠ Breaker.key p ∧ slotKey l ≠ Health.key p ∧ slotKey l ≠ Chaos.key p := by
    intro p
    simp [slotKey, Breaker.key, Health.key, Chaos.key, ← String.toList_inj]
  obtain ⟨p, hp | hp | hp⟩ := h _ hl
  · exact (hne p).1 hp
  · exact (hne p).2.1 hp
  · exact (hne p).2.2 hp

/-- What a request issues while it is served. -/
def Serves (c : Cmd) : Prop := Apart c ∧ c.counts = false

theorem serves_inward (c : Cmd) (h : c.inward = true) : Serves c :=
  ⟨apart_quiet (Cmd.quiet_of_inward h), Cmd.counts_of_inward h⟩

section Serve

variable {env : Environ} {config : GatewayConfig} {schedule : RaceSchedule} {r : ChatRequest}

theorem only_accept (metadata : RequestMetadata) (request : Schemas.ChatCompletionRequest) :
    (accept config metadata request).Only Serves := by
  refine Only.bind ?_ (fun jobId ↦ trivial)
  refine Only.bind (only_nowMs (serves_inward _ rfl)) (fun now ↦ ?_)
  refine Only.bind (only_ask (serves_inward _ rfl)) (fun u ↦ ?_)
  refine Only.bind (only_redis ⟨fun l ↦ ?_, rfl⟩) (fun _ ↦ trivial)
  simp [Cmd.keys, Redis.Command.keys, Queue.enqueueWrites, Redis.Write.key, slotKey, Queue.key,
    Queue.ready, ← String.toList_inj]

theorem only_answer {allowed : Cmd → Prop} (h : ∀ c : Cmd, c.inward = true → allowed c)
    (routed : Router.RouteOutcome) : (answer r routed).Only allowed := by
  unfold answer
  split
  · exact Only.bind (only_ofExcept _) (fun _ ↦ trivial)
  · split
    · have hinward := Schemas.only_toOpenaiResponse ‹_› r.metadata routed.attempts
      exact Only.bind (hinward.mono h) (fun _ ↦ trivial)
    · exact Only.bind (only_ofExcept _) (fun _ ↦ trivial)

theorem serves_serve : (serve env config schedule r).Only Serves := by
  refine Only.bind (only_ofExcept _) (fun deferred ↦ ?_)
  split
  · exact only_accept _ _
  · refine Only.bind (only_ofExcept _) (fun ladder ↦ ?_)
    have hserves : ∀ c, Router.Walks c → Serves c := fun c hc ↦ ⟨apart_own hc.1, hc.2⟩
    exact Only.bind ((Router.only_route schedule).mono hserves)
      (fun routed ↦ only_answer serves_inward routed)

theorem only_serve : (serve env config schedule r).Only Apart := serves_serve.mono (fun _ hc ↦ hc.1)

end Serve

/-- The key a request is served under, by what it is filed under. -/
def ChatRequest.slot (r : ChatRequest) : Option String :=
  if r.body.stream then none else r.key.map (label r.metadata.tenant)

/-- What a request has seen of its key. -/
structure Stage where
  slot : Option String
  phase : Phase String

/-- What the reply to one command tells a request about its key. -/
def Stage.watch (v : Stage) : (c : Cmd) → Reply c → Stage
  | .redis (.set key text nx _), .ok took =>
    if some key ≠ v.slot.map slotKey then v
    else { v with phase := if nx then (if took then .holding else .refused) else .settled text }
  | .redis (.get key), .ok found =>
    if some key ≠ v.slot.map slotKey then v else { v with phase := .told found }
  | .redis (.delete key), .ok _ =>
    if some key ≠ v.slot.map slotKey then v else { v with phase := .freed }
  | _, _ => v

inductive Keeps (ttlS : ℤ) : Stage → Cmd → Prop
  | apart {v : Stage} {c : Cmd} (hv : v.slot = none ∨ v.phase = .holding) (hc : Apart c) :
      Keeps ttlS v c
  | claim (l : String) : Keeps ttlS ⟨some l, .idle⟩ (.redis (.set (slotKey l) inFlight true ttlS))
  | look (l : String) : Keeps ttlS ⟨some l, .refused⟩ (.redis (.get (slotKey l)))
  | store (l text : String) :
      Keeps ttlS ⟨some l, .holding⟩ (.redis (.set (slotKey l) text false ttlS))
  | release (l : String) : Keeps ttlS ⟨some l, .holding⟩ (.redis (.delete (slotKey l)))

def answered : (c : Cmd) → Reply c → Prop
  | .redis _, r => r.isOk = true
  | _, _ => True

def keyProtocol (config : GatewayConfig) : Protocol Cmd Reply Stage where
  allowed := Keeps config.queue.idempotencyTtlS
  possible := fun _ c r ↦ ¬ Apart c → 0 < config.queue.idempotencyTtlS → answered c r
  watch := fun v _ c r ↦ v.watch c r

def Ends (ttlS : ℤ) (v : Stage) (ended : Except Exn Response) : Prop :=
  match v.slot, v.phase with
  | none, _ => True
  | some _, .told found => ended = replay (orInFlight found)
  | some _, .settled text => ∃ status body, status < 400 ∧ text = envelope status body ∧
      ended = .ok { status, body }
  | some _, .freed => ∀ response, ended = .ok response → 400 ≤ response.status
  | some _, _ => ttlS ≤ 0 ∧ ∃ e, ended = .error e

section Watch

variable {v : Stage} {c : Cmd} {l : String}

@[simp] theorem Stage.watch_slot (v : Stage) (c : Cmd) (r : Reply c) : (v.watch c r).slot = v.slot := by
  unfold Stage.watch
  split
  all_goals first | rfl | (split <;> rfl)

theorem Stage.watch_apart (hc : Apart c) (r : Reply c) : v.watch c r = v := by
  have hne : ∀ key, key ∈ c.keys → some key ≠ v.slot.map slotKey := by
    intro key hkey h
    obtain ⟨l, -, rfl⟩ := Option.map_eq_some_iff.mp h.symm
    exact hc l hkey
  unfold Stage.watch
  split
  · rw [if_pos (hne _ (by simp [Cmd.keys, Redis.Command.keys]))]
  · rw [if_pos (hne _ (by simp [Cmd.keys, Redis.Command.keys]))]
  · rw [if_pos (hne _ (by simp [Cmd.keys, Redis.Command.keys]))]
  · rfl

end Watch

section Requests

variable (env : Environ) (config : GatewayConfig) (schedule : RaceSchedule) (r : ChatRequest)

theorem ttlS_of_error {v : Stage} {c : Redis.Command} (l : String) (hl : slotKey l ∈ c.keys)
    {e : Exn} (h : (keyProtocol config).possible v (.redis c) (.error e)) :
    config.queue.idempotencyTtlS ≤ 0 := by
  by_contra httl
  have hok : answered (.redis c) (.error e) := h (fun h ↦ h l hl) (not_le.mp httl)
  cases hok

theorem obeys_claim {l tenant k : String} (hl : l = label tenant k) :
    (claim tenant k config.queue.idempotencyTtlS).Obeys (keyProtocol config) ⟨some l, .idle⟩
      (fun v stored ↦ match stored with
        | .ok none => v = ⟨some l, .holding⟩
        | .ok (some text) => ∃ found, v = ⟨some l, .told found⟩ ∧ text = orInFlight found
        | .error _ => config.queue.idempotencyTtlS ≤ 0 ∧
            (v = ⟨some l, .idle⟩ ∨ v = ⟨some l, .refused⟩)) := by
  rw [claim, obeys_bind, obeys_redis, key_eq, ← hl]
  refine ⟨.claim l, fun owned howned ↦ ?_⟩
  cases owned with
  | error e => exact ⟨ttlS_of_error config l (by simp [Redis.Command.keys]) howned, .inl rfl⟩
  | ok owned =>
    cases owned with
    | true => simp [keyProtocol, Stage.watch]
    | false =>
      have hrefused : (keyProtocol config).watch ⟨some l, .idle⟩ false
          (.redis (.set (slotKey l) inFlight true config.queue.idempotencyTtlS)) (.ok false) =
            ⟨some l, .refused⟩ := by
        simp [keyProtocol, Stage.watch]
      simp only [hrefused, obeys_bind]
      rw [obeys_redis]
      refine ⟨.look l, fun stored hstored ↦ ?_⟩
      cases stored with
      | error e => exact ⟨ttlS_of_error config l (by simp [Redis.Command.keys]) hstored, .inr rfl⟩
      | ok found => exact ⟨found, by simp [keyProtocol, Stage.watch], rfl⟩

theorem obeys_release {l tenant k : String} (hl : l = label tenant k) :
    (release tenant k).Obeys (keyProtocol config) ⟨some l, .holding⟩
      (fun v ended ↦ match ended with
        | .ok _ => v = ⟨some l, .freed⟩
        | .error _ => config.queue.idempotencyTtlS ≤ 0 ∧ v = ⟨some l, .holding⟩) := by
  rw [release, obeys_bind, obeys_redis, key_eq, ← hl]
  refine ⟨.release l, fun reply hreply ↦ ?_⟩
  cases reply with
  | error e => exact ⟨ttlS_of_error config l (by simp [Redis.Command.keys]) hreply, rfl⟩
  | ok _ => simp [keyProtocol, Stage.watch]

theorem obeys_store {l tenant k : String} (hl : l = label tenant k) (status : ℤ) (body : Json) :
    (store tenant k status body config.queue.idempotencyTtlS).Obeys (keyProtocol config)
      ⟨some l, .holding⟩
      (fun v ended ↦ match ended with
        | .ok _ => v = ⟨some l, .settled (envelope status body)⟩
        | .error _ => config.queue.idempotencyTtlS ≤ 0 ∧ v = ⟨some l, .holding⟩) := by
  rw [store, obeys_bind, obeys_redis, key_eq, ← hl]
  refine ⟨.store l _, fun reply hreply ↦ ?_⟩
  cases reply with
  | error e => exact ⟨ttlS_of_error config l (by simp [Redis.Command.keys]) hreply, rfl⟩
  | ok _ => simp [keyProtocol, Stage.watch]

theorem obeys_underClaim {l tenant k : String} (hl : l = label tenant k)
    {work : Gateway (ℤ × Json)} (hwork : work.Only Apart) :
    (underClaim config tenant k work).Obeys (keyProtocol config) ⟨some l, .holding⟩
      (Ends config.queue.idempotencyTtlS) := by
  have hunseen : work.Obeys (keyProtocol config) ⟨some l, .holding⟩
      (fun v _ ↦ v = ⟨some l, .holding⟩) :=
    hwork.obeys_unseen (fun c hc ↦ ⟨.apart (.inr rfl) hc, fun _ r ↦ Stage.watch_apart hc r⟩)
  have hfail : ∀ v e, config.queue.idempotencyTtlS ≤ 0 ∧ v = (⟨some l, .holding⟩ : Stage) →
      Ends config.queue.idempotencyTtlS v (.error e) := by
    intro v e h
    obtain ⟨httl, rfl⟩ := h
    exact ⟨httl, e, rfl⟩
  rw [underClaim, obeys_bind, obeys_tryExcept]
  apply hunseen.mono
  intro v served hv
  subst hv
  cases served with
  | error e =>
    simp only [if_true]
    refine Obeys.bind (obeys_release config hl) (fun v a hv ↦ ?_) hfail
    subst hv
    intro response he
    cases he
  | ok served =>
    simp only
    split
    · next hstatus =>
      refine Obeys.bind (obeys_store config hl _ _) (fun v a hv ↦ ?_) hfail
      subst hv
      exact ⟨served.1, served.2, hstatus, rfl, rfl⟩
    · next hstatus =>
      refine Obeys.bind (obeys_release config hl) (fun v a hv ↦ ?_) hfail
      subst hv
      intro response he
      cases he
      exact Int.not_lt.mp hstatus

theorem obeys_chatCompletions :
    (chatCompletions env config schedule r).Obeys (keyProtocol config) ⟨r.slot, .idle⟩
      (Ends config.queue.idempotencyTtlS) := by
  unfold chatCompletions ChatRequest.slot
  split
  · trivial
  · cases hkey : r.key with
    | none =>
      have hserve : (serve env config schedule r).Obeys (keyProtocol config) ⟨none, .idle⟩
          (fun v _ ↦ v = ⟨none, .idle⟩) :=
        only_serve.obeys_unseen
          (fun c hc ↦ ⟨.apart (.inl rfl) hc, fun _ r ↦ Stage.watch_apart hc r⟩)
      refine Obeys.bind hserve (fun v a hv ↦ ?_) (fun v e hv ↦ ?_)
      all_goals
        subst hv
        trivial
    | some k =>
      refine Obeys.bind (obeys_claim config rfl) (fun v stored hstored ↦ ?_) (fun v e h ↦ ?_)
      · cases stored with
        | none =>
          simp only at hstored
          subst hstored
          exact obeys_underClaim config rfl only_serve
        | some text =>
          obtain ⟨found, rfl, rfl⟩ := hstored
          rw [obeys_ofExcept]
          rfl
      · obtain ⟨httl, rfl | rfl⟩ := h
        all_goals exact ⟨httl, e, rfl⟩

end Requests

end HealingGateway.Main
