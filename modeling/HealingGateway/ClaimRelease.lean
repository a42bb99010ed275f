import HealingGateway.FailOpen
import HealingGateway.KeyIsolation
import HealingGateway.Library.Runs

namespace HealingGateway.Main

open Programs Programs.Prog JsonText Idempotency Router

/-- A world where one text stands under a key: what names no key leaves it, a release takes it
away, and storing another replaces it or fails to. -/
structure KeepsKey {σ : Type} (h : Handler Cmd Reply σ) (text : σ → Option String) (l : String) :
    Prop where
  apart : ∀ c s, Apart c → text (h c s).2 = text s
  released : ∀ s, ((h (.redis (.delete (slotKey l))) s).1).isOk = true ∧
    text (h (.redis (.delete (slotKey l))) s).2 = none
  stored : ∀ new ex s, text (h (.redis (.set (slotKey l) new false ex)) s).2 = some new ∨
    text (h (.redis (.set (slotKey l) new false ex)) s).2 = text s ∧
      ((h (.redis (.set (slotKey l) new false ex)) s).1).isOk = false

section Release

variable {σ : Type} (env : Environ) (config : GatewayConfig) (schedule : RaceSchedule)
  (r : ChatRequest) (k : String) (cut : Option (ℕ × Exn)) (h : Handler Cmd Reply σ)
  (text : σ → Option String) (s : σ)

def owned : Gateway Response :=
  underClaim config r.metadata.tenant k (interrupted cut (serve env config schedule r))

/-- The key is free in the end, or holds what the request came to. -/
def LeavesNoClaim : Prop :=
  text ((owned env config schedule r k cut).run h s).2 = none ∨
    ∃ status body s', (interrupted cut (serve env config schedule r)).run h s =
        (.ok (status, body), s') ∧
      text ((owned env config schedule r k cut).run h s).2 = some (envelope status body)

def Lands (l : String) (c : Cmd) (s : σ) : Prop :=
  ∀ new ex, c = .redis (.set (slotKey l) new false ex) → text (h c s).2 = some new

variable {env config schedule r k cut h text s} {l : String}

theorem lands_apart {c : Cmd} (hc : Apart c) (s : σ) : Lands h text l c s := by
  rintro new ex rfl
  exact absurd (by simp [Cmd.keys, Redis.Command.keys]) (hc l)

def settleClaim (config : GatewayConfig) (tenant k : String) :
    Except Exn (ℤ × Json) → Gateway Response
  | .ok served => do
    if served.1 < 400 then store tenant k served.1 served.2 config.queue.idempotencyTtlS
    else release tenant k
    return { status := served.1, body := served.2 }
  | .error e => do
    release tenant k
    throw e

theorem underClaim_eq (config : GatewayConfig) (tenant k : String) (work : Gateway (ℤ × Json)) :
    underClaim config tenant k work = work.outcome >>= settleClaim config tenant k := by
  simp only [underClaim, tryExcept, LawfulMonad.bind_assoc]
  congr 1
  funext ended
  cases ended with
  | ok served => rfl
  | error e =>
    simp only [if_true, LawfulMonad.bind_assoc]
    rfl

section Keeps

variable {tenant : String} (hkeeps : KeepsKey h text (label tenant k))
include hkeeps

theorem KeepsKey.run_release (s : σ) :
    ∃ s', (release tenant k).run h s = (.ok (), s') ∧ text s' = none := by
  obtain ⟨hok, hnone⟩ := hkeeps.released s
  rw [release, key_eq]
  cases hreply : (h (.redis (.delete (slotKey (label tenant k)))) s).1 with
  | error e =>
    rw [hreply] at hok
    cases hok
  | ok b =>
    refine ⟨_, ?_, hnone⟩
    rw [run_bind_ok (a := b) h (by rw [run_redis, hreply])]
    rfl

omit hkeeps in
theorem run_store (status : ℤ) (body : Json) (ttlS : ℤ) (s : σ) :
    ((store tenant k status body ttlS).run h s).2 =
        (h (.redis (.set (slotKey (label tenant k)) (envelope status body) false ttlS)) s).2 ∧
      ((store tenant k status body ttlS).Meets h (Lands h text (label tenant k)) s ↔
        text (h (.redis (.set (slotKey (label tenant k)) (envelope status body) false ttlS)) s).2 =
          some (envelope status body)) := by
  rw [store, key_eq]
  simp only [redis, ask_bind, call_bind, run_call, Meets]
  constructor
  · cases (h (.redis (.set (slotKey (label tenant k)) (envelope status body) false ttlS)) s).1 <;> rfl
  · constructor
    · intro hlands
      exact hlands.1 _ _ rfl
    · intro hland
      refine ⟨fun new ex he ↦ ?_, ?_⟩
      · cases he
        exact hland
      · cases (h (.redis (.set (slotKey (label tenant k)) (envelope status body) false ttlS)) s).1 <;>
          trivial

omit hkeeps in
theorem meets_release (s : σ) :
    (release tenant k).Meets h (Lands h text (label tenant k)) s := by
  rw [release, key_eq]
  simp only [redis, ask_bind, call_bind, Meets]
  refine ⟨fun new ex he ↦ (by cases he), ?_⟩
  cases (h (.redis (.delete (slotKey (label tenant k)))) s).1 <;> trivial

theorem KeepsKey.settled (hs : text s = some inFlight) (ended : Except Exn (ℤ × Json)) :
    (text ((settleClaim config tenant k ended).run h s).2 = none ∨
        ∃ status body, ended = .ok (status, body) ∧
          text ((settleClaim config tenant k ended).run h s).2 = some (envelope status body)) ↔
      (settleClaim config tenant k ended).Meets h (Lands h text (label tenant k)) s := by
  obtain ⟨s', hrelease, hfree⟩ := hkeeps.run_release s
  have hmeets : (release tenant k).Meets h (Lands h text (label tenant k)) s := meets_release s
  cases ended with
  | error e =>
    simp only [settleClaim]
    rw [run_bind_ok h hrelease, meets_bind_ok hrelease]
    exact iff_of_true (.inl hfree) ⟨hmeets, trivial⟩
  | ok served =>
    obtain ⟨status, body⟩ := served
    simp only [settleClaim, pure_eq]
    split
    · obtain ⟨hrun, hstore⟩ : _ ∧ ((store tenant k status body config.queue.idempotencyTtlS).Meets h
          (Lands h text (label tenant k)) s ↔ _) :=
        run_store status body config.queue.idempotencyTtlS s
      rw [run_bind_done, meets_bind_done, hrun, hstore]
      constructor
      · intro hleft
        rcases hkeeps.stored (envelope status body) config.queue.idempotencyTtlS s with
          hland | ⟨hsame, -⟩
        · exact hland
        · rw [hsame, hs] at hleft
          rcases hleft with hnone | ⟨status', body', -, henvelope⟩
          · cases hnone
          · exact absurd (Option.some.inj henvelope).symm (envelope_ne_inFlight _ _)
      · intro hland
        exact .inr ⟨status, body, rfl, hland⟩
    · rw [run_bind_ok h hrelease, meets_bind_ok hrelease]
      exact iff_of_true (.inl hfree) ⟨hmeets, trivial⟩

end Keeps

/-- A request that took a claim leaves none behind exactly when the response it stores gets
there. -/
theorem leavesNoClaim_iff_lands (hkeeps : KeepsKey h text (label r.metadata.tenant k))
    (hs : text s = some inFlight) :
    LeavesNoClaim env config schedule r k cut h text s ↔
      (owned env config schedule r k cut).Meets h (Lands h text (label r.metadata.tenant k)) s := by
  have hapart : (interrupted cut (serve env config schedule r)).Only Apart :=
    only_serve.interrupted cut
  have hclaimed : text ((interrupted cut (serve env config schedule r)).run h s).2 = some inFlight := by
    rw [hapart.run_frame (fun c s hc ↦ hkeeps.apart c s hc), hs]
  have houtcome := run_outcome h (interrupted cut (serve env config schedule r)) s
  rw [LeavesNoClaim, owned, underClaim_eq, run_bind_ok h houtcome, meets_bind_ok houtcome,
    and_iff_right (hapart.outcome.meets (fun c s hc ↦ lands_apart hc s) s),
    ← hkeeps.settled hclaimed]
  refine or_congr_right ⟨?_, ?_⟩
  · rintro ⟨status, body, s', hrun, htext⟩
    exact ⟨status, body, congrArg Prod.fst hrun, htext⟩
  · rintro ⟨status, body, hended, htext⟩
    exact ⟨status, body, _, Prod.ext hended rfl, htext⟩

end Release

def textAt (l : String) (db : Redis.Db) : Option String := (entryOf (db (slotKey l))).map Prod.fst

theorem keepsKey_refusing {refuses : Redis.Command → Bool}
    (hrefuses : ∀ key, refuses (.delete key) = false) (e : Exn) (o : Outside) (l : String) :
    KeepsKey (refusing refuses e o) (textAt l) l where
  apart c db hc := by
    have hframe := o.answers_frame (hc l) db
    cases c with
    | redis c =>
      simp only [refusing, textAt]
      split
      · rfl
      · rw [hframe]
    | _ => exact congrArg (fun entry ↦ (entryOf entry).map Prod.fst) hframe
  released db := by
    simp only [refusing, hrefuses, Bool.false_eq_true, if_false]
    obtain ⟨b, hb⟩ := answers_delete o db (slotKey l)
    rw [hb]
    exact ⟨rfl, by simp [textAt, entryOf]⟩
  stored new ex db := by
    simp only [refusing]
    split
    · exact .inr ⟨rfl, rfl⟩
    · by_cases hex : ex ≤ 0
      · exact .inr (by simp [Outside.answers, Redis.exec, hex, Except.mapError, Except.isOk, Except.toBool])
      · exact .inl (by simp [Outside.answers, Redis.exec, hex, textAt, entryOf])

def storeRefused : Handler Cmd Reply Redis.Db :=
  refusing (fun c ↦ match c with | .set _ _ nx _ => !nx | _ => false) connectionError { now := 0 }

def claimed (l : String) : Redis.Db :=
  Function.update (fun _ ↦ none) (slotKey l) (some ⟨.str inFlight, some 86400000⟩)

theorem leavesNoClaim_iff_lands_cancelled :
    LeavesNoClaim (fun _ ↦ none) .shipped ⟨0, [], 0⟩ (keyed "acme" "order").request "order"
        (some (2, .cancelled)) storeRefused (textAt "acme:order") (claimed "acme:order") ↔
      (owned (fun _ ↦ none) .shipped ⟨0, [], 0⟩ (keyed "acme" "order").request "order"
        (some (2, .cancelled))).Meets storeRefused (Lands storeRefused (textAt "acme:order") "acme:order")
        (claimed "acme:order") :=
  leavesNoClaim_iff_lands (keepsKey_refusing (fun _ ↦ rfl) _ _ _) (by decide +kernel)

/-- The job is enqueued and the key stays claimed. -/
theorem storeRefused_leaves_claim :
    textAt "acme:order" ((owned (fun _ ↦ none) .shipped ⟨0, [], 0⟩ (keyed "acme" "order").request "order"
        none).run storeRefused (claimed "acme:order")).2 = some inFlight ∧
      ¬ LeavesNoClaim (fun _ ↦ none) .shipped ⟨0, [], 0⟩ (keyed "acme" "order").request "order" none
        storeRefused (textAt "acme:order") (claimed "acme:order") := by
  have htext : textAt "acme:order" ((owned (fun _ ↦ none) .shipped ⟨0, [], 0⟩
      (keyed "acme" "order").request "order" none).run storeRefused (claimed "acme:order")).2 =
        some inFlight := by
    decide +kernel
  refine ⟨htext, fun h ↦ ?_⟩
  rw [LeavesNoClaim, htext] at h
  rcases h with h | ⟨status, body, -, -, henvelope⟩
  · cases h
  · exact envelope_ne_inFlight _ _ (Option.some.inj henvelope).symm

end HealingGateway.Main
