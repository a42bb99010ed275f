import HealingGateway.MonitorStore
import HealingGateway.Library.Protocols

namespace HealingGateway.Breaker

open Programs Programs.Prog Numerals Redis

/-- What one task does to a provider's circuit or window, going by its own clock. -/
inductive Task
  | stateOf
  | allows
  | record (outcome : Outcome)
  | healthRecord (outcome : Outcome) (latencyMs : ℚ)

def Task.body (config : GatewayConfig) (provider : String) : Task → Gateway Unit
  | stateOf => do let _ ← Breaker.stateOf config provider none
  | allows => do let _ ← Breaker.allows config provider none
  | record outcome => Breaker.record config provider outcome none
  | healthRecord outcome latencyMs => Health.record config provider outcome latencyMs none none

def CircuitState.circuit? (s : CircuitState) : Option Circuit :=
  match s.state, s.openedAtMs with
  | .closed, _ => some .closed
  | .halfOpen, _ => some (.halfOpen s.cooldownS s.probeSuccesses)
  | .opened, some t => some (.opened t s.cooldownS)
  | .opened, none => none

/-- What a task goes by: its clock, and the circuit as it last read or wrote it. -/
structure View where
  now : Option ℤ := none
  seen : Option Circuit := none

section

variable (config : GatewayConfig) (provider : String)

def spelled (raw : List (String × String)) : Option Circuit :=
  match readCircuit config provider raw with
  | .ok s => s.circuit?
  | .error _ => none

def transition : Cmd → Option Circuit
  | .redis (.write (.hset k new)) =>
    if k = key provider ∧ (new.lookup "state").isSome then
      spelled config provider (Dicts.merge [] new)
    else none
  | _ => none

def View.watch (v : View) : (c : Cmd) → Reply c → View
  | .time, t => { v with now := some ((t : ℚ) * 1000).floor }
  | .redis (.hgetall k), .ok raw =>
    if k = key provider then { v with seen := spelled config provider raw } else v
  | c, _ => { v with seen := (transition config provider c).or v.seen }

def Circuit.fields (c : Circuit) : List (String × String) :=
  Breaker.fields c.state c.openedAt (c.cooldown config)

/-- The transitions open to a task that goes by `v`. -/
def View.May (v : View) : Circuit → Prop
  | .closed => ∃ cooldown n, v.seen = some (.halfOpen cooldown n)
  | .opened t _ => v.now = some t ∧
      (v.seen = some .closed ∨ ∃ cooldown n, v.seen = some (.halfOpen cooldown n))
  | .halfOpen cooldown n => n = 0 ∧ ∃ now t, v.now = some now ∧
      v.seen = some (.opened t cooldown) ∧ cooldown.toRat ≤ elapsedS now t

def View.allowed (v : View) : Cmd → Prop
  | .redis (.write (.hset k new)) => k = key provider →
      (∃ c, v.May c ∧ new = c.fields config) ∨ ∃ n, new = [("probe_successes", intString n)]
  | .redis c => key provider ∈ c.keys → c.reads = true
  | _ => True

def protocol : Protocol Cmd Reply View where
  allowed := View.allowed config provider
  watch v _ := View.watch config provider v

end

section Obedience

variable {config : GatewayConfig} {provider : String} {v : View} {now : ℤ}

theorem spelled_fields (c : Circuit) (hn : c.successes = 0) :
    spelled config provider (Dicts.merge [] (c.fields config)) = some c := by
  rw [spelled, Circuit.fields, readCircuit_fields]
  cases c with
  | closed => rfl
  | opened t cooldown => rfl
  | halfOpen cooldown n =>
    obtain rfl : n = 0 := hn
    rfl

theorem transition_fields (c : Circuit) (hn : c.successes = 0) :
    transition config provider (.redis (.write (.hset (key provider) (c.fields config)))) =
      some c := by
  rw [transition, if_pos ⟨rfl, by simp [Circuit.fields, fields]⟩, spelled_fields c hn]

theorem View.May.successes {c : Circuit} (h : v.May c) : c.successes = 0 := by
  cases c with
  | closed => rfl
  | opened t cooldown => rfl
  | halfOpen cooldown n => exact h.1

theorem obeys_transition {c : Circuit} (hc : v.May c)
    {Q : View → Except Exn Unit → Prop} (hQ : ∀ r, Q { v with seen := some c } r) :
    (redis (.write (.hset (key provider) (c.fields config)))).Obeys (protocol config provider)
      v Q := by
  rw [obeys_redis]
  refine ⟨fun _ ↦ .inl ⟨c, hc, rfl⟩, fun r _ ↦ ?_⟩
  have hw : (protocol config provider).watch v false
      (.redis (.write (.hset (key provider) (c.fields config)))) r =
        { v with seen := some c } := by
    simp only [protocol, View.watch, transition_fields c hc.successes, Option.some_or]
  rw [hw]
  exact hQ r

theorem obeys_metric {m : Metric} {Q : View → Except Exn Unit → Prop} (hQ : Q v (.ok ())) :
    (metric m).Obeys (protocol config provider) v Q :=
  ⟨trivial, fun _ _ ↦ hQ⟩

theorem obeys_elsewhere {c : Redis.Command} (hc : key provider ∉ c.keys)
    {Q : View → Except Exn (Redis.Reply c) → Prop} (hQ : ∀ r, Q v r) :
    (redis c).Obeys (protocol config provider) v Q := by
  rw [obeys_redis]
  constructor
  · cases c with
    | write w =>
      cases w with
      | hset k new =>
        intro hk
        exact absurd (by simp [Command.keys, Write.key, hk]) hc
      | zadd | zremrangebyscore | expire => exact fun hk ↦ absurd hk hc
    | pipeline | delete | hgetall | get | set | zrangebyscore | zrange | zpopmin | zcard =>
      exact fun hk ↦ absurd hk hc
  · intro r _
    have hw : (protocol config provider).watch v false (.redis c) r = v := by
      cases c with
      | hgetall k =>
        have hk : k ≠ key provider := fun h ↦ hc (by simp [Command.keys, h])
        cases r <;> simp [protocol, View.watch, transition, hk]
      | write w =>
        cases w with
        | hset k new =>
          have hk : k ≠ key provider := fun h ↦ hc (by simp [Command.keys, Write.key, h])
          simp [protocol, View.watch, transition, hk]
        | zadd | zremrangebyscore | expire => rfl
      | pipeline | delete | get | set | zrangebyscore | zrange | zpopmin | zcard => rfl
    rw [hw]
    exact hQ r

theorem obeys_nowOr {now? : Option ℤ} (hv : ∀ now, now? = some now → v.now = some now)
    {Q : View → Except Exn ℤ → Prop}
    (hQ : ∀ v' now, v'.now = some now → (∀ now', now? = some now' → now' = now) →
      v'.seen = v.seen → Q v' (.ok now)) :
    (nowOr now?).Obeys (protocol config provider) v Q := by
  cases now? with
  | some now => exact hQ v now (hv now rfl) (fun _ h ↦ (Option.some.inj h).symm) rfl
  | none => exact ⟨trivial, fun t _ ↦ hQ _ _ rfl (by simp) rfl⟩

theorem obeys_applyCooldown {s : CircuitState} (hnow : v.now = some now) (hseen : v.seen = s.circuit?)
    {Q : View → Except Exn CircuitState → Prop}
    (hQ : ∀ v' s', v'.now = some now → v'.seen = s'.circuit? → Q v' (.ok s'))
    (herror : ∀ v' e, Q v' (.error e)) :
    (applyCooldown provider now s).Obeys (protocol config provider) v Q := by
  unfold applyCooldown
  split
  · next t hs ho =>
    have hopened : v.seen = some (.opened t s.cooldownS) := by
      rw [hseen, CircuitState.circuit?, hs, ho]
    split
    · next hcool =>
      rw [obeys_bind, enterHalfOpen, obeys_bind]
      refine obeys_transition (c := .halfOpen s.cooldownS 0)
        ⟨rfl, now, t, hnow, hopened, hcool⟩ (fun r ↦ ?_)
      cases r with
      | error e => exact herror _ e
      | ok r =>
        rw [obeys_bind]
        refine obeys_elsewhere (by simp [Command.keys, key_ne_healthKey]) (fun r ↦ ?_)
        cases r with
        | error e => exact herror _ e
        | ok r => exact hQ _ _ hnow rfl
    · refine hQ v _ hnow ?_
      rw [hopened, CircuitState.circuit?, hs, ho]
  · exact hQ v s hnow hseen

theorem obeys_stateOf {now? : Option ℤ} (hv : ∀ now, now? = some now → v.now = some now)
    {Q : View → Except Exn CircuitState → Prop}
    (hQ : ∀ v' s, (∀ now, now? = some now → v'.now = some now) → v'.seen = s.circuit? →
      Q v' (.ok s))
    (herror : ∀ v' e, Q v' (.error e)) :
    (stateOf config provider now?).Obeys (protocol config provider) v Q := by
  rw [stateOf, obeys_bind]
  refine obeys_nowOr hv (fun v₁ now hnow hnow? _ ↦ ?_)
  simp only
  rw [obeys_bind, obeys_redis]
  refine ⟨fun _ ↦ rfl, fun r _ ↦ ?_⟩
  cases r with
  | error e => exact herror _ e
  | ok raw =>
    have hw : (protocol config provider).watch v₁ false (.redis (.hgetall (key provider)))
        (.ok raw) = { v₁ with seen := spelled config provider raw } := if_pos rfl
    rw [hw]
    simp only
    cases hread : readCircuit config provider raw with
    | error e => exact herror _ e
    | ok stored =>
      rw [ofExcept_ok, done_bind, obeys_bind]
      have hseen : spelled config provider raw = stored.circuit? := by simp only [spelled, hread]
      refine obeys_applyCooldown (v := { v₁ with seen := spelled config provider raw }) hnow hseen
        (fun v₂ s hnow₂ hseen ↦ ?_) (fun v₂ e ↦ herror v₂ e)
      exact ⟨trivial, fun _ _ ↦ hQ _ s (fun now' h ↦ (hnow? now' h) ▸ hnow₂) hseen⟩

theorem obeys_openCircuit {cooldown : Decimal} (hv : v.May (.opened now cooldown))
    {Q : View → Except Exn Unit → Prop} (hQ : ∀ v r, Q v r) :
    (openCircuit provider now cooldown).Obeys (protocol config provider) v Q := by
  rw [openCircuit, obeys_bind]
  refine obeys_transition (c := .opened now cooldown) hv (fun r ↦ ?_)
  cases r with
  | error e => exact hQ _ _
  | ok r => exact obeys_metric (hQ _ _)

theorem obeys_maybeTrip (hnow : v.now = some now) (hseen : v.seen = some .closed)
    {Q : View → Except Exn Unit → Prop} (hQ : ∀ v r, Q v r) :
    (maybeTrip config provider now).Obeys (protocol config provider) v Q := by
  rw [maybeTrip]
  cases config.providers.lookup provider with
  | none => exact hQ _ _
  | some p =>
    rw [orRaise_some, done_bind, Health.snapshot, nowOr_some, done_bind, obeys_bind, obeys_bind]
    refine obeys_elsewhere (by simp [Command.keys, key_ne_healthKey]) (fun r ↦ ?_)
    cases r with
    | error e => exact hQ _ _
    | ok members =>
      simp only
      cases Health.summarise provider members with
      | error e => exact hQ _ _
      | ok snap =>
        rw [ofExcept_ok, obeys_done]
        simp only
        split
        · exact obeys_openCircuit ⟨hnow, .inl hseen⟩ hQ
        · exact hQ _ _

theorem obeys_recordProbe {s : CircuitState} {cooldown : Decimal} {n : ℤ} (hnow : v.now = some now)
    (hseen : v.seen = some (.halfOpen cooldown n)) (outcome : Outcome)
    {Q : View → Except Exn Unit → Prop} (hQ : ∀ v r, Q v r) :
    (recordProbe config provider outcome s now).Obeys (protocol config provider) v Q := by
  unfold recordProbe
  split
  · simp only
    split
    · rw [obeys_redis]
      exact ⟨fun _ ↦ .inr ⟨_, rfl⟩, fun r _ ↦ hQ _ _⟩
    · rw [obeys_bind]
      refine obeys_transition (c := .closed) ⟨cooldown, n, hseen⟩ (fun r ↦ ?_)
      cases r with
      | error e => exact hQ _ _
      | ok r => exact obeys_metric (hQ _ _)
  · split
    · exact hQ _ _
    · exact obeys_openCircuit ⟨hnow, .inr ⟨cooldown, n, hseen⟩⟩ hQ

theorem obeys_record (outcome : Outcome) {Q : View → Except Exn Unit → Prop}
    (hQ : ∀ v r, Q v r) :
    (record config provider outcome none).Obeys (protocol config provider) v Q := by
  rw [record, obeys_bind]
  refine obeys_nowOr (by simp) (fun v₁ now hnow _ _ ↦ ?_)
  simp only
  rw [obeys_bind]
  refine obeys_stateOf (by simpa using hnow) (fun v₂ s hnow₂ hseen ↦ ?_) (fun v₂ e ↦ hQ v₂ _)
  simp only
  have hnow₂ := hnow₂ now rfl
  cases hs : s.state with
  | closed =>
    apply obeys_maybeTrip hnow₂ _ hQ
    rw [hseen, CircuitState.circuit?, hs]
  | opened => exact hQ _ _
  | halfOpen =>
    apply obeys_recordProbe hnow₂ _ outcome hQ
    · exact s.cooldownS
    · exact s.probeSuccesses
    · rw [hseen, CircuitState.circuit?, hs]

theorem obeys_body (task : Task) :
    (task.body config provider).Obeys (protocol config provider) v (fun _ _ ↦ True) := by
  cases task with
  | stateOf =>
    rw [Task.body, obeys_bind]
    exact obeys_stateOf (by simp) (fun _ _ _ _ ↦ trivial) (fun _ _ ↦ trivial)
  | allows =>
    rw [Task.body, Breaker.allows, obeys_bind, obeys_bind]
    refine obeys_stateOf (by simp) (fun v s _ _ ↦ ?_) (fun _ _ ↦ trivial)
    simp only
    cases s.state with
    | closed => trivial
    | opened => trivial
    | halfOpen => exact ⟨trivial, fun _ _ ↦ trivial⟩
  | record outcome => exact obeys_record outcome (fun _ _ ↦ trivial)
  | healthRecord outcome latencyMs =>
    rw [Task.body, Health.record, obeys_bind]
    refine obeys_nowOr (by simp) (fun v now _ _ _ ↦ ⟨trivial, fun u _ ↦ ?_⟩)
    exact obeys_elsewhere (by simp [Command.keys, Health.recordWrites, Write.key, key_ne_healthKey])
      (fun _ ↦ trivial)

end Obedience

end HealingGateway.Breaker
