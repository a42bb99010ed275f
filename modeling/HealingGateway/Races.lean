import HealingGateway.Tasks
import HealingGateway.Trip
import HealingGateway.Library.Histories
import HealingGateway.Library.Pools
import Mathlib.Tactic.Linarith

namespace HealingGateway.Breaker

open Programs Programs.Prog Numerals Redis

section Turns

variable {ι : Type} [DecidableEq ι] (config : GatewayConfig) (provider : String)

/-- The tasks after some turns. Each turn is one command of one task, with what the outside
answers to it. -/
def tasksAfter (tasks : ι → Task) (db : Db) (turns : List (ι × Outside)) :
    Pool ι Cmd Reply Exn Unit View Db :=
  Pool.run (protocol config provider) Outside.answers
    ⟨fun i ↦ (tasks i).body config provider, fun _ ↦ {}, db⟩ turns

def nextTransition : Gateway Unit → Option Circuit
  | .call _ c _ => transition config provider c
  | _ => none

/-- The moves a circuit is meant to make. -/
inductive Edge : State → State → Prop
  | trip : Edge .closed .opened
  | cool : Edge .opened .halfOpen
  | recover : Edge .halfOpen .closed
  | reopen : Edge .halfOpen .opened

def Circuit.deadline : Circuit → Option ℚ
  | opened t cooldown => some (t + cooldown.toRat * 1000)
  | _ => none

/-- Whether writing `new` over `found` undoes a transition another task made: it closes over
an opening, opens over a later ending one, or starts probing a circuit that is not open. -/
def Circuit.undoes (new found : Circuit) : Bool :=
  match new, found with
  | closed, found => found.state = .opened
  | halfOpen .., found => found.state ≠ .halfOpen
  | opened t cooldown, opened t' cooldown' =>
    t + cooldown.toRat * 1000 < t' + cooldown'.toRat * 1000
  | opened .., _ => false

/-- The turn writes a transition of a task that was overtaken: the circuit is not the one
the task read or wrote last, and the transition undoes the one made in between. -/
def Overtaken (p : Pool ι Cmd Reply Exn Unit View Db) (turn : ι × Outside) : Prop :=
  ∃ new ∈ nextTransition config provider (p.rest turn.1),
    ∃ found ∈ (stored config provider turn.2 p.store).toOption.bind CircuitState.circuit?,
      (p.view turn.1).seen ≠ some found ∧ new.undoes found

instance (p : Pool ι Cmd Reply Exn Unit View Db) (turn : ι × Outside) :
    Decidable (Overtaken config provider p turn) := by
  unfold Overtaken
  infer_instance

def NeverOvertaken (tasks : ι → Task) (db : Db) (turns : List (ι × Outside)) : Prop :=
  ∀ before turn after, turns = before ++ turn :: after →
    ¬ Overtaken config provider (tasksAfter config provider tasks db before) turn

instance (tasks : ι → Task) (db : Db) (turns : List (ι × Outside)) :
    Decidable (NeverOvertaken config provider tasks db turns) :=
  inferInstanceAs (Decidable (∀ _ _ _, _))

/-- The persisted state moves along the edges only, and stays open while a cooldown it
was ever opened with runs. -/
structure Safe (tasks : ι → Task) (db : Db) (turns : List (ι × Outside)) : Prop where
  edges : ∀ before i o after, turns = before ++ (i, o) :: after →
    ∃ s s', persisted config provider o (tasksAfter config provider tasks db before).store =
        .ok s ∧
      persisted config provider o
        (tasksAfter config provider tasks db (before ++ [(i, o)])).store = .ok s' ∧
      (s' = s ∨ Edge s s')
  stays : ∀ before during i o after c t, turns = before ++ during ++ (i, o) :: after →
    stored config provider o (tasksAfter config provider tasks db before).store = .ok c →
    c.state = .opened → c.openedAtMs = some t → elapsedS o.now t < c.cooldownS.toRat →
    persisted config provider o
      (tasksAfter config provider tasks db (before ++ during ++ [(i, o)])).store = .ok .opened

def StandsFor (c : Circuit) (db : Db) : Prop :=
  ∃ raw, HashAt db (key provider) raw ∧ spelled config provider raw = some c

/-- One command moves the circuit along an edge at most, and no open circuit away from its
deadline. -/
structure Moves (now : ℤ) (c c' : Circuit) : Prop where
  edge : c'.state = c.state ∨ Edge c.state c'.state
  stays : ∀ d, c.deadline = some d → now < d → ∃ d', c'.deadline = some d' ∧ d ≤ d'

variable {config provider} {c : Circuit} {db : Db} {o : Outside} {v : View} {now : ℤ}

theorem CircuitAt.standsFor (h : CircuitAt config provider c db) :
    StandsFor config provider c db := by
  obtain ⟨raw, hraw, hread⟩ := h
  refine ⟨raw, hraw, ?_⟩
  rw [spelled, hread]
  cases c <;> rfl

theorem circuit?_state {s : CircuitState} (h : s.circuit? = some c) : s.state = c.state := by
  unfold CircuitState.circuit? at h
  split at h <;> cases h <;> assumption

theorem StandsFor.stored (h : StandsFor config provider c db) (o : Outside) :
    ∃ s, stored config provider o db = .ok s ∧ s.circuit? = some c := by
  obtain ⟨raw, hraw, hspell⟩ := h
  rw [spelled] at hspell
  simp only [Breaker.stored, hraw.asHash, Except.mapError, Except.bind]
  cases hread : readCircuit config provider raw with
  | error e => rw [hread] at hspell; cases hspell
  | ok s => exact ⟨s, rfl, by rwa [hread] at hspell⟩

theorem StandsFor.persisted (h : StandsFor config provider c db) (o : Outside) :
    persisted config provider o db = .ok c.state := by
  obtain ⟨s, hs, hc⟩ := h.stored o
  rw [Breaker.persisted, hs]
  exact congrArg Except.ok (circuit?_state hc)

theorem Moves.refl (now : ℤ) (c : Circuit) : Moves now c c :=
  ⟨.inl rfl, fun d hd _ ↦ ⟨d, hd, le_rfl⟩⟩

theorem cooled_deadline {cooldown : Decimal} {u t : ℤ} (h : cooldown.toRat ≤ elapsedS u t)
    (hu : u ≤ now) : (t : ℚ) + cooldown.toRat * 1000 ≤ now := by
  have hle : cooldown.toRat * 1000 ≤ ((u - t : ℤ) : ℚ) := by
    rwa [elapsedS, le_div_iff₀ (by norm_num)] at h
  have hnow : (u : ℚ) ≤ now := by exact_mod_cast hu
  push_cast at hle
  linarith

theorem View.May.moves {new : Circuit} (hmay : v.May new)
    (hclock : ∀ t, v.now = some t → t ≤ now)
    (h : v.seen ≠ some c → new.undoes c = false) : Moves now c new := by
  cases new with
  | closed =>
    obtain ⟨cooldown, n, hseen⟩ := hmay
    cases c with
    | closed => exact .refl _ _
    | halfOpen => exact ⟨.inr .recover, nofun⟩
    | opened => cases h (by rw [hseen]; nofun)
  | halfOpen cooldown n =>
    obtain ⟨-, u, t, hu, hseen, hcool⟩ := hmay
    by_cases heq : v.seen = some c
    · rw [hseen] at heq
      cases heq
      refine ⟨.inr .cool, fun d hd hlt ↦ absurd hlt (not_lt.mpr ?_)⟩
      obtain rfl := Option.some.inj hd
      exact cooled_deadline hcool (hclock u hu)
    · cases c with
      | closed => cases h heq
      | opened => cases h heq
      | halfOpen => exact ⟨.inl rfl, nofun⟩
  | opened t cooldown =>
    obtain ⟨-, hseen⟩ := hmay
    cases c with
    | closed => exact ⟨.inr .trip, nofun⟩
    | halfOpen => exact ⟨.inr .reopen, nofun⟩
    | opened t' cooldown' =>
      refine ⟨.inl rfl, fun d' hd' _ ↦ ⟨_, rfl, ?_⟩⟩
      obtain rfl := Option.some.inj hd'
      have hundoes := h (by rcases hseen with hseen | ⟨_, _, hseen⟩ <;> rw [hseen] <;> nofun)
      simpa [Circuit.undoes] using hundoes

theorem StandsFor.congr {db' : Db} (h : StandsFor config provider c db)
    (hk : db' (key provider) = db (key provider)) : StandsFor config provider c db' := by
  obtain ⟨raw, hraw, hspell⟩ := h
  exact ⟨raw, hraw.congr hk, hspell⟩

theorem StandsFor.written (h : StandsFor config provider c db) {new : Circuit}
    (hn : new.successes = 0) (o : Outside) :
    StandsFor config provider new
      (o.answers (.redis (.write (.hset (key provider) (new.fields config)))) db).2 := by
  obtain ⟨raw, hraw, -⟩ := h
  rw [Outside.answers_redis (hraw.hset o.now _)]
  exact (circuitAt_fields raw hn (Function.update_self _ _ _)).standsFor

theorem StandsFor.probes (h : StandsFor config provider c db) (n : ℤ) (o : Outside) :
    ∃ c', StandsFor config provider c' (o.answers
        (.redis (.write (.hset (key provider) [("probe_successes", intString n)]))) db).2 ∧
      c'.state = c.state ∧ c'.deadline = c.deadline := by
  obtain ⟨raw, hraw, hspell⟩ := h
  rw [Outside.answers_redis (hraw.hset o.now _)]
  rw [spelled] at hspell
  cases hread : readCircuit config provider raw with
  | error e => rw [hread] at hspell; cases hspell
  | ok s =>
    rw [hread] at hspell
    have hread' := readCircuit_probes hread n
    have hc' : ∃ c', CircuitState.circuit? { s with probeSuccesses := n } = some c' ∧
        c'.state = c.state ∧ c'.deadline = c.deadline := by
      simp only [CircuitState.circuit?] at hspell ⊢
      split at hspell <;> cases hspell
      · exact ⟨_, rfl, rfl, rfl⟩
      · exact ⟨_, rfl, rfl, rfl⟩
      · exact ⟨_, rfl, rfl, rfl⟩
    obtain ⟨c', hc', heq⟩ := hc'
    exact ⟨c', ⟨_, hashAt_update _ _ _, by simp only [spelled, hread', hc']⟩, heq⟩

theorem StandsFor.step (h : StandsFor config provider c db) {cmd : Cmd}
    (hallowed : v.allowed config provider cmd)
    (hclock : ∀ t, v.now = some t → t ≤ o.now)
    (hfresh : ∀ new, transition config provider cmd = some new → v.seen ≠ some c →
      new.undoes c = false) :
    ∃ c', StandsFor config provider c' (o.answers cmd db).2 ∧ Moves o.now c c' := by
  have hother : ∀ r : Redis.Command, cmd = .redis r →
      (key provider ∈ r.keys → r.reads = true) →
      ∃ c', StandsFor config provider c' (o.answers cmd db).2 ∧ Moves o.now c c' := by
    rintro r rfl hr
    refine ⟨c, h.congr ?_, .refl _ _⟩
    simp only [Outside.answers]
    by_cases hk : key provider ∈ r.keys
    · rw [exec_of_reads (hr hk)]
    · exact exec_frame hk _ _
  cases cmd with
  | redis r =>
    cases r with
    | write w =>
      cases w with
      | hset k new =>
        by_cases hk : k = key provider
        · subst hk
          rcases hallowed rfl with ⟨new, hmay, rfl⟩ | ⟨n, rfl⟩
          · exact ⟨new, h.written hmay.successes o,
              hmay.moves hclock (hfresh new (transition_fields new hmay.successes))⟩
          · obtain ⟨c', hc', hstate, hdeadline⟩ := h.probes n o
            exact ⟨c', hc', .inl hstate, fun d hd _ ↦ ⟨d, hdeadline.trans hd, le_rfl⟩⟩
        · exact hother _ rfl (fun hmem ↦ absurd (List.mem_singleton.mp hmem).symm hk)
      | zadd | zremrangebyscore | expire => exact hother _ rfl hallowed
    | pipeline | delete | hgetall | get | set | zrangebyscore | zrange | zpopmin | zcard =>
      exact hother _ rfl hallowed
  | time | perfCounter | random | uniform | uuid4 | sleep | acompletion | llmProvider
  | completionCost | metric => exact ⟨c, h, .refl _ _⟩

theorem watch_now (v : View) (cmd : Cmd) (o : Outside) (db : Db) :
    (v.watch config provider cmd (o.answers cmd db).1).now = v.now ∨
      (v.watch config provider cmd (o.answers cmd db).1).now = some o.now := by
  cases cmd with
  | time => exact .inr (congrArg some o.floor_now)
  | redis r =>
    refine .inl ?_
    rcases (o.answers (.redis r) db).1 with e | reply
    · cases r <;> rfl
    · cases r with
      | hgetall k =>
        simp only [View.watch]
        split <;> rfl
      | _ => rfl
  | _ => exact .inl rfl

/-- What holds of the tasks after turns in which nobody was overtaken. -/
structure Reached (config : GatewayConfig) (provider : String) (turns : List (ι × Outside))
    (p : Pool ι Cmd Reply Exn Unit View Db) : Prop where
  obedient : p.Obedient (protocol config provider) (fun _ _ _ ↦ True)
  stands : ∃ c, StandsFor config provider c p.store
  clocks : ∀ i t, (p.view i).now = some t → ∃ turn ∈ turns, turn.2.now = t

theorem Reached.step {turns : List (ι × Outside)} {p : Pool ι Cmd Reply Exn Unit View Db}
    (h : Reached config provider turns p) (hc : StandsFor config provider c p.store) {i : ι}
    (hchron : ∀ turn ∈ turns, turn.2.now ≤ o.now)
    (hfresh : ¬ Overtaken config provider p (i, o)) :
    (∃ c', StandsFor config provider c' (p.step (protocol config provider) o.answers i).store ∧
      Moves o.now c c') ∧
    Reached config provider (turns ++ [(i, o)])
      (p.step (protocol config provider) o.answers i) := by
  have hweaken : ∀ j t, (p.view j).now = some t → ∃ turn ∈ turns ++ [(i, o)], turn.2.now = t := by
    intro j t ht
    obtain ⟨turn, hturn, rfl⟩ := h.clocks j t ht
    exact ⟨turn, List.mem_append_left _ hturn, rfl⟩
  rcases p.step_cases (protocol config provider) o.answers i with hs | ⟨g, cmd, k, hi⟩
  · rw [hs]
    exact ⟨⟨c, hc, .refl _ _⟩, h.obedient, ⟨c, hc⟩, hweaken⟩
  · have hclock : ∀ t, (p.view i).now = some t → t ≤ o.now := by
      intro t ht
      obtain ⟨turn, hturn, rfl⟩ := h.clocks i t ht
      exact hchron turn hturn
    obtain ⟨s, hs, hsc⟩ := hc.stored o
    have hkeeps : ∀ new, transition config provider cmd = some new → (p.view i).seen ≠ some c →
        new.undoes c = false := by
      intro new hnew hne
      by_contra hundoes
      refine hfresh ⟨new, by rw [hi]; exact hnew, c, ?_, hne, by simpa using hundoes⟩
      rw [hs]
      exact hsc
    obtain ⟨c', hc', hmoves⟩ := hc.step (h.obedient.allowed hi) hclock hkeeps
    have hob := h.obedient.step (h := o.answers) (i := i) (fun _ _ ↦ trivial)
    rw [Pool.step_call hi] at hob ⊢
    refine ⟨⟨c', hc', hmoves⟩, hob, ⟨c', hc'⟩, fun j t ht ↦ ?_⟩
    by_cases hj : j = i
    · subst hj
      simp only [Function.update_self] at ht
      rcases watch_now (p.view j) cmd o p.store with hw | hw
      · exact hweaken j t (hw.symm.trans ht)
      · refine ⟨(j, o), List.mem_append_right _ (List.mem_singleton_self _), ?_⟩
        exact Option.some.inj (hw.symm.trans ht)
    · simp only [Function.update_of_ne hj] at ht
      exact hweaken j t ht

variable {tasks : ι → Task} {turns : List (ι × Outside)}

theorem NeverOvertaken.of_append {later : List (ι × Outside)}
    (h : NeverOvertaken config provider tasks db (turns ++ later)) :
    NeverOvertaken config provider tasks db turns := by
  intro before turn after he
  exact h before turn (after ++ later) (by rw [he]; simp)

theorem reached_turn {i : ι}
    (h : Reached config provider turns (tasksAfter config provider tasks db turns))
    (hc : StandsFor config provider c (tasksAfter config provider tasks db turns).store)
    (hchron : InTime (turns ++ [(i, o)]))
    (hfresh : NeverOvertaken config provider tasks db (turns ++ [(i, o)])) :
    (∃ c', StandsFor config provider c'
        (tasksAfter config provider tasks db (turns ++ [(i, o)])).store ∧ Moves o.now c c') ∧
      Reached config provider (turns ++ [(i, o)])
        (tasksAfter config provider tasks db (turns ++ [(i, o)])) := by
  rw [tasksAfter, Pool.run_append_singleton]
  apply h.step hc
  · intro turn hturn
    exact (List.pairwise_append.mp hchron).2.2 turn hturn (i, o) (List.mem_singleton_self _)
  · exact hfresh turns (i, o) [] rfl

theorem reached_run (hdb : ∃ c, CircuitAt config provider c db) (hchron : InTime turns)
    (hfresh : NeverOvertaken config provider tasks db turns) :
    Reached config provider turns (tasksAfter config provider tasks db turns) := by
  induction turns using List.reverseRec with
  | nil =>
    obtain ⟨c, hc⟩ := hdb
    exact ⟨fun i ↦ obeys_body (tasks i), ⟨c, hc.standsFor⟩, fun i t ht ↦ by cases ht⟩
  | append_singleton turns turn ih =>
    have hreached := ih hchron.of_append hfresh.of_append
    obtain ⟨c, hc⟩ := hreached.stands
    exact (reached_turn hreached hc hchron hfresh).2

theorem deadline_run (hdb : ∃ c, CircuitAt config provider c db) {during : List (ι × Outside)}
    {d : ℚ} (hc : StandsFor config provider c (tasksAfter config provider tasks db turns).store)
    (hd : c.deadline = some d) (hbefore : ∀ turn ∈ during, (turn.2.now : ℚ) < d)
    (hchron : InTime (turns ++ during))
    (hfresh : NeverOvertaken config provider tasks db (turns ++ during)) :
    ∃ c' d', StandsFor config provider c'
        (tasksAfter config provider tasks db (turns ++ during)).store ∧
      c'.deadline = some d' ∧ d ≤ d' := by
  induction during using List.reverseRec with
  | nil => exact ⟨c, d, by simpa using hc, hd, le_rfl⟩
  | append_singleton during turn ih =>
    rw [← List.append_assoc] at hchron hfresh ⊢
    have hchron' := hchron.of_append
    obtain ⟨c', d', hc', hd', hle⟩ := ih
      (fun turn hturn ↦ hbefore turn (List.mem_append_left _ hturn)) hchron' hfresh.of_append
    have hreached := reached_run hdb hchron' hfresh.of_append
    obtain ⟨⟨c'', hc'', hmoves⟩, -⟩ := reached_turn hreached hc' hchron hfresh
    have hlt : (turn.2.now : ℚ) < d' :=
      (hbefore turn (List.mem_append_right _ (List.mem_singleton_self _))).trans_le hle
    obtain ⟨d'', hd'', hle'⟩ := hmoves.stays d' hd' hlt
    exact ⟨c'', d'', hc'', hd'', hle.trans hle'⟩

/-- In a run in which no task is overtaken, the circuit moves along the edges, and stays open
as long as a cooldown it was opened with. -/
theorem safe_of_neverOvertaken (tasks : ι → Task) (db : Db) (turns : List (ι × Outside))
    (hdb : ∃ c, CircuitAt config provider c db) (hchron : InTime turns)
    (hfresh : NeverOvertaken config provider tasks db turns) :
    Safe config provider tasks db turns := by
  constructor
  · intro before i o after he
    have he' : turns = (before ++ [(i, o)]) ++ after := by rw [he]; simp
    rw [he'] at hchron hfresh
    have hchron' := hchron.of_append
    have hreached := reached_run hdb hchron'.of_append hfresh.of_append.of_append
    obtain ⟨c, hc⟩ := hreached.stands
    obtain ⟨⟨c', hc', hmoves⟩, -⟩ := reached_turn hreached hc hchron' hfresh.of_append
    exact ⟨c.state, c'.state, hc.persisted o, hc'.persisted o, hmoves.edge⟩
  · intro before during i o after s t he hs hopened ht hcooling
    have he' : turns = (before ++ (during ++ [(i, o)])) ++ after := by rw [he]; simp
    rw [he'] at hchron hfresh
    have hchron' := hchron.of_append
    have hreached := reached_run hdb hchron'.of_append hfresh.of_append.of_append
    obtain ⟨c, hc⟩ := hreached.stands
    obtain ⟨s', hs', hsc⟩ := hc.stored o
    obtain rfl : s' = s := Except.ok.inj (hs'.symm.trans hs)
    rw [CircuitState.circuit?, hopened, ht] at hsc
    obtain rfl := Option.some.inj hsc
    have hlt : (o.now : ℚ) < t + s'.cooldownS.toRat * 1000 := by
      rw [elapsedS, div_lt_iff₀ (by norm_num)] at hcooling
      push_cast at hcooling
      linarith
    have hbefore : ∀ turn ∈ during ++ [(i, o)],
        (turn.2.now : ℚ) < t + s'.cooldownS.toRat * 1000 := by
      intro turn hturn
      refine lt_of_le_of_lt ?_ hlt
      rcases List.mem_append.mp hturn with hturn | hturn
      · have hpair := (List.pairwise_append.mp (List.pairwise_append.mp hchron').2.1).2.2
        exact_mod_cast hpair turn hturn (i, o) (List.mem_singleton_self _)
      · rw [List.mem_singleton.mp hturn]
    obtain ⟨c', d', hc', hd', -⟩ := deadline_run hdb hc rfl hbefore hchron' hfresh.of_append
    rw [← List.append_assoc] at hc'
    rw [hc'.persisted o]
    cases c' with
    | opened => rfl
    | closed => cases hd'
    | halfOpen => cases hd'

end Turns

/-- A successful probe, then a successful and a failed one that overlap: both read the
circuit half-open, the failed one opens it, and the successful one closes it again. -/
def probes : ℕ → Task
  | 2 => .record .timeout
  | _ => .record .ok

def overlap : List (ℕ × Outside) :=
  [0, 0, 0, 0, 0, 0, 1, 1, 1, 2, 2, 2, 2, 1].zipIdx.map
    (fun e ↦ (e.1, { now := 30000 + e.2 }))

theorem safe_of_neverOvertaken_probes :
    Safe .shipped "groq" probes (run .shipped "groq" eightTimeouts).db (overlap.take 13) := by
  apply safe_of_neverOvertaken
  · have hrep := @represents_run .shipped "groq" _ rfl eightTimeouts (by decide +kernel)
      (by decide +kernel)
    exact ⟨_, (hrep.2 1007 (by decide +kernel)).circuit⟩
  · decide +kernel
  · decide +kernel

theorem overlap_not_safe :
    InTime overlap ∧
      (stored .shipped "groq" { now := 30013 } (tasksAfter .shipped "groq" probes
        (run .shipped "groq" eightTimeouts).db (overlap.take 13)).store).map
          (fun c ↦ (c.state, c.openedAtMs, c.cooldownS)) = .ok (.opened, some 30009, ⟨400, 0⟩) ∧
      persisted .shipped "groq" { now := 30013 } (tasksAfter .shipped "groq" probes
        (run .shipped "groq" eightTimeouts).db overlap).store = .ok .closed ∧
      ¬ Safe .shipped "groq" probes (run .shipped "groq" eightTimeouts).db overlap := by
  have hbefore : persisted .shipped "groq" { now := 30013 } (tasksAfter .shipped "groq" probes
      (run .shipped "groq" eightTimeouts).db (overlap.take 13)).store = .ok .opened := by
    decide +kernel
  have hafter : persisted .shipped "groq" { now := 30013 } (tasksAfter .shipped "groq" probes
      (run .shipped "groq" eightTimeouts).db overlap).store = .ok .closed := by
    decide +kernel
  refine ⟨by decide +kernel, by decide +kernel, hafter, fun h ↦ ?_⟩
  obtain ⟨s, s', hs, hs', hedge⟩ := h.edges (overlap.take 13) 1 { now := 30013 } [] rfl
  obtain rfl := Except.ok.inj (hs.symm.trans hbefore)
  obtain rfl := Except.ok.inj (hs'.symm.trans hafter)
  rcases hedge with h | h <;> cases h

end HealingGateway.Breaker
