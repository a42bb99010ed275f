import HealingGateway.HedgedWalk
import HealingGateway.JobTicks
import HealingGateway.Library.Budgets

namespace HealingGateway.Worker

open Programs Programs.Prog Numerals JsonText Queue Budgets

/-- A job stands as its budget of tries does. -/
def Holds (deadline : ℤ) (id : String) (db : Redis.Db) : Stage Status → Prop
  | .pending n => Standing deadline id .queued n True False db
  | .settled status => ∃ n, Standing deadline id status n False False db
  | .exhausted => ∃ n, Standing deadline id .dead n False True db

def roundOf (routed : Router.RouteOutcome) : Round Status :=
  match routed.result with
  | some result => .settles (if result.outcome.isOk then .done else .failed)
  | none => if routed.lastFailure.isNone then .waits else .fails

section Conclusions

variable {σ : Type} {h : Handler Cmd Reply σ} {db : σ → Redis.Db} {deadline : ℤ} {s : σ} {n : ℕ} {job : Job}
  {config : GatewayConfig}

def budget (config : GatewayConfig) : ℕ := config.queue.maxAttempts.toNat

theorem only_age (job : Job) (status : Status) :
    (observeAge job status).Only (fun c ↦ ∀ k ∈ c.keys, ¬ QueueKey k) :=
  Only.bind (only_ask (quiet_elsewhere rfl)) (fun _ ↦ only_ask (quiet_elsewhere rfl))

section Finish

variable (hk : KeepsJob h db deadline job.id) (hs : Standing deadline job.id .running n False False (db s))

include hk hs

theorem KeepsJob.yields_finish (reason : String) :
    (finish job .failed reason).Yields h s (fun _ s' ↦ Holds deadline job.id (db s') (.settled .failed)) := by
  refine (hk.yields_fail hs reason).bind (fun _ s₁ hs₁ ↦ ?_)
  exact (hk.yields_elsewhere (only_age job .failed) hs₁).mono (fun _ _ hs₂ ↦ ⟨n, hs₂⟩)

variable (hattempts : job.attempts = n)

include hattempts

theorem KeepsJob.yields_defer : (defer config job).Yields h s
    (fun _ s' ↦ Holds deadline job.id (db s') (.pending n)) := by
  have hdelay := hk.yields_elsewhere (p := retryDelayS 0 config.queue.baseDelayS config.queue.maxDelayS)
    (only_retryDelayS (fun _ _ ↦ quiet_elsewhere rfl) _ _ _) hs
  refine hdelay.bind (fun delayS s₁ hs₁ ↦ ?_)
  exact (hk.yields_retry hs₁ delayS _ false hattempts).bind (fun _ _ hs₂ ↦ yields_done hs₂)

theorem KeepsJob.yields_retryOrBury (reason : String) : (retryOrBury config job reason).Yields h s
    (fun _ s' ↦ Holds deadline job.id (db s') (Stage.next (budget config) (.pending n) .fails)) := by
  unfold retryOrBury
  dsimp only
  split
  · next hmax =>
    have hburied : Stage.next (budget config) (.pending n) (.fails : Round Status) = .exhausted := by
      have hbudget : ¬ n + 1 < budget config := by
        rw [budget]
        omega
      simp [Stage.next, hbudget]
    rw [hburied]
    refine (hk.yields_deadLetter hs reason).bind (fun _ s₁ hs₁ ↦ ?_)
    have hrest := hk.yields_elsewhere (p := metric .dlq >>= fun _ ↦ observeAge job .dead)
      ((only_ask (quiet_elsewhere rfl) : (metric .dlq).Only _).bind (fun _ ↦ only_age job .dead)) hs₁
    exact hrest.mono (fun _ _ hs₂ ↦ ⟨n, hs₂⟩)
  · next hmax =>
    have hpending : Stage.next (budget config) (.pending n) (.fails : Round Status) = .pending (n + 1) := by
      have hbudget : n + 1 < budget config := by
        rw [budget]
        omega
      simp [Stage.next, hbudget]
    rw [hpending]
    have hdelay := hk.yields_elsewhere
      (p := retryDelayS job.attempts config.queue.baseDelayS config.queue.maxDelayS)
      (only_retryDelayS (fun _ _ ↦ quiet_elsewhere rfl) _ _ _) hs
    refine hdelay.bind (fun delayS s₁ hs₁ ↦ ?_)
    have hretry := hk.yields_retry hs₁ delayS reason true
      (show (if true then job.attempts + 1 else job.attempts) = ((n + 1 : ℕ) : ℤ) by simp [hattempts])
    refine hretry.bind (fun _ s₂ hs₂ ↦ ?_)
    exact hk.yields_elsewhere (p := metric _) (only_ask (quiet_elsewhere rfl)) hs₂

theorem KeepsJob.yields_conclude {routed : Router.RouteOutcome}
    (hfinal : ∀ result ∈ routed.result, Router.isFinal result = true) :
    (conclude config job routed).Yields h s
      (fun _ s' ↦ Holds deadline job.id (db s')
        (Stage.next (budget config) (.pending n) (roundOf routed))) := by
  unfold conclude roundOf
  cases hresult : routed.result with
  | none =>
    simp only [exhausted]
    cases routed.lastFailure with
    | none => exact hk.yields_defer hs hattempts
    | some last => exact hk.yields_retryOrBury hs hattempts _
  | some result =>
    simp only
    cases hok : result.outcome.isOk with
    | true =>
      have hbody := hk.yields_elsewhere ((Schemas.only_toOpenaiResponse result job.metadata
        routed.attempts).mono (fun c hc ↦ quiet_elsewhere (Cmd.quiet_of_inward hc))) hs
      refine hbody.bind (fun body s₁ hs₁ ↦ (hk.yields_complete hs₁ _).bind (fun _ s₂ hs₂ ↦ ?_))
      exact (hk.yields_elsewhere (only_age job .done) hs₂).mono (fun _ _ hs₃ ↦ ⟨n, hs₃⟩)
    | false =>
      have htrip : result.outcome.trippable = false := by
        have hcases := Router.isFinal_eq_true.mp (hfinal result hresult)
        simpa [hok] using hcases
      simp only [htrip]
      exact hk.yields_finish hs _

end Finish

theorem KeepsJob.yields_depth_holds {stage : Stage Status} (hk : KeepsJob h db deadline job.id)
    (hs : Holds deadline job.id (db s) stage) :
    observeDepth.Yields h s (fun _ s' ↦ Holds deadline job.id (db s') stage) := by
  cases stage with
  | pending n => exact hk.yields_depth hs
  | settled status | exhausted =>
    obtain ⟨n, hs⟩ := hs
    exact (hk.yields_depth hs).mono (fun _ _ hs' ↦ ⟨n, hs'⟩)

end Conclusions

section Ticks

variable {σ : Type} (config : GatewayConfig) (db : σ → Redis.Db) (deadline : ℤ)

/-- A tick that takes a job and returns, in a world that keeps the job. -/
structure JobTick where
  env : Environ
  schedule : Router.RaceSchedule
  h : Handler Cmd Reply σ
  start : σ
  job : Job
  begun : σ
  ended : σ
  keeps : KeepsJob h db deadline job.id
  taken : take.run h start = (.ok (some job), begun)
  returned : (runOnce env config schedule).run h start = (.ok true, ended)

namespace JobTick

variable {config db deadline} (t : JobTick config db deadline)

def rungs : List String := ladder t.env config t.job

/-- How the walk of the tick ended, if it has one. -/
def walk : Except Exn Router.RouteOutcome :=
  ((Router.route t.env config t.job.metadata t.job.payload t.rungs t.schedule).run t.h t.begun).1

/-- What the tick learnt of its rungs. -/
def facts : List Router.Fact :=
  match config.classes.lookup t.job.metadata.requestClass with
  | none => []
  | some c =>
    Router.journal t.env config t.job.metadata t.job.payload t.rungs t.schedule c t.h t.begun

/-- The positions whose providers the tick dispatched. -/
def dispatched : List ℕ := Router.dispatches t.facts

def Unavailable : Prop := t.rungs = []

def Answers (P : Outcome → Prop) : Prop :=
  t.rungs ≠ [] ∧ ∃ routed result, t.walk = .ok routed ∧ routed.result = some result ∧ P result.outcome

def Served : Prop := t.Answers (fun outcome ↦ outcome.isOk = true)

def CallerFault : Prop := t.Answers (fun outcome ↦ outcome.isOk = false ∧ outcome.trippable = false)

def Failing : Prop := t.dispatched ≠ [] ∧ ∀ fact ∈ t.facts, fact.Failed

instance : Decidable t.Failing := inferInstanceAs (Decidable (_ ∧ _))

def Idle : Prop := t.rungs ≠ [] ∧ t.dispatched = []

def round : Round Status :=
  if t.rungs = [] then .settles .failed
  else
    match t.walk with
    | .ok routed => roundOf routed
    | .error _ => .waits

theorem run_eq : ∃ s₁, (run t.env config t.schedule t.job).run t.h t.begun = (.ok (), s₁) := by
  have hreturned := t.returned
  rw [runOnce, run_bind_ok t.h t.taken, run_bind] at hreturned
  rcases hrun : (tryFinally (run t.env config t.schedule t.job) observeDepth).run t.h t.begun with
    ⟨e | u, s₁⟩
  · simp only [hrun] at hreturned
    cases hreturned
  · exact run_of_tryFinally hrun

theorem run_unavailable (hrungs : t.rungs = []) : run t.env config t.schedule t.job =
    finish t.job .failed ("no available provider for " ++ t.job.metadata.requestClass) := if_pos hrungs

theorem run_walk (hrungs : t.rungs ≠ []) : run t.env config t.schedule t.job =
    Router.route t.env config t.job.metadata t.job.payload t.rungs t.schedule >>= conclude config t.job :=
  if_neg hrungs

theorem exists_walk (hrungs : t.rungs ≠ []) : ∃ hedged routed, t.walk = .ok routed ∧
    Router.Routed t.rungs hedged t.facts routed := by
  obtain ⟨s₁, hrun⟩ := t.run_eq
  obtain ⟨c, hclass⟩ := Option.isSome_iff_exists.mp (class_known hrungs)
  rw [t.run_walk hrungs, run_bind] at hrun
  rcases hroute : (Router.route t.env config t.job.metadata t.job.payload t.rungs t.schedule).run
    t.h t.begun with ⟨e | routed, s₂⟩
  · rw [hroute] at hrun
    cases hrun
  · refine ⟨Router.hedges c, routed, by rw [walk, hroute], ?_⟩
    rw [facts, hclass]
    exact Router.routed_run hclass hroute

theorem facts_of_unavailable (hrungs : t.rungs = []) : t.facts = [] := by
  rw [facts]
  split
  · rfl
  · next c hclass =>
    rw [Router.journal, hrungs]
    cases Router.hedges c <;> rfl

theorem round_cases :
    (t.Unavailable ∧ t.round = .settles .failed) ∨ (t.Served ∧ t.round = .settles .done) ∨
      (t.CallerFault ∧ t.round = .settles .failed) ∨ (t.Failing ∧ t.round = .fails) ∨
      (t.Idle ∧ t.round = .waits) := by
  by_cases hrungs : t.rungs = []
  · exact .inl ⟨hrungs, if_pos hrungs⟩
  obtain ⟨hedged, routed, hwalk, hrouted⟩ := t.exists_walk hrungs
  have hround : t.round = roundOf routed := by rw [round, if_neg hrungs, hwalk]
  cases hresult : routed.result with
  | some result =>
    have hfinal := (hrouted.sound.served result hresult).1
    cases hok : result.outcome.isOk with
    | true =>
      refine .inr (.inl ⟨⟨hrungs, routed, result, hwalk, hresult, hok⟩, ?_⟩)
      simp [hround, roundOf, hresult, hok]
    | false =>
      have htrip : result.outcome.trippable = false := by simpa [hok] using hfinal
      refine .inr (.inr (.inl ⟨⟨hrungs, routed, result, hwalk, hresult, hok, htrip⟩, ?_⟩))
      simp [hround, roundOf, hresult, hok]
  | none =>
    have hfailed := hrouted.failed_of_none hresult
    have hlast : routed.lastFailure = none ↔ t.dispatched = [] := hrouted.lastFailure_eq_none_iff hresult
    by_cases hnil : t.dispatched = []
    · refine .inr (.inr (.inr (.inr ⟨⟨hrungs, hnil⟩, ?_⟩)))
      simp [hround, roundOf, hresult, hlast.mpr hnil]
    · refine .inr (.inr (.inr (.inl ⟨⟨hnil, hfailed⟩, ?_⟩)))
      obtain ⟨last, hsome⟩ := Option.ne_none_iff_exists'.mp (mt hlast.mp hnil)
      simp [hround, roundOf, hresult, hsome]

section Rounds

variable {t}

theorem Answers.final {P : Outcome → Prop} (h : t.Answers P) : t.dispatched ≠ [] ∧
    ¬ ∀ fact ∈ t.facts, fact.Failed := by
  obtain ⟨hrungs, routed, result, hwalk, hresult, -⟩ := h
  obtain ⟨hedged, routed', hwalk', hrouted⟩ := t.exists_walk hrungs
  obtain rfl : routed = routed' := Except.ok.inj (hwalk.symm.trans hwalk')
  obtain ⟨hfinal, i, provider, hmem⟩ := hrouted.sound.served result hresult
  refine ⟨fun hnil ↦ ?_, fun hfailed ↦ ?_⟩
  · have hi : i ∈ t.dispatched := List.mem_filterMap.mpr ⟨_, hmem, rfl⟩
    rw [hnil] at hi
    cases hi
  · have hfinal' := Router.isFinal_eq_true.mpr hfinal
    rw [show Router.isFinal result = false from hfailed _ hmem] at hfinal'
    cases hfinal'

theorem Answers.round_eq {P : Outcome → Prop} (h : t.Answers P) {status : Status}
    (hstatus : ∀ outcome, P outcome → (if outcome.isOk then Status.done else .failed) = status) :
    t.round = .settles status := by
  obtain ⟨hrungs, routed, result, hwalk, hresult, hP⟩ := h
  simp [round, hrungs, hwalk, roundOf, hresult, hstatus _ hP]

theorem round_eq_done : t.round = .settles .done ↔ t.Served := by
  refine ⟨fun h ↦ ?_, fun h ↦ h.round_eq (fun outcome hok ↦ by simp [hok])⟩
  rcases t.round_cases with ⟨-, hr⟩ | ⟨hserved, -⟩ | ⟨-, hr⟩ | ⟨-, hr⟩ | ⟨-, hr⟩
  · rw [hr] at h
    cases h
  · exact hserved
  all_goals
    rw [hr] at h
    cases h

theorem round_eq_failed : t.round = .settles .failed ↔ t.CallerFault ∨ t.Unavailable := by
  constructor
  · intro h
    rcases t.round_cases with ⟨hun, -⟩ | ⟨-, hr⟩ | ⟨hfault, -⟩ | ⟨-, hr⟩ | ⟨-, hr⟩
    · exact .inr hun
    · rw [hr] at h
      cases h
    · exact .inl hfault
    all_goals
      rw [hr] at h
      cases h
  · rintro (h | h)
    · exact h.round_eq (fun outcome hfault ↦ by simp [hfault.1])
    · exact if_pos h

theorem round_eq_fails : t.round = .fails ↔ t.Failing := by
  constructor
  · intro h
    rcases t.round_cases with ⟨-, hr⟩ | ⟨-, hr⟩ | ⟨-, hr⟩ | ⟨hfailing, -⟩ | ⟨-, hr⟩
    · rw [hr] at h
      cases h
    · rw [hr] at h
      cases h
    · rw [hr] at h
      cases h
    · exact hfailing
    · rw [hr] at h
      cases h
  · rintro ⟨hne, hfailed⟩
    rcases t.round_cases with ⟨hun, -⟩ | ⟨h, -⟩ | ⟨h, -⟩ | ⟨-, hr⟩ | ⟨⟨-, hnil⟩, -⟩
    · rw [dispatched, t.facts_of_unavailable hun] at hne
      exact absurd rfl hne
    · exact absurd hfailed h.final.2
    · exact absurd hfailed h.final.2
    · exact hr
    · exact absurd hnil hne

theorem round_eq_waits (h : t.Idle) : t.round = .waits := by
  obtain ⟨hrungs, hnil⟩ := h
  rcases t.round_cases with ⟨hun, -⟩ | ⟨h, -⟩ | ⟨h, -⟩ | ⟨⟨hne, -⟩, -⟩ | ⟨-, hr⟩
  · exact absurd hun hrungs
  · exact absurd hnil h.final.1
  · exact absurd hnil h.final.1
  · exact absurd hnil hne
  · exact hr

theorem tried_of_dispatched (h : t.dispatched ≠ []) : t.round.tried = true := by
  rcases t.round_cases with ⟨-, hr⟩ | ⟨-, hr⟩ | ⟨-, hr⟩ | ⟨-, hr⟩ | ⟨⟨-, hnil⟩, -⟩
  · rw [hr]
    rfl
  · rw [hr]
    rfl
  · rw [hr]
    rfl
  · rw [hr]
    rfl
  · exact absurd hnil h

theorem failed_round : t.round.failed = decide t.Failing := by
  rw [Bool.eq_iff_iff, decide_eq_true_iff, ← round_eq_fails]
  cases t.round <;> simp [Round.failed]

end Rounds

/-- A tick finds the job queued, and leaves it as its round says. -/
theorem stands {stage : Stage Status} (hs : Holds deadline t.job.id (db t.start) stage) :
    ∃ n, stage = .pending n ∧
      Holds deadline t.job.id (db t.ended) (Stage.next (budget config) stage t.round) := by
  have hk := t.keeps
  have htake : ∀ {status : Status} {n : ℕ} {waiting buried : Prop},
      Standing deadline t.job.id status n waiting buried (db t.start) →
      waiting ∧ t.job.attempts = n ∧ Standing deadline t.job.id .running n False buried (db t.begun) :=
    fun hs ↦ hk.yields_take hs _ _ t.taken t.job rfl rfl
  cases stage with
  | settled status | exhausted =>
    obtain ⟨n, hs⟩ := hs
    exact absurd (htake hs).1 not_false
  | pending n =>
    refine ⟨n, rfl, ?_⟩
    obtain ⟨-, hattempts, hrunning⟩ := htake hs
    have hrun : (run t.env config t.schedule t.job).Yields t.h t.begun
        (fun _ s' ↦ Holds deadline t.job.id (db s') (Stage.next (budget config) (.pending n) t.round)) := by
      by_cases hrungs : t.rungs = []
      · rw [t.run_unavailable hrungs, show t.round = .settles .failed from if_pos hrungs]
        exact hk.yields_finish hrunning _
      · obtain ⟨hedged, routed, hwalk, hrouted⟩ := t.exists_walk hrungs
        have hroute : (Router.route t.env config t.job.metadata t.job.payload t.rungs t.schedule).Yields
            t.h t.begun (fun routed' s' ↦ routed' = routed ∧
              Standing deadline t.job.id .running n False False (db s')) := by
          intro routed' s' hroute
          have hsame : t.walk = .ok routed' := by rw [walk, hroute]
          refine ⟨Except.ok.inj (hsame.symm.trans hwalk), ?_⟩
          exact hk.yields_elsewhere ((Router.only_route t.schedule).mono
            (fun c hc ↦ own_elsewhere hc.1)) hrunning routed' s' hroute
        rw [t.run_walk hrungs, show t.round = roundOf routed by rw [round, if_neg hrungs, hwalk]]
        refine hroute.bind ?_
        rintro _ s' ⟨rfl, hs'⟩
        refine hk.yields_conclude hs' hattempts (fun result hresult ↦ ?_)
        exact Router.isFinal_eq_true.mpr (hrouted.sound.served result hresult).1
    have hreturned := t.returned
    rw [runOnce, run_bind_ok t.h t.taken] at hreturned
    have hends := hrun.tryFinally (fun _ s' hs' ↦ hk.yields_depth_holds hs')
    have htick : (tryFinally (run t.env config t.schedule t.job) observeDepth >>=
        fun _ ↦ (return true : Gateway Bool)).Yields t.h t.begun (fun _ s' ↦
          Holds deadline t.job.id (db s') (Stage.next (budget config) (.pending n) t.round)) :=
      hends.bind (fun _ _ hs' ↦ yields_done hs')
    exact htick true t.ended hreturned

end JobTick

end Ticks

section Stages

def statusAt : Stage Status → Status
  | .pending _ => .queued
  | .settled status => status
  | .exhausted => .dead

variable {deadline : ℤ} {id : String} {d : Redis.Db} {stage : Stage Status}

theorem Holds.status_iff (h : Holds deadline id d stage) (status : Status) :
    statusOf d id = some status.value ↔ statusAt stage = status := by
  have hstatus : statusOf d id = some (statusAt stage).value := by
    cases stage with
    | pending n => exact h.status_eq
    | settled status' | exhausted =>
      obtain ⟨n, hs⟩ := h
      exact hs.status_eq
  rw [hstatus]
  constructor
  · intro heq
    have hvalue := congrArg Status.ofValue? (Option.some.inj heq)
    simpa using hvalue
  · rintro rfl
    rfl

theorem Holds.buried_iff (h : Holds deadline id d stage) : Buried d id ↔ stage = .exhausted := by
  cases stage with
  | pending n => exact h.buried.trans (by simp)
  | settled status =>
    obtain ⟨n, hs⟩ := h
    exact hs.buried.trans (by simp)
  | exhausted =>
    obtain ⟨n, hs⟩ := h
    exact hs.buried.trans (by simp)

/-- The attempts in a job's record, expired or not. -/
def attemptsOf (d : Redis.Db) (id : String) : Option String :=
  match d (Queue.key id) with
  | some ⟨.hash raw, _⟩ => raw.lookup "attempts"
  | _ => none

theorem Holds.attempts {n : ℕ} (h : Holds deadline id d (.pending n)) :
    attemptsOf d id = some (intString n) := by
  obtain ⟨raw, t, hrecord, -, -, -, hattempts⟩ := h.record
  rw [attemptsOf, hrecord]
  exact hattempts

theorem Holds.congr {d' : Redis.Db} (h : Holds deadline id d stage) (hsame : SameJob id d d') :
    Holds deadline id d' stage := by
  cases stage with
  | pending n => exact Standing.congr h hsame
  | settled status | exhausted =>
    obtain ⟨n, hs⟩ := h
    exact ⟨n, hs.congr hsame⟩

end Stages

section Histories

variable {σ : Type} {config : GatewayConfig} {db : σ → Redis.Db} {deadline : ℤ}

def storeAfter (start : Redis.Db) (ticks : List (JobTick config db deadline)) : Redis.Db :=
  (ticks.getLast?.map (fun t ↦ db t.ended)).getD start

/-- Ticks over one job, one after the other: in between, nothing touches the job. -/
structure TicksOver (id : String) (start : Redis.Db) (ticks : List (JobTick config db deadline)) : Prop where
  named : ∀ t ∈ ticks, t.job.id = id
  linked : ∀ before t later, ticks = before ++ t :: later →
    SameJob id (storeAfter start before) (db t.start)

def failedTicks (ticks : List (JobTick config db deadline)) : ℕ :=
  ticks.countP (fun t ↦ decide t.Failing)

/-- Of a job, over some ticks: while it is queued its attempts are the failed ticks; a tick that
walks a ladder and dispatches nothing leaves it queued, with its attempts; it is dead, and in the
dead-letter queue, from the failed tick on that uses its last attempt; it has failed after a caller's
fault or without a provider, and is done after a served answer; and no more ticks dispatch a provider
than it has attempts. -/
structure WithinBudget (id : String) (start : Redis.Db) (ticks : List (JobTick config db deadline)) :
    Prop where
  attempts : ∀ before later, ticks = before ++ later →
    statusOf (storeAfter start before) id = some Status.queued.value →
      attemptsOf (storeAfter start before) id = some (intString (failedTicks before))
  idle : ∀ before t later, ticks = before ++ t :: later → t.Idle →
    statusOf (storeAfter start (before ++ [t])) id = some Status.queued.value ∧
      attemptsOf (storeAfter start (before ++ [t])) id = attemptsOf (storeAfter start before) id
  dead : ∀ before t later, ticks = before ++ t :: later →
    (statusOf (storeAfter start (before ++ [t])) id = some Status.dead.value ↔
      t.Failing ∧ (failedTicks (before ++ [t]) : ℤ) = max 1 config.queue.maxAttempts) ∧
    (Buried (storeAfter start (before ++ [t])) id ↔
      statusOf (storeAfter start (before ++ [t])) id = some Status.dead.value)
  failed : ∀ before t later, ticks = before ++ t :: later →
    (statusOf (storeAfter start (before ++ [t])) id = some Status.failed.value ↔
      t.CallerFault ∨ t.Unavailable)
  done : ∀ before t later, ticks = before ++ t :: later →
    (statusOf (storeAfter start (before ++ [t])) id = some Status.done.value ↔ t.Served)
  dispatching : (ticks.countP (fun t ↦ decide (t.dispatched ≠ [])) : ℤ) ≤ max 1 config.queue.maxAttempts

variable {id : String} {start : Redis.Db} {ticks : List (JobTick config db deadline)}

def rounds (ticks : List (JobTick config db deadline)) : List (Round Status) := ticks.map JobTick.round

theorem failedTicks_eq (ticks : List (JobTick config db deadline)) :
    failedTicks ticks = Budgets.failures (rounds ticks) := by
  rw [failedTicks, Budgets.failures, rounds, List.countP_map]
  exact List.countP_congr (fun t _ ↦ by rw [Function.comp, t.failed_round])

@[simp] theorem storeAfter_snoc (start : Redis.Db) (ticks : List (JobTick config db deadline))
    (t : JobTick config db deadline) : storeAfter start (ticks ++ [t]) = db t.ended := by
  simp [storeAfter]

theorem TicksOver.of_append {later : List (JobTick config db deadline)}
    (h : TicksOver id start (ticks ++ later)) : TicksOver id start ticks := by
  refine ⟨fun t ht ↦ h.named t (List.mem_append_left _ ht), fun before t later' he ↦ ?_⟩
  exact h.linked before t (later' ++ later) (by rw [he, List.append_assoc, List.cons_append])

/-- After every run of ticks the job stands as its budget does. -/
theorem TicksOver.holds (h : TicksOver id start ticks)
    (hstart : Standing deadline id .queued 0 True False start) :
    Holds deadline id (storeAfter start ticks) (after (budget config) (rounds ticks)) := by
  induction ticks using List.reverseRec with
  | nil => exact hstart
  | append_singleton ticks t ih =>
    have hbefore := (ih h.of_append).congr (h.linked ticks t [] rfl)
    have hid : t.job.id = id := h.named t (by simp)
    subst hid
    obtain ⟨-, -, hends⟩ := t.stands hbefore
    rw [storeAfter_snoc, rounds, List.map_append, List.map_singleton, after_snoc]
    exact hends

theorem TicksOver.pending (h : TicksOver id start ticks)
    (hstart : Standing deadline id .queued 0 True False start)
    {before later : List (JobTick config db deadline)}
    {t : JobTick config db deadline} (he : ticks = before ++ t :: later) :
    ∃ n, after (budget config) (rounds before) = .pending n := by
  subst he
  have hbefore := (h.of_append.holds hstart).congr (h.linked before t later rfl)
  have hid : t.job.id = id := h.named t (by simp)
  subst hid
  obtain ⟨n, hn, -⟩ := t.stands hbefore
  exact ⟨n, hn⟩

theorem max_budget (config : GatewayConfig) :
    ((max 1 (budget config) : ℕ) : ℤ) = max 1 config.queue.maxAttempts := by
  rw [budget]
  omega

theorem settles_cases {t : JobTick config db deadline} {status : Status} (h : t.round = .settles status) :
    status = .done ∨ status = .failed := by
  rcases t.round_cases with ⟨-, hr⟩ | ⟨-, hr⟩ | ⟨-, hr⟩ | ⟨-, hr⟩ | ⟨-, hr⟩
  · rw [hr] at h
    exact .inr (Round.settles.inj h).symm
  · rw [hr] at h
    exact .inl (Round.settles.inj h).symm
  · rw [hr] at h
    exact .inr (Round.settles.inj h).symm
  all_goals
    rw [hr] at h
    cases h

theorem TicksOver.settled_cases (h : TicksOver id start ticks)
    (hstart : Standing deadline id .queued 0 True False start) {status : Status}
    (hsettled : after (budget config) (rounds ticks) = .settled status) :
    status = .done ∨ status = .failed := by
  rcases List.eq_nil_or_concat ticks with rfl | ⟨before, t, rfl⟩
  · cases hsettled
  · rw [List.concat_eq_append] at h hsettled
    obtain ⟨n, hn⟩ : ∃ n, after (budget config) (rounds before) = .pending n := h.pending hstart rfl
    rw [rounds, List.map_append, List.map_singleton] at hsettled
    exact settles_cases ((settled_iff hn).mp hsettled)

theorem TicksOver.statusAt_iff (h : TicksOver id start ticks)
    (hstart : Standing deadline id .queued 0 True False start) {status : Status} :
    statusAt (after (budget config) (rounds ticks)) = status ↔
      (status = .queued ∧ ∃ n, after (budget config) (rounds ticks) = .pending n) ∨
        (status = .dead ∧ after (budget config) (rounds ticks) = .exhausted) ∨
          ((status = .done ∨ status = .failed) ∧ after (budget config) (rounds ticks) = .settled status) := by
  have hcases : ∀ status', after (budget config) (rounds ticks) = .settled status' →
      status' = .done ∨ status' = .failed := fun _ ↦ h.settled_cases hstart
  cases hstage : after (budget config) (rounds ticks) with
  | pending n => simp [statusAt, eq_comm]
  | exhausted => simp [statusAt, eq_comm]
  | settled status' =>
    rw [hstage] at hcases
    constructor
    · rintro rfl
      exact .inr (.inr ⟨hcases status' rfl, rfl⟩)
    · rintro (⟨-, n, hn⟩ | ⟨-, hn⟩ | ⟨-, hn⟩)
      · cases hn
      · cases hn
      · exact Stage.settled.inj hn

theorem TicksOver.rounds_pending (h : TicksOver id start ticks)
    (hstart : Standing deadline id .queued 0 True False start) :
    ∀ before round later, rounds ticks = before ++ round :: later →
      ∃ n, after (budget config) before = .pending n := by
  intro before round later he
  obtain ⟨earlier, rest, rfl, rfl, hrest⟩ := List.map_eq_append_iff.mp he
  obtain ⟨t, later', rfl, -, -⟩ := List.map_eq_cons_iff.mp hrest
  exact h.pending hstart rfl

/-- Only rounds that count as tries dispatch a provider. -/
theorem dispatching_le (ticks : List (JobTick config db deadline)) :
    ticks.countP (fun t ↦ decide (t.dispatched ≠ [])) ≤ (rounds ticks).countP Round.tried := by
  rw [rounds, List.countP_map]
  refine List.countP_mono_left (fun t _ hdispatched ↦ ?_)
  exact JobTick.tried_of_dispatched (of_decide_eq_true hdispatched)

/-- A job that is put into the queue stays within its budget of tries, however its ticks go. -/
theorem within_budget (hstart : Standing deadline id .queued 0 True False start)
    (hticks : TicksOver id start ticks) : WithinBudget id start ticks := by
  have hbefore : ∀ before later, ticks = before ++ later → TicksOver id start before := by
    rintro before later rfl
    exact hticks.of_append
  have hstage : ∀ before t later, ticks = before ++ t :: later → ∃ n,
      after (budget config) (rounds before) = .pending n ∧ TicksOver id start (before ++ [t]) ∧
        rounds (before ++ [t]) = rounds before ++ [t.round] := by
    intro before t later he
    obtain ⟨n, hn⟩ := hticks.pending hstart he
    exact ⟨n, hn, hbefore (before ++ [t]) later (by simp [he]), by simp [rounds]⟩
  constructor
  · intro before later he hqueued
    have hover := hbefore before later he
    have hholds := hover.holds hstart
    rw [hholds.status_iff, hover.statusAt_iff hstart] at hqueued
    obtain ⟨-, n, hn⟩ : Status.queued = .queued ∧
        ∃ n, after (budget config) (rounds before) = .pending n := by
      simpa using hqueued
    rw [hn] at hholds
    rw [hholds.attempts, failedTicks_eq, (pending_iff_failures hn).1]
  · intro before t later he hidle
    obtain ⟨n, hn, hover, hrounds⟩ := hstage before t later he
    have hholds := (hbefore before (t :: later) he).holds hstart
    have hholds' := hover.holds hstart
    rw [hrounds, after_snoc, hn, JobTick.round_eq_waits hidle] at hholds'
    rw [hn] at hholds
    refine ⟨(hholds'.status_iff .queued).mpr rfl, ?_⟩
    rw [hholds.attempts]
    exact hholds'.attempts
  · intro before t later he
    obtain ⟨n, hn, hover, hrounds⟩ := hstage before t later he
    have hholds := hover.holds hstart
    have hdead : statusOf (storeAfter start (before ++ [t])) id = some Status.dead.value ↔
        after (budget config) (rounds (before ++ [t])) = .exhausted := by
      rw [hholds.status_iff, hover.statusAt_iff hstart]
      simp
    refine ⟨?_, hholds.buried_iff.trans hdead.symm⟩
    rw [hdead, failedTicks_eq, hrounds, exhausted_iff hn, JobTick.round_eq_fails, ← max_budget, Nat.cast_inj]
  · intro before t later he
    obtain ⟨n, hn, hover, hrounds⟩ := hstage before t later he
    rw [(hover.holds hstart).status_iff, hover.statusAt_iff hstart, ← JobTick.round_eq_failed,
      ← settled_iff hn, hrounds]
    simp
  · intro before t later he
    obtain ⟨n, hn, hover, hrounds⟩ := hstage before t later he
    rw [(hover.holds hstart).status_iff, hover.statusAt_iff hstart, ← JobTick.round_eq_done,
      ← settled_iff hn, hrounds]
    simp
  · rw [← max_budget, Nat.cast_le]
    exact (dispatching_le ticks).trans (tried_le (hticks.rounds_pending hstart))

end Histories

section Worlds

theorem standing_enqueue (config : GatewayConfig) {db : Redis.Db} (hf : Filed db) {id : String}
    (hnew : db (Queue.key id) = none) (hburied : ¬ Buried db id) (hready : Redis.ZsetAt db ready)
    (httl : 0 < config.queue.jobTtlS) (m : RequestMetadata) (payload : List (String × Json)) (now : ℤ) :
    ∃ db', Redis.exec now (.pipeline (enqueueWrites config id m payload now)) db = (.ok (), db') ∧
      Standing (now + config.queue.jobTtlS * 1000) id .queued 0 True False db' := by
  obtain ⟨z, t, hadd, hpipe⟩ := exec_enqueueWrites config now hnew hready httl m payload
  have hstands : Standing (now + config.queue.jobTtlS * 1000) id .queued 0 (Awaits db id) False
      (Function.update db (Queue.key id)
        (some ⟨.hash (newRecord id m payload now), some (now + config.queue.jobTtlS * 1000)⟩)) := by
    refine ⟨⟨_, _, Function.update_self .., ?_, ?_, ?_, ?_⟩, ?_, ?_, hf.job id ?_⟩
    · rintro d ⟨⟩
      exact le_rfl
    · simp [newRecord]
    · simp [newRecord, List.lookup_cons]
    · simp [newRecord, List.lookup_cons]
      rfl
    · exact awaits_congr (Function.update_of_ne (key_ne_ready id).symm _ _)
    · refine iff_of_false (mt (buried_congr ?_).mp hburied) not_false
      exact Function.update_of_ne (key_ne_dlq id).symm _ _
    · rintro _ _ name ⟨⟩ hname
      simpa [newRecord, eq_comm] using hname
  exact ⟨_, hpipe, hstands.requeue hadd⟩

theorem sameJob_of_frame {db db' : Redis.Db} (h : ∀ k, QueueKey k → db k = db' k) (id : String) :
    SameJob id db db' :=
  ⟨h _ (queueKey_key id), awaits_congr (h _ queueKey_ready), buried_congr (h _ queueKey_dlq),
    fun hf ↦ hf.congr (fun id ↦ (h _ (queueKey_key id)).symm)⟩

theorem keepsJob_answers {deadline : ℤ} (o : Outside) (hnow : o.now ≤ deadline) (jobId : String) :
    KeepsJob o.answers (fun db ↦ db) deadline jobId := by
  constructor
  · intro c db r _ hr
    refine ⟨o.now, db, _, hnow, .refl jobId db, ?_, .refl jobId _⟩
    simp only [Outside.answers] at hr ⊢
    rcases hexec : Redis.exec o.now c db with ⟨e | r', db'⟩
    · rw [hexec] at hr
      cases hr
    · rw [hexec] at hr
      obtain rfl : r' = r := Except.ok.inj hr
      rfl
  · exact fun c db hc ↦ sameJob_of_frame
      (fun k hk ↦ (o.answers_frame (fun hmem ↦ hc k hmem hk) db).symm) jobId

theorem ticksOver_single {σ : Type} {config : GatewayConfig} {db : σ → Redis.Db} {deadline : ℤ}
    (t : JobTick config db deadline) : TicksOver t.job.id (db t.start) [t] := by
  constructor
  · intro t' ht'
    rw [List.mem_singleton.mp ht']
  · intro before t' later he
    cases before with
    | nil =>
      obtain ⟨rfl, -⟩ := List.cons.inj he
      exact .refl _ _
    | cons b before => simp at he

/-- One job in the queue. -/
def queued (m : RequestMetadata) : Redis.Db :=
  (Redis.exec 0 (.pipeline (enqueueWrites .shipped (Uuid.numbered 0).hex m [] 0)) (fun _ ↦ none)).2

theorem standing_queued (m : RequestMetadata) :
    Standing (0 + GatewayConfig.shipped.queue.jobTtlS * 1000) (Uuid.numbered 0).hex .queued 0 True False
      (queued m) := by
  have hfiled : Filed (fun _ ↦ none) := by
    rintro _ _ _ _ ⟨⟩
  have hburied : ¬ Buried (fun _ ↦ none) (Uuid.numbered 0).hex := by
    rintro ⟨_, _, ⟨⟩, -⟩
  obtain ⟨db, hexec, hs⟩ := standing_enqueue .shipped hfiled rfl hburied (.inl rfl) (by decide) m [] 0
  rwa [queued, hexec]

def worked : Except Exn Bool → Bool
  | .ok worked => worked
  | .error _ => false

def roundAfter (o : Outside) (db : Redis.Db) : Redis.Db :=
  ((runOnce noEnv .shipped ⟨0, [], 0⟩).run o.answers db).2

theorem exists_tick (o : Outside) (db : Redis.Db) (m : RequestMetadata)
    (hnow : o.now ≤ 0 + GatewayConfig.shipped.queue.jobTtlS * 1000)
    (htook : took (fun job ↦ decide (job.id = (Uuid.numbered 0).hex) && decide (job.metadata = m))
      (take.run o.answers db).1 = true)
    (hworked : worked ((runOnce noEnv .shipped ⟨0, [], 0⟩).run o.answers db).1 = true) :
    ∃ t : JobTick .shipped (fun db : Redis.Db ↦ db) (0 + GatewayConfig.shipped.queue.jobTtlS * 1000),
      t.job.id = (Uuid.numbered 0).hex ∧ t.job.metadata = m ∧ t.env = noEnv ∧ t.start = db ∧
        t.ended = roundAfter o db := by
  obtain ⟨job, hjob, hcheck⟩ := exists_of_took _ htook
  simp only [Bool.and_eq_true, decide_eq_true_eq] at hcheck
  have hreturned : ((runOnce noEnv .shipped ⟨0, [], 0⟩).run o.answers db).1 = .ok true := by
    unfold worked at hworked
    split at hworked
    · next h => rw [h, hworked]
    · cases hworked
  exact ⟨{
    env := noEnv
    schedule := ⟨0, [], 0⟩
    h := o.answers
    start := db
    job := job
    begun := _
    ended := _
    keeps := keepsJob_answers _ hnow job.id
    taken := Prod.ext hjob rfl
    returned := Prod.ext hreturned rfl }, hcheck.1, hcheck.2, rfl, rfl, rfl⟩

/-- The only provider times out. -/
def timingOut : Outside := { now := 0, completion := fun _ ↦ .error (Chaos.llmExc ["Timeout"] "Request timed out.") }

def circuitOpened : Redis.Db :=
  (Redis.exec 1000 (.write (.hset (Breaker.key "ollama") (Breaker.fields .opened (some 1000) ⟨300, 0⟩)))
    (roundAfter timingOut (queued nightly))).2

theorem ticksOver_pair {id : String} {start : Redis.Db} {config : GatewayConfig} {deadline : ℤ}
    {t t' : JobTick config (fun db : Redis.Db ↦ db) deadline} (hid : t.job.id = id) (hid' : t'.job.id = id)
    (hstart : t.start = start) (hsame : SameJob id t.ended t'.start) : TicksOver id start [t, t'] := by
  refine ⟨by simp [hid, hid'], fun before t'' later he ↦ ?_⟩
  match before, he with
  | [], he =>
    obtain ⟨rfl, -⟩ := List.cons.inj he
    rw [hstart]
    exact .refl _ _
  | [_], he =>
    simp only [List.cons_append, List.nil_append, List.cons.injEq] at he
    obtain ⟨rfl, rfl, -⟩ := he
    exact hsame
  | _ :: _ :: before, he => simp at he

/-- A tick fails, and the next finds the circuit open and defers the job; and a tick serves it. -/
theorem within_budget_nightly :
    (∃ t t' : JobTick .shipped (fun db : Redis.Db ↦ db) (0 + GatewayConfig.shipped.queue.jobTtlS * 1000),
      WithinBudget (Uuid.numbered 0).hex (queued nightly) [t, t'] ∧
      attemptsOf t.ended (Uuid.numbered 0).hex = some "1" ∧
      statusOf t'.ended (Uuid.numbered 0).hex = some Status.queued.value ∧
      attemptsOf t'.ended (Uuid.numbered 0).hex = some "1") ∧
    ∃ t : JobTick .shipped (fun db : Redis.Db ↦ db) (0 + GatewayConfig.shipped.queue.jobTtlS * 1000),
      WithinBudget (Uuid.numbered 0).hex (queued nightly) [t] ∧
      statusOf t.ended (Uuid.numbered 0).hex = some Status.done.value := by
  constructor
  · obtain ⟨t, hid, -, -, hstart, hended⟩ := exists_tick timingOut (queued nightly) nightly (by decide)
      (by decide +kernel) (by decide +kernel)
    obtain ⟨t', hid', -, -, hstart', hended'⟩ := exists_tick { now := 5000 } circuitOpened nightly (by decide)
      (by decide +kernel) (by decide +kernel)
    have hsame : SameJob (Uuid.numbered 0).hex t.ended t'.start := by
      rw [hended, hstart']
      refine sameJob_of_frame (fun k hk ↦ (Redis.exec_frame (fun hmem ↦ ?_) _ _).symm) _
      rw [List.mem_singleton.mp hmem] at hk
      exact absurd hk (by decide)
    refine ⟨t, t', within_budget (standing_queued nightly) (ticksOver_pair hid hid' hstart hsame), ?_⟩
    rw [hended, hended']
    exact ⟨by decide +kernel, by decide +kernel, by decide +kernel⟩
  · obtain ⟨t, hid, -, -, hstart, hended⟩ := exists_tick { now := 0 } (queued nightly) nightly (by decide)
      (by decide +kernel) (by decide +kernel)
    have hticks := ticksOver_single t
    rw [hid, hstart] at hticks
    refine ⟨t, within_budget (standing_queued nightly) hticks, ?_⟩
    rw [hended]
    decide +kernel

/-- A job whose class was removed is ended by a tick that dispatches nothing. -/
theorem removed_class_ends :
    ∃ t : JobTick .shipped (fun db : Redis.Db ↦ db) (0 + GatewayConfig.shipped.queue.jobTtlS * 1000),
      Standing (0 + GatewayConfig.shipped.queue.jobTtlS * 1000) t.job.id .queued 0 True False t.start ∧
        TicksOver t.job.id t.start [t] ∧ t.dispatched = [] ∧
        statusOf t.ended t.job.id = some Status.failed.value := by
  obtain ⟨t, hid, hmeta, henv, hstart, hended⟩ :=
    exists_tick { now := 0 } (queued ⟨"acme", "chat", "r1", "class.that.was.removed"⟩)
      ⟨"acme", "chat", "r1", "class.that.was.removed"⟩ (by decide) (by decide +kernel) (by decide +kernel)
  have hrungs : t.rungs = [] := by
    rw [JobTick.rungs, ladder, hmeta, henv]
    decide
  refine ⟨t, ?_, ticksOver_single t, ?_, ?_⟩
  · rw [hid, hstart]
    exact standing_queued _
  · rw [JobTick.dispatched, t.facts_of_unavailable hrungs]
    rfl
  · rw [hid, hended]
    decide +kernel

end Worlds

end HealingGateway.Worker
