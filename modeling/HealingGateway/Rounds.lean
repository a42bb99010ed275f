import HealingGateway.Provenance

namespace HealingGateway.Queue

open Programs Programs.Prog JsonText

def Unresulted : Cmd → Prop
  | .redis (.write (.hset _ fields)) => ∀ text, ("result", text) ∉ fields
  | _ => True

theorem unresulted_update (jobId : String) (now : ℤ) {fields : List (String × String)}
    (h : ∀ text, ("result", text) ∉ fields) : (update jobId now fields).Only Unresulted := by
  refine only_redis (fun text hmem ↦ ?_)
  rcases List.mem_append.mp hmem with hmem | hmem
  · exact h text hmem
  · simp at hmem

theorem unresulted_nowMs : nowMs.Only Unresulted := only_nowMs trivial

theorem unresulted_retry (job : Job) (delayS : ℚ) (error : String) (count : Bool) :
    (retry job delayS error count).Only Unresulted := by
  refine unresulted_nowMs.bind (fun now ↦ Only.bind (unresulted_update _ _ (by simp)) (fun _ ↦ ?_))
  exact Only.bind (only_redis trivial) (fun _ ↦ trivial)

theorem unresulted_fail (job : Job) (error : String) : (fail job error).Only Unresulted :=
  unresulted_nowMs.bind (fun _ ↦ unresulted_update _ _ (by simp))

theorem unresulted_deadLetter (job : Job) (error : String) : (deadLetter job error).Only Unresulted :=
  unresulted_nowMs.bind (fun _ ↦ Only.bind (unresulted_update _ _ (by simp)) (fun _ ↦ only_redis trivial))

theorem unresulted_popDue : popDue.Only Unresulted := by
  refine unresulted_nowMs.bind (fun now ↦ Only.bind (only_redis trivial) (fun popped ↦ ?_))
  split
  · trivial
  · unfold claim
    split
    · exact Only.bind (only_redis trivial) (fun _ ↦ trivial)
    · rw [get_eq]
      refine Only.bind (Only.bind (only_redis trivial) (fun _ ↦ only_ofExcept _)) (fun job ↦ ?_)
      split
      · trivial
      · exact Only.bind (unresulted_update _ _ (by simp)) (fun _ ↦ trivial)

end HealingGateway.Queue

namespace HealingGateway.Worker

open Programs Programs.Prog JsonText Queue

theorem unresulted_observeDepth : observeDepth.Only Unresulted :=
  Only.bind (only_redis trivial) (fun _ ↦ only_ask trivial)

theorem unresulted_observeAge (job : Job) (s : Status) : (observeAge job s).Only Unresulted :=
  Only.bind (only_ask trivial) (fun _ ↦ only_ask trivial)

theorem unresulted_finish (job : Job) (s : Status) (reason : String) :
    (finish job s reason).Only Unresulted :=
  (unresulted_fail job reason).bind (fun _ ↦ unresulted_observeAge job s)

theorem unresulted_exhausted (config : GatewayConfig) (job : Job) (routed : Router.RouteOutcome) :
    (exhausted config job routed).Only Unresulted := by
  have hdelay : ∀ attempt baseS capS, (retryDelayS attempt baseS capS).Only Unresulted :=
    only_retryDelayS (fun _ _ ↦ trivial)
  unfold exhausted
  split
  · exact (hdelay _ _ _).bind (fun delayS ↦ (unresulted_retry job delayS _ _).bind (fun _ ↦ trivial))
  · unfold retryOrBury
    dsimp only
    split
    · refine (unresulted_deadLetter job _).bind (fun _ ↦ Only.bind (only_ask trivial) (fun _ ↦ ?_))
      exact unresulted_observeAge job _
    · exact (hdelay _ _ _).bind
        (fun delayS ↦ (unresulted_retry job delayS _ _).bind (fun _ ↦ only_ask trivial))

end HealingGateway.Worker

namespace HealingGateway.Service

open Programs Programs.Prog JsonText Queue Worker

def Unread (c : Cmd) : Prop := ∀ id, c ≠ .redis (.hgetall (key id))

/-- A job is the one whose record was read last, and so much was asked since. -/
def Took (v : Seen) (job : Job) (since : Seen) : Prop :=
  ∃ id raw older, v = since ++ ⟨.redis (.hgetall (key id)), .ok raw⟩ :: older ∧
    jobOf raw = .ok (some job) ∧ ∀ e ∈ since, Unread e.1

theorem Took.knows {v since : Seen} {job : Job} (h : Took v job since) : Knows v job := by
  obtain ⟨id, raw, older, rfl, hjob, -⟩ := h
  exact ⟨id, raw, List.mem_append_right _ (List.mem_cons_self ..), hjob⟩

theorem recalls_take (v : Seen) :
    take.Recalls v (fun v found ↦ ∀ job, found = some job → ∃ since, Took v job since) := by
  have hnone : ∀ v : Seen, (done none : Gateway (Option Job)).Recalls v
      (fun v found ↦ ∀ job, found = some job → ∃ since, Took v job since) :=
    fun v ↦ abides_done.mpr (fun _ h ↦ by cases h)
  refine recalls_bind (fun v _ _ ↦ recalls_bind (fun v now _ ↦ recalls_bind (fun v popped _ ↦ ?_)))
  split
  · exact hnone v
  · next id readyAtMs =>
    unfold claim
    split
    · exact recalls_bind (fun v _ _ ↦ hnone v)
    · rw [get_eq]
      refine ⟨trivial, fun reply _ ↦ ?_⟩
      cases reply with
      | error e => exact abides_throw e
      | ok raw =>
        change (ofExcept (jobOf raw) >>= _).Recalls _ _
        cases hjob : jobOf raw with
        | error e => exact abides_throw e
        | ok found =>
          cases found with
          | none => exact hnone _
          | some job =>
            refine ⟨trivial, fun reply _ ↦ ?_⟩
            cases reply with
            | error e => exact abides_throw e
            | ok _ =>
              refine abides_done.mpr ?_
              rintro _ ⟨⟩
              refine ⟨[⟨_, _⟩], id, raw, v, rfl, hjob, fun e he ↦ ?_⟩
              rw [List.mem_singleton.mp he]
              exact fun _ h ↦ by cases h

section Rounds

variable {env : Environ} {config : GatewayConfig} {allowed : Seen → Cmd → Prop}

def Idles (c : Cmd) : Prop := Issues drainer c ∧ Unresulted c

theorem idles_take : take.Only Idles :=
  Only.and (Only.bind (within_observeDepth trivial) (fun _ ↦ within_popDue trivial))
    (unresulted_observeDepth.bind (fun _ ↦ unresulted_popDue))

theorem idles_observeDepth : observeDepth.Only Idles :=
  Only.and (within_observeDepth trivial) unresulted_observeDepth

variable (hidle : ∀ v c, Idles c → allowed v c)
  (hrun : ∀ v job since schedule, Took v job since →
    (run env config schedule job).Obeys (remembering allowed) v (fun _ _ ↦ True))

include hidle hrun

theorem obeys_round (schedule : Router.RaceSchedule) (v : Seen) :
    (runOnce env config schedule).Obeys (remembering allowed) v (fun _ _ ↦ True) := by
  refine Obeys.bind ((recalls_take v).permitted idles_take hidle) (fun v taken htaken ↦ ?_)
    (fun _ _ _ ↦ trivial)
  cases taken with
  | none => trivial
  | some job =>
    refine Obeys.andThen ?_ (fun _ _ ↦ trivial) (fun _ _ ↦ trivial)
    rw [Prog.tryFinally, obeys_bind, obeys_outcome]
    obtain ⟨since, htook⟩ := htaken _ rfl job rfl
    refine (hrun v job since schedule htook).mono (fun v ended _ ↦ ?_)
    refine (idles_observeDepth.obeys hidle v).andThen (fun v _ ↦ ?_) (fun _ _ ↦ trivial)
    cases ended <;> trivial

theorem obeys_rounds (schedules : List Router.RaceSchedule) (v : Seen) :
    (drain env config schedules).Obeys (remembering allowed) v (fun _ _ ↦ True) := by
  induction schedules generalizing v with
  | nil => trivial
  | cons schedule schedules ih =>
    refine Obeys.andThen ?_ (fun v worked ↦ ?_) (fun _ _ ↦ trivial)
    · rw [exceptException, swallow, obeys_tryExcept, obeys_guarded]
      refine (obeys_round hidle hrun schedule v).mono (fun v r _ ↦ ?_)
      cases r with
      | ok worked => trivial
      | error e =>
        dsimp only
        split <;> trivial
    · split
      · exact ih v
      · refine ⟨hidle v _ ⟨.inward rfl, trivial⟩, fun slept _ ↦ ?_⟩
        cases slept with
        | error e => trivial
        | ok _ => exact ih _

end Rounds

end HealingGateway.Service
