import HealingGateway.Attribution

namespace HealingGateway.Service

open Programs Programs.Prog Queue Main

/-- A response that tells of an error. -/
def Erred (response : Response) : Prop :=
  response = internalServerError ∨ ∃ status text, response = httpResponse (.http status text)

theorem obeys_answerTo {allowed : Seen → Cmd → Prop} {P : Seen → Response → Prop} (hP : Lasting P)
    (hm : ∀ v route status, allowed v (.metric (.response route status))) {e : Endpoint} {v : Seen}
    (h : e.handle.Obeys (remembering allowed) v (fun v r ↦ ∀ response, r = .ok response → P v response)) :
    (answerTo e).Obeys (remembering allowed) v
      (fun v r ↦ ∀ response, r = .ok response → P v response ∨ Erred response) := by
  have hcalled : (callNext e.handle).Obeys (remembering allowed) v
      (fun v r ↦ ∀ response, r = .ok response → P v response ∨ Erred response) := by
    rw [callNext, obeys_tryExcept]
    refine h.mono (fun v r hr ↦ ?_)
    cases r with
    | ok response =>
      rintro _ ⟨⟩
      exact .inl (hr response rfl)
    | error e =>
      dsimp only
      split
      · next hhttp =>
        rintro _ ⟨⟩
        cases e with
        | http status text => exact .inr (.inr ⟨status, text, rfl⟩)
        | _ => cases hhttp
      · rintro _ ⟨⟩
  rw [answerTo, serverErrors, obeys_tryExcept]
  refine hcalled.bind (fun v response hresponse ↦ ⟨hm v _ _, fun r _ ↦ ?_⟩) (fun v e _ ↦ ?_)
  · rintro _ ⟨⟩
    exact (hresponse response rfl).imp_left (hP _ _ _ (List.subset_cons_self _ _))
  · dsimp only
    split
    · rintro _ ⟨⟩
      exact .inr (.inl rfl)
    · rintro _ ⟨⟩

section Requests

variable {env : Environ} {config : GatewayConfig} {encoders : Encoders} {allowed : Seen → Cmd → Prop}
  {P : Seen → Response → Prop}

theorem obeys_request (hP : Lasting P) (hm : ∀ v route status, allowed v (.metric (.response route status)))
    {q : Request} (h : (q.handle env config encoders).Obeys (remembering allowed) []
      (fun v r ↦ ∀ response, r = .ok response → P v response)) :
    ((Task.request q).body env config encoders).Obeys (remembering allowed) []
      (fun v r ↦ ∀ response, r = .ok (some response) → P v response ∨ Erred response) := by
  have hanswer := obeys_answerTo (e := q.endpoint env config encoders) hP hm h
  refine hanswer.bind (fun v response hresponse ↦ ?_) (fun _ _ _ ↦ by rintro _ ⟨⟩)
  rintro _ ⟨⟩
  exact hresponse response rfl

variable {ι : Type} [DecidableEq ι] {tasks : ι → Task} {turns : List (ι × (Outside × Fate))} {i : ι}

theorem told_of_done {Q : Seen → Except Exn (Option Response) → Prop} {response : Option Response}
    (h : ((tasks i).body env config encoders).Obeys (remembering allowed) [] Q)
    (hended : (after env config encoders tasks turns).rest i = .done response) :
    Q ((remembering allowed).after [] (Pool.share i (deeds env config encoders tasks turns))) (.ok response) := by
  have hrest : ((after env config encoders tasks turns).rest i).Obeys (remembering allowed)
      ((remembering allowed).after [] (Pool.share i (deeds env config encoders tasks turns))) Q :=
    Pool.obeys_rest h (fun _ _ _ ↦ trivial) turns
  rwa [hended] at hrest

end Requests

def Collects (config : GatewayConfig) (headers : Headers) (jobId : String) (v : Seen)
    (response : Response) : Prop :=
  ∃ m job, headers.metadata config = .ok m ∧ Reads v jobId job ∧ job.metadata.tenant = m.tenant ∧
    response = { status := 200, body := job.public }

section Reading

variable {config : GatewayConfig} {headers : Headers} {jobId : String} {v : Seen}

theorem lasting_collects : Lasting (Collects config headers jobId) := by
  rintro v v' response hv ⟨m, job, hm, hreads, h⟩
  exact ⟨m, job, hm, hreads.mono hv, h⟩

theorem recalls_getJob (m : RequestMetadata) : (getJob jobId m).Recalls v (fun v body ↦
    ∃ job, Reads v jobId job ∧ job.metadata.tenant = m.tenant ∧ body = job.public) := by
  refine Abides.bind (S := fun v found ↦ ∀ job, found = some job → Reads v jobId job) ?_
    (fun v found _ hfound ↦ ?_)
  · refine (obeys_reads trivial).mono (fun v r hr ↦ ?_)
    rintro _ rfl job rfl
    exact hr job rfl
  · cases found with
    | none => exact abides_throw _
    | some job =>
      dsimp only
      split
      · exact abides_throw _
      · next htenant => exact abides_done.mpr ⟨job, hfound job rfl, not_not.mp htenant, rfl⟩

theorem recalls_jobEndpoint :
    (jobEndpoint config headers jobId).handle.Recalls v (Collects config headers jobId) := by
  change (ofExcept (headers.metadata config) >>= _).Recalls _ _
  cases hm : headers.metadata config with
  | error e => exact abides_throw e
  | ok m =>
    refine (recalls_getJob m).bind (fun v body _ hbody ↦ abides_done.mpr ?_)
    obtain ⟨job, hreads, htenant, rfl⟩ := hbody
    exact ⟨m, job, hm, hreads, htenant, rfl⟩

end Reading

section Tenants

variable {env : Environ} {config : GatewayConfig} {encoders : Encoders} {ι : Type} [DecidableEq ι]
  {tasks : ι → Task} {turns : List (ι × (Outside × Fate))}

/-- What a poller is told: an error, or a job it has read. -/
theorem collects_of_done {i : ι} {jobId : String} {headers : Headers} {response : Response}
    (hi : tasks i = .request ⟨.job jobId, headers⟩)
    (hended : (after env config encoders tasks turns).rest i = .done (some response)) :
    Collects config headers jobId
      (recalling.after [] (Pool.share i (deeds env config encoders tasks turns))) response ∨
      Erred response := by
  have hobeys : ((tasks i).body env config encoders).Obeys recalling [] (fun v r ↦
      ∀ response, r = .ok (some response) → Collects config headers jobId v response ∨ Erred response) := by
    rw [hi]
    exact obeys_request (q := ⟨.job jobId, headers⟩) lasting_collects (fun _ _ _ ↦ trivial)
      recalls_jobEndpoint
  exact told_of_done hobeys hended response rfl

end Tenants

def handover : Bool → Task
  | true => .request ⟨.chat ⟨0, [], 0⟩ (.ofText "hello") none, callerHeaders "batch.generate"⟩
  | false => .request ⟨.job "00000000000000000000000000000000", callerHeaders "batch.generate"⟩

def handoverTurns : List (Bool × (Outside × Fate)) :=
  (List.range 6).map (fun n ↦ (decide (n < 4), { now := n }, .answered))

def toldOfJob (rest : Gateway (Option Response)) : Bool :=
  match rest with
  | .done (some response) => (response.body.get? "job_id").isSome
  | _ => false

theorem done_of_toldOfJob {rest : Gateway (Option Response)} (h : toldOfJob rest = true) :
    ∃ response, rest = .done (some response) ∧ (response.body.get? "job_id").isSome = true := by
  unfold toldOfJob at h
  split at h
  · next response => exact ⟨response, rfl, h⟩
  · cases h

theorem toldOfJob_handover :
    toldOfJob ((after (fun _ ↦ none) .shipped {} handover handoverTurns).rest false) = true := by
  decide +kernel

end HealingGateway.Service
