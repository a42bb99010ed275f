import HealingGateway.KeyOwnership
import HealingGateway.Library.Origins
import HealingGateway.Testimony

namespace HealingGateway

open Programs Programs.Prog Numerals JsonText

namespace Schemas

/-- A response shows a result, and for whom it was got. -/
structure Shows (result : ProviderResult) (metadata : RequestMetadata) (attempts : List ProviderCallLog)
    (out : ChatCompletionResponse) : Prop where
  choices : choicesOf result.response = .ok out.choices
  usage : out.usage = ⟨result.promptTokens, result.completionTokens, result.totalTokens⟩
  model : orElse (result.response.bind (·.get? "model")) (.str result.model) = .str out.model
  xGateway : out.xGateway = gatewayMeta result metadata attempts

theorem returns_shown (result : ProviderResult) (metadata : RequestMetadata) (attempts : List ProviderCallLog) :
    (toOpenaiResponse result metadata attempts).Returns (Shows result metadata attempts) := by
  refine Returns.bind (returns_ofExcept (fun choices h ↦ h)) (fun choices hchoices ↦ ?_)
  refine (returns_any _).bind (fun id _ ↦ (returns_any _).bind (fun created _ ↦ ?_))
  refine returns_ofExcept (fun response hresponse ↦ ?_)
  obtain ⟨_, -, hresponse⟩ := bind_eq_ok.mp hresponse
  obtain ⟨_, -, hresponse⟩ := bind_eq_ok.mp hresponse
  obtain ⟨_, hmodel, hresponse⟩ := bind_eq_ok.mp hresponse
  cases hresponse
  exact ⟨hchoices, rfl, str?_eq_some (validated_eq_ok.mp hmodel), rfl⟩

end Schemas

open Service

/-- A body shows what a provider answered to a payload. -/
def Rendered (env : Environ) (config : GatewayConfig) (metadata : RequestMetadata)
    (payload : List (String × Json)) (told : Told) (body : Json) : Prop :=
  ∃ result answer attempts out, Got env config payload told result answer ∧
    Schemas.Shows result metadata attempts out ∧ body = out.asJson

section Rendering

variable {env : Environ} {config : GatewayConfig} {metadata : RequestMetadata}
  {payload : List (String × Json)}

theorem Rendered.mono {told told' : Told} {body : Json} (h : Rendered env config metadata payload told body)
    (ht : ∀ c r, told c r → told' c r) : Rendered env config metadata payload told' body := by
  obtain ⟨result, answer, attempts, out, hgot, h⟩ := h
  exact ⟨result, answer, attempts, out, hgot.mono ht, h⟩

theorem recalls_rendered {result : ProviderResult} (hok : result.outcome.isOk = true) {v : Seen}
    (h : Genuine env config payload (Asked v) result) (attempts : List ProviderCallLog) :
    (Schemas.toOpenaiResponse result metadata attempts).Recalls v
      (fun v out ↦ Rendered env config metadata payload (Asked v) out.asJson) := by
  obtain ⟨answer, hgot⟩ := h hok
  have hshown := (recalls_any (Schemas.toOpenaiResponse result metadata attempts) v).returns
    (Schemas.returns_shown result metadata attempts)
  refine (Obeys.grows hshown).mono (fun v' r hr out hout ↦ ?_)
  exact ⟨result, answer, attempts, out, hgot.mono (Asked.mono hr.1), (hr.2 out hout).2, rfl⟩

end Rendering

namespace Main

open Idempotency

/-- An answer to a chat that is not made up: a completion some provider returned, a job that was
taken in, or a refusal. -/
inductive Honest (env : Environ) (config : GatewayConfig) (told : Told) (c : ChatRequest) : ℤ → Json → Prop
  | completed {body : Json} (h : Rendered env config c.metadata c.body.toProviderKwargs told body) :
      Honest env config told c 200 body
  | deferred {jobId : String} {now : ℤ} {body : Json} (h : defers config c = .ok true)
      (hqueued : told (.redis (.pipeline
        (Queue.enqueueWrites config jobId c.metadata c.body.toProviderKwargs now))) (.ok ()))
      (hid : body.get? "job_id" = some (.str jobId)) : Honest env config told c 202 body
  | refused {status : ℤ} (h : 400 ≤ status) (body : Json) : Honest env config told c status body

theorem Honest.mono {env : Environ} {config : GatewayConfig} {c : ChatRequest} {told told' : Told}
    {status : ℤ} {body : Json} (h : Honest env config told c status body)
    (ht : ∀ c r, told c r → told' c r) : Honest env config told' c status body := by
  cases h with
  | completed h => exact .completed (h.mono ht)
  | deferred h hqueued hid => exact .deferred h (ht _ _ hqueued) hid
  | refused h => exact .refused h _

theorem statusOf_refuses {o : Outcome} {status : ℤ} (h : statusOf o = .ok status) : 400 ≤ status := by
  cases o <;> cases h <;> decide

theorem exhaustedStatus_refuses {routed : Router.RouteOutcome} {status : ℤ}
    (h : exhaustedStatus routed = .ok status) : 400 ≤ status := by
  unfold exhaustedStatus at h
  split at h
  · cases h
    decide
  · split at h
    · cases h
    · exact statusOf_refuses h

section Serving

variable {env : Environ} {config : GatewayConfig} {schedule : Router.RaceSchedule} {r : ChatRequest}
  {v : Seen}

theorem recalls_answer {routed : Router.RouteOutcome}
    (h : Router.ServesAs (fun v ↦ Genuine env config r.body.toProviderKwargs (Asked v)) v routed) :
    (answer r routed).Recalls v (fun v served ↦ Honest env config (Asked v) r served.1 served.2) := by
  unfold answer
  split
  · refine (abides_ofExcept (S := fun _ status ↦ 400 ≤ status) (fun _ ↦ exhaustedStatus_refuses)).bind
      (fun v status _ hstatus ↦ abides_done.mpr (.refused hstatus _))
  · next result hresult =>
    split
    · next hok =>
      refine (recalls_rendered hok (h result (Option.mem_def.mpr hresult)) _).bind (fun v out _ hout ↦ ?_)
      exact abides_done.mpr (.completed hout)
    · refine (abides_ofExcept (S := fun _ status ↦ 400 ≤ status) (fun _ ↦ statusOf_refuses)).bind
        (fun v status _ hstatus ↦ abides_done.mpr (.refused hstatus _))

theorem recalls_enqueue (m : RequestMetadata) (payload : List (String × Json)) :
    (Queue.enqueue config m payload).Recalls v (fun v jobId ↦ ∃ now,
      Asked v (.redis (.pipeline (Queue.enqueueWrites config jobId m payload now))) (.ok ())) := by
  refine recalls_bind (fun v now _ ↦ recalls_bind (fun v u _ ↦ ⟨trivial, fun r _ ↦ ?_⟩))
  cases r with
  | error e => exact abides_throw e
  | ok r => exact abides_done.mpr ⟨now, List.mem_cons_self ..⟩

/-- What a request is served is honest. -/
theorem recalls_serve : (serve env config schedule r).Recalls v
    (fun v served ↦ Honest env config (Asked v) r served.1 served.2) := by
  refine (abides_ofExcept (S := fun _ deferred ↦ defers config r = .ok deferred) (fun _ h ↦ h)).bind
    (fun v deferred _ hdefers ↦ ?_)
  cases deferred with
  | true =>
    refine (recalls_enqueue r.metadata r.body.toProviderKwargs).bind (fun v jobId _ hqueued ↦ ?_)
    obtain ⟨now, hqueued⟩ := hqueued
    exact abides_done.mpr (.deferred hdefers hqueued rfl)
  | false =>
    refine recalls_bind (fun v ladder _ ↦ ?_)
    exact (Router.recalls_genuine schedule).bind (fun v routed _ hrouted ↦ recalls_answer hrouted)

/-- A request stores nothing under a key but what it may answer. -/
def settles (env : Environ) (config : GatewayConfig) (c : ChatRequest) (v : Seen) : Cmd → Prop
  | .redis (.set k value false _) => ∀ l, k = slotKey l → ∃ status body, status < 400 ∧
      value = envelope status body ∧ Honest env config (Asked v) c status body
  | _ => True

/-- What a request comes to: an answer of its own, or one that was stored under its key. -/
def Came (env : Environ) (config : GatewayConfig) (c : ChatRequest) (v : Seen) (response : Response) : Prop :=
  (response.replayed = false ∧ Honest env config (Asked v) c response.status response.body) ∨
    ∃ l text, c.slot = some l ∧ Asked v (.redis (.get (slotKey l))) (.ok (some text)) ∧
      replay text = .ok response

theorem lasting_came : Lasting (Came env config r) := by
  rintro v v' response hv (⟨hown, h⟩ | ⟨l, text, hl, hasked, h⟩)
  · exact .inl ⟨hown, h.mono (Asked.mono hv)⟩
  · exact .inr ⟨l, text, hl, hv hasked, h⟩

def serving : Warrant where
  observes := fun _ ↦ True
  sends := fun _ ↦ True
  accepts := fun _ _ ↦ True
  heeds := True

theorem settles_serving {c : Cmd} (h : Issues serving c) : settles env config r v c := by
  cases h with
  | @inward c h => cases c <;> trivial
  | @store c h =>
    cases h with
    | inject h | settleSlot h => exact h.elim
    | _ => trivial
  | dispatch | observe | respond | count => trivial

theorem obeys_serve : (serve env config schedule r).Obeys (remembering (settles env config r)) v
    (fun v served ↦ ∀ a, served = .ok a → Honest env config (Asked v) r a.1 a.2) :=
  recalls_serve.permitted (within_serve (w := serving) trivial trivial (fun _ _ ↦ trivial) (fun _ ↦ trivial))
    (fun _ _ h ↦ settles_serving h)

theorem settles_release (tenant k : String) {α : Type} {f : Unit → Gateway α} {Q : Seen → Except Exn α → Prop}
    (hf : ∀ v', v ⊆ v' → (f ()).Obeys (remembering (settles env config r)) v' Q)
    (herror : ∀ v e, Q v (.error e)) :
    (release tenant k >>= f).Obeys (remembering (settles env config r)) v Q := by
  refine ⟨trivial, fun reply _ ↦ ?_⟩
  cases reply with
  | error e => exact herror _ e
  | ok _ => exact hf _ (List.subset_cons_self _ _)

theorem settles_underClaim (k : String) : (underClaim config r.metadata.tenant k
      (serve env config schedule r)).Obeys (remembering (settles env config r)) v
    (fun v ended ↦ ∀ response, ended = .ok response → Came env config r v response) := by
  have hserved : (tryExcept (fun _ ↦ true) (serve env config schedule r) (fun e ↦ do
      release r.metadata.tenant k
      throw e)).Obeys (remembering (settles env config r)) v
      (fun v served ↦ ∀ a, served = .ok a → Honest env config (Asked v) r a.1 a.2) := by
    rw [obeys_tryExcept]
    refine obeys_serve.mono (fun v served h ↦ ?_)
    cases served with
    | ok a => exact h
    | error e => exact settles_release _ _ (fun _ _ ↦ by rintro _ ⟨⟩) (fun _ _ ↦ by rintro _ ⟨⟩)
  refine hserved.bind (fun v served h ↦ ?_) (fun _ _ _ ↦ by rintro _ ⟨⟩)
  have hhonest := h served rfl
  dsimp only
  split
  · next hstatus =>
    refine ⟨fun l _ ↦ ⟨served.1, served.2, hstatus, rfl, hhonest⟩, fun reply _ ↦ ?_⟩
    cases reply with
    | error e => rintro _ ⟨⟩
    | ok _ =>
      rintro _ ⟨⟩
      exact .inl ⟨rfl, hhonest.mono (Asked.mono (List.subset_cons_self _ _))⟩
  · refine settles_release _ _ (fun v' hv ↦ ?_) (fun _ _ ↦ by rintro _ ⟨⟩)
    rintro _ ⟨⟩
    exact .inl ⟨rfl, hhonest.mono (Asked.mono hv)⟩

theorem settles_claim {k : String} {Q : Seen → Except Exn Response → Prop} {f : Gateway Response} {ttlS : ℤ}
    (hf : ∀ v, f.Obeys (remembering (settles env config r)) v Q) (herror : ∀ v e, Q v (.error e))
    (hfound : ∀ v text response, Asked v (.redis (.get (slotKey (Idempotency.label r.metadata.tenant k))))
      (.ok (some text)) → replay text = .ok response → Q v (.ok response)) :
    (claim r.metadata.tenant k ttlS >>= fun stored ↦
      match stored with
      | some stored => ofExcept (replay stored)
      | none => f).Obeys (remembering (settles env config r)) v Q := by
  rw [claim, key_eq]
  refine ⟨trivial, fun owned _ ↦ ?_⟩
  cases owned with
  | error e => exact herror _ e
  | ok owned =>
    cases owned with
    | true => exact hf _
    | false =>
      refine ⟨trivial, fun found _ ↦ ?_⟩
      cases found with
      | error e => exact herror _ e
      | ok found =>
        refine obeys_ofExcept.mpr ?_
        cases hreplay : replay (orInFlight found) with
        | error e => exact herror _ e
        | ok response =>
          have hne : orInFlight found ≠ inFlight := by
            rintro heq
            rw [heq, replay, if_pos rfl] at hreplay
            cases hreplay
          obtain _ | text := found
          · exact absurd rfl hne
          · have htext : orInFlight (some text) = text := by
              by_cases hempty : text = ""
              · exact absurd (if_pos hempty) hne
              · exact if_neg hempty
            rw [htext] at hreplay
            exact hfound _ text response (List.mem_cons_self ..) hreplay

theorem settles_chatCompletions : (chatCompletions env config schedule r).Obeys
    (remembering (settles env config r)) v
    (fun v ended ↦ ∀ response, ended = .ok response → Came env config r v response) := by
  unfold chatCompletions
  split
  · rintro _ ⟨⟩
  · next hstream =>
    cases hkey : r.key with
    | none =>
      refine obeys_serve.bind (fun v served h ↦ ?_) (fun _ _ _ ↦ by rintro _ ⟨⟩)
      rintro _ ⟨⟩
      exact .inl ⟨rfl, h served rfl⟩
    | some k =>
      refine settles_claim (fun v ↦ settles_underClaim k) (fun _ _ ↦ by rintro _ ⟨⟩) ?_
      rintro v text response hasked hreplay _ ⟨⟩
      refine .inr ⟨_, text, ?_, hasked, hreplay⟩
      rw [ChatRequest.slot, if_neg hstream, hkey]
      rfl

end Serving

end Main

end HealingGateway
