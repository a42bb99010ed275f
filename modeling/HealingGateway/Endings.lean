import HealingGateway.KeyOwnership
import HealingGateway.Replies
import HealingGateway.Traffic

namespace HealingGateway.Router

open Programs Programs.Prog Numerals JsonText

section Walks

variable {env : Environ} {config : GatewayConfig} {metadata : RequestMetadata}
  {payload : List (String × Json)} {ladder : List String} {possible : (c : Cmd) → Reply c → Prop}
  {P : ProviderResult → Prop}

/-- A world in which the circuits of a ladder can be read, and its providers' calls return as `P`
says. -/
structure Responsive (env : Environ) (config : GatewayConfig) (metadata : RequestMetadata)
    (payload : List (String × Json)) (ladder : List String) (possible : (c : Cmd) → Reply c → Prop)
    (P : ProviderResult → Prop) : Prop where
  circuits : ∀ provider ∈ ladder, (Breaker.allows config provider none).Delivers possible (fun _ ↦ True)
  calls : ∀ provider ∈ ladder, (attempt env config metadata payload provider).Delivers possible P

def Passed (log : ProviderCallLog) : Prop :=
  log.outcome = skippedOutcome ∨ ∃ o : Outcome, o.trippable = true ∧ log.outcome = o.value

structure Concluded (P : ProviderResult → Prop) (routed : RouteOutcome) : Prop where
  served : ∀ result ∈ routed.result, P result
  passed : routed.result = none → ∀ log ∈ routed.attempts, Passed log

theorem passed_logged {result : ProviderResult} (h : isFinal result = false) : Passed (logged result) := by
  rw [isFinal, Bool.or_eq_false_iff, Bool.not_eq_false'] at h
  exact .inr ⟨result.outcome, h.2, rfl⟩

theorem Responsive.walk (hr : Responsive env config metadata payload ladder possible P) (i : ℕ)
    {rungs : List String} (hrungs : rungs ⊆ ladder) {attempts : List ProviderCallLog}
    (hpassed : ∀ log ∈ attempts, Passed log) :
    (walk env config metadata payload ladder i rungs attempts).Delivers possible (Concluded P) := by
  induction rungs generalizing i attempts with
  | nil => exact ⟨(fun _ h ↦ by cases h), fun _ ↦ hpassed⟩
  | cons provider rungs ih =>
    have hsnoc : ∀ {log}, Passed log → ∀ log' ∈ attempts ++ [log], Passed log' :=
      fun hlog ↦ List.forall_mem_append.mpr ⟨hpassed, by simpa using hlog⟩
    obtain ⟨hprovider, hrungs⟩ := List.cons_subset.mp hrungs
    refine (hr.circuits provider hprovider).bind (fun answer _ ↦ ?_)
    split
    · exact ih (i + 1) hrungs (hsnoc (.inl rfl))
    · refine (hr.calls provider hprovider).bind (fun result hresult ↦ ?_)
      split
      · exact ⟨by rintro _ ⟨⟩; exact hresult, fun h ↦ by cases h⟩
      · next hfinal =>
        refine (delivers_metric _).bind (fun _ _ ↦ ih (i + 1) hrungs (hsnoc (passed_logged ?_)))
        simpa using hfinal

theorem Responsive.admissible (hr : Responsive env config metadata payload ladder possible P)
    (limit i : ℕ) {rungs : List String} (hrungs : rungs ⊆ ladder) :
    (admissible config limit i rungs).Delivers possible (fun admitted ↦ ∀ x ∈ admitted, x.2 ∈ ladder) := by
  induction rungs generalizing limit i with
  | nil => cases limit <;> exact fun x hx ↦ by cases hx
  | cons provider rungs ih =>
    cases limit with
    | zero => exact fun x hx ↦ by cases hx
    | succ limit =>
      obtain ⟨hprovider, hrungs⟩ := List.cons_subset.mp hrungs
      refine (hr.circuits provider hprovider).bind (fun answer _ ↦ ?_)
      split
      · refine (ih limit (i + 1) hrungs).bind (fun others hothers ↦ ?_)
        exact List.forall_mem_cons.mpr ⟨hprovider, hothers⟩
      · exact ih (limit + 1) (i + 1) hrungs

/-- A race is settled with a result as `P` says. Who lost it returned, and where nobody is served
failed as well. -/
structure Settled.Decent (P : ProviderResult → Prop) (settled : Settled) : Prop where
  result : P settled.result
  loser : ∀ ended ∈ settled.loser, ∃ lost, ended = .ok lost ∧
    (isFinal settled.result = false → isFinal lost = false)

theorem decent_together {primary hedge : Except Exn ProviderResult} (hprimary : Delivered P primary)
    (hhedge : Delivered P hedge) : Delivered (Settled.Decent P) (landedTogether primary hedge) := by
  obtain ⟨result, rfl, hresult⟩ := hprimary
  obtain ⟨result', rfl, hresult'⟩ := hhedge
  rw [landedTogether_ok]
  cases hfinal : isFinal result with
  | true => exact ⟨_, rfl, hresult, by rintro _ ⟨⟩; exact ⟨result', rfl, by simp [hfinal]⟩⟩
  | false => exact ⟨_, rfl, hresult', by rintro _ ⟨⟩; exact ⟨result, rfl, fun _ ↦ hfinal⟩⟩

theorem decent_first (isHedge : Bool) {ended : Except Exn ProviderResult} {other : Gateway ProviderResult}
    (hended : Delivered P ended) (hother : other.Delivers possible P) :
    (landedFirst isHedge ended other).Delivers possible (Settled.Decent P) := by
  obtain ⟨first, rfl, hfirst⟩ := hended
  rw [landedFirst, ofExcept_ok, done_bind]
  cases hfinal : isFinal first with
  | true => exact ⟨hfirst, fun _ h ↦ by cases h⟩
  | false =>
    refine hother.bind (fun second hsecond ↦ ?_)
    cases hfinal' : isFinal second with
    | true => exact ⟨hsecond, by rintro _ ⟨⟩; exact ⟨first, rfl, fun _ ↦ hfinal⟩⟩
    | false => exact ⟨hfirst, by rintro _ ⟨⟩; exact ⟨second, rfl, fun _ ↦ hfinal'⟩⟩

theorem decent_firstUsable (schedule : RaceSchedule) {primary hedge : Gateway ProviderResult}
    (hprimary : primary.Delivers possible P) (hhedge : hedge.Delivers possible P) :
    (firstUsable schedule primary hedge).Delivers possible (Settled.Decent P) := by
  refine (hprimary.race hhedge schedule.turns).bind (fun landing hlanding ↦ ?_)
  cases landing with
  | left ended other | right ended other =>
    obtain ⟨hended, hother⟩ := hlanding
    refine (hother.advance schedule.afterFirst).bind (fun rest hrest ↦ ?_)
    split
    · next ended' hended' =>
      first
        | exact delivers_ofExcept (decent_together hended (hrest.ended hended'))
        | exact delivers_ofExcept (decent_together (hrest.ended hended') hended)
    · exact decent_first _ hended hrest

theorem Responsive.hedgedStart (hr : Responsive env config metadata payload ladder possible P)
    (schedule : RaceSchedule) :
    (hedgedStart env config metadata payload ladder schedule).Delivers possible
      (fun raced ↦ Concluded P raced.1) := by
  refine (hr.admissible 2 0 (List.Subset.refl ladder)).bind (fun admitted hadmitted ↦ ?_)
  split
  · next firstI first secondI second others =>
    have hfirst := hr.calls first (hadmitted (firstI, first) (by simp))
    have hsecond := hr.calls second (hadmitted (secondI, second) (by simp))
    refine (hfirst.advance schedule.beforeHedge).bind (fun primary hprimary ↦ ?_)
    split
    · next ended hended =>
      obtain ⟨result, rfl, hresult⟩ := hprimary.ended hended
      rw [unhedged, ofExcept_ok, done_bind]
      cases hfinal : isFinal result with
      | true => exact ⟨by rintro _ ⟨⟩; exact hresult, fun h ↦ by cases h⟩
      | false =>
        refine (delivers_metric _).bind (fun _ _ ↦ ⟨(fun _ h ↦ by cases h), fun _ ↦ ?_⟩)
        simpa using passed_logged hfinal
    · refine (delivers_metric _).bind (fun _ _ ↦ ?_)
      refine (decent_firstUsable schedule hprimary hsecond).bind (fun settled hsettled ↦ ?_)
      refine (delivers_metric _).bind (fun _ _ ↦ ?_)
      have hothers : Delivered (fun others ↦ isFinal settled.result = false →
          ∀ log ∈ others, Passed log) (loserLog settled.loser) := by
        cases hlost : settled.loser with
        | none => exact ⟨[], rfl, fun _ _ h ↦ by cases h⟩
        | some ended =>
          obtain ⟨lost, rfl, hfailed⟩ := hsettled.loser ended hlost
          exact ⟨[logged lost], rfl, fun h ↦ by simpa using passed_logged (hfailed h)⟩
      refine (delivers_ofExcept hothers).bind (fun others hpassed ↦ ?_)
      cases hfinal : isFinal settled.result with
      | true => exact ⟨by rintro _ ⟨⟩; exact hsettled.result, fun h ↦ by cases h⟩
      | false =>
        refine (delivers_metric _).bind (fun _ _ ↦ ⟨(fun _ h ↦ by cases h), fun _ ↦ ?_⟩)
        exact List.forall_mem_cons.mpr ⟨passed_logged hfinal, hpassed hfinal⟩
  · exact ⟨(fun _ h ↦ by cases h), fun _ _ h ↦ by cases h⟩

/-- Where every circuit can be read and every call returns, so does a walk. -/
theorem Responsive.route (hr : Responsive env config metadata payload ladder possible P)
    (hclass : (config.classes.lookup metadata.requestClass).isSome) (schedule : RaceSchedule) :
    (route env config metadata payload ladder schedule).Delivers possible (Concluded P) := by
  obtain ⟨c, hc⟩ := Option.isSome_iff_exists.mp hclass
  rw [Router.route, hc, orRaise_some, done_bind]
  split
  · refine (hr.hedgedStart schedule).bind (fun raced hraced ↦ ?_)
    unfold Router.resume
    split
    · next result hresult => exact ⟨by rintro _ ⟨⟩; exact hraced.served result hresult, fun h ↦ by cases h⟩
    · next hnone => exact hr.walk _ (List.drop_subset _ _) (hraced.passed hnone)
  · exact hr.walk 0 (List.Subset.refl _) (fun _ h ↦ by cases h)

end Walks

end HealingGateway.Router

namespace HealingGateway

open Programs Programs.Prog Numerals JsonText

namespace Router

variable {env : Environ} {config : GatewayConfig} {metadata : RequestMetadata}
  {payload : List (String × Json)} {ladder : List String}

def Showable (result : ProviderResult) : Prop :=
  result.outcome.isOk = true → Schemas.renderable result = true

theorem delivers_observe {result : ProviderResult}
    (hknown : (config.providers.lookup result.provider).isSome) (hbillable : result.Billable) :
    (observe config result metadata).Delivers Sane (fun _ ↦ True) := by
  refine (delivers_ask (.metric _)).bind (fun _ _ ↦ ?_)
  rw [counted, if_pos hbillable, ofExcept_ok, done_bind]
  refine Delivers.swallow ?_
  refine (Health.delivers_record config _ _ _ _ _).bind (fun _ _ ↦ ?_)
  exact Breaker.delivers_record hknown _ _

theorem delivers_attempt {provider : String} (hknown : (config.providers.lookup provider).isSome) :
    (attempt env config metadata payload provider).Delivers Sane Showable := by
  obtain ⟨p, hp⟩ := Option.isSome_iff_exists.mp hknown
  rw [attempt, hp, orRaise_some, done_bind]
  refine (Chaos.delivers_get provider).bind (fun chaos hchaos ↦ ?_)
  refine (Providers.delivers_callProvider env provider p payload hchaos).bind (fun result hresult ↦ ?_)
  obtain ⟨rfl, hshowable, hbillable⟩ := hresult
  exact (delivers_observe hknown hbillable).bind (fun _ _ ↦ hshowable)

theorem responsive_sane (hladder : ∀ p ∈ ladder, (config.providers.lookup p).isSome) :
    Responsive env config metadata payload ladder Sane Showable where
  circuits := fun provider _ ↦ Breaker.delivers_allows config provider none
  calls := fun provider hp ↦ delivers_attempt (hladder provider hp)

end Router

theorem delivered_of_isOk {α : Type} {r : Except Exn α} (h : r.isOk = true) :
    Delivered (fun _ ↦ True) r := by
  cases r with
  | ok a => exact ⟨a, rfl, trivial⟩
  | error e => cases h

namespace Schemas

theorem delivers_presentOr {make : Gateway Json} {fits : Json → Bool}
    (hmake : make.Delivers Sane (fun j ↦ fits j = true)) {value : Option Json}
    (h : presentable value fits = true) :
    (presentOr value make).Delivers Sane (fun j ↦ fits j = true) := by
  cases value with
  | none => exact hmake
  | some j =>
    unfold presentOr
    split
    · next j' hj =>
      cases hj
      split
      · exact hmake
      · next hfalsy => simpa [presentable, hfalsy] using h
    · exact hmake

theorem delivers_toOpenaiResponse {result : ProviderResult} (h : renderable result = true)
    (metadata : RequestMetadata) (attempts : List ProviderCallLog) :
    (toOpenaiResponse result metadata attempts).Delivers Sane (fun _ ↦ True) := by
  simp only [renderable, Bool.and_eq_true] at h
  obtain ⟨⟨⟨hchoices, hid⟩, hcreated⟩, hmodel⟩ := h
  have hnewId : newId.Delivers Sane (fun j ↦ j.str?.isSome = true) := fun _ _ ↦ rfl
  have hnewCreated : newCreated.Delivers Sane (fun j ↦ (laxInt j).isSome = true) := fun _ _ ↦ rfl
  cases hc : choicesOf result.response with
  | error e =>
    rw [hc] at hchoices
    cases hchoices
  | ok choices =>
    rw [toOpenaiResponse, hc]
    refine (delivers_presentOr hnewId hid).bind (fun id hid ↦ ?_)
    refine (delivers_presentOr hnewCreated hcreated).bind (fun created hcreated ↦ delivers_ofExcept ?_)
    exact delivered_of_isOk (by rw [isOk_build, hid, hcreated, hmodel]; rfl)

end Schemas

namespace Main

open Idempotency Router

def Refuses (e : Exn) : Prop := ∃ code text, e = .http code text ∧ code ≠ 500

def Resolves {α : Type} (P : α → Prop) : Except Exn α → Prop
  | .ok a => P a
  | .error e => Refuses e

theorem Resolves.bind {α β : Type} {P : α → Prop} {P' : β → Prop} {x : Except Exn α}
    {f : α → Except Exn β} (hx : Resolves P x) (hf : ∀ a, P a → Resolves P' (f a)) :
    Resolves P' (x >>= f) := by
  cases x with
  | ok a => exact hf a hx
  | error e => exact hx

theorem resolves_resolveLadder (env : Environ) (config : GatewayConfig) (requestClass : String)
    (override : Option String) :
    Resolves (fun ladder ↦ ∀ p ∈ ladder, (config.providers.lookup p).isSome)
      (resolveLadder env config requestClass override) := by
  unfold resolveLadder
  cases override.filter (· ≠ "") with
  | some name =>
    dsimp only
    cases hp : config.providers.lookup name with
    | none => exact ⟨400, _, rfl, by decide⟩
    | some p =>
      dsimp only
      cases p.available env with
      | true =>
        intro q hq
        rw [List.mem_singleton.mp hq, hp]
        rfl
      | false => exact ⟨503, _, rfl, by decide⟩
  | none =>
    have hknown : ∀ p ∈ config.ladderFor env requestClass, (config.providers.lookup p).isSome :=
      fun _ ↦ config.ladderFor_known env
    dsimp only
    cases hladder : config.ladderFor env requestClass with
    | nil => exact ⟨503, _, rfl, by decide⟩
    | cons p ladder =>
      rw [hladder] at hknown
      exact hknown

theorem statusOf_failed {o : Outcome} (h : o.isOk = false) :
    ∃ status, statusOf o = .ok status ∧ status ≠ 500 := by
  cases o with
  | ok => cases h
  | _ => exact ⟨_, rfl, by decide⟩

theorem exhaustedStatus_concluded {P : ProviderResult → Prop} {routed : RouteOutcome}
    (h : Concluded P routed) (hnone : routed.result = none) :
    ∃ status, exhaustedStatus routed = .ok status ∧ status ≠ 500 := by
  unfold exhaustedStatus
  split
  · exact ⟨503, rfl, by decide⟩
  · next last hlast =>
    have hmem : last ∈ routed.attempts := List.mem_reverse.mp (List.mem_of_find?_eq_some hlast)
    have hran : last.outcome ≠ skippedOutcome := by
      have hfound := List.find?_some hlast
      simpa using hfound
    obtain hskipped | ⟨o, ho, hvalue⟩ := h.passed hnone last hmem
    · exact absurd hskipped hran
    · rw [hvalue, Outcome.ofValue?_value]
      apply statusOf_failed
      cases o <;> first | rfl | cases ho

variable {env : Environ} {config : GatewayConfig} {schedule : RaceSchedule} {r : ChatRequest}

theorem delivers_answer {routed : RouteOutcome} (h : Concluded Showable routed) :
    (answer r routed).Delivers Sane (fun served ↦ served.1 ≠ 500) := by
  unfold answer
  split
  · next hnone =>
    exact (delivers_ofExcept (exhaustedStatus_concluded h hnone)).bind (fun _ hstatus ↦ hstatus)
  · next result hresult =>
    cases hok : result.outcome.isOk with
    | true =>
      rw [if_pos rfl]
      have hshow := h.served result (Option.mem_def.mpr hresult) hok
      exact (Schemas.delivers_toOpenaiResponse hshow _ _).bind (fun _ _ ↦ show (200 : ℤ) ≠ 500 by decide)
    | false =>
      rw [if_neg (by simp)]
      exact (delivers_ofExcept (statusOf_failed hok)).bind (fun _ hstatus ↦ hstatus)

theorem resolves_metadata (config : GatewayConfig) (headers : Headers) :
    Resolves (fun m ↦ (config.classes.lookup m.requestClass).isSome) (headers.metadata config) := by
  have hheader : ∀ name text, Resolves (fun _ ↦ True) (header name text) := by
    intro name text
    unfold header
    split
    · exact ⟨422, _, rfl, by decide⟩
    · split
      · exact ⟨422, _, rfl, by decide⟩
      · trivial
  refine (hheader _ _).bind (fun tenant _ ↦ (hheader _ _).bind (fun feature _ ↦ ?_))
  refine (hheader _ _).bind (fun requestId _ ↦ ?_)
  dsimp only
  split
  · next hclass => exact hclass
  · exact ⟨400, _, rfl, by decide⟩

theorem delivers_accept (metadata : RequestMetadata) (request : Schemas.ChatCompletionRequest) :
    (accept config metadata request).Delivers Sane (fun served ↦ served.1 ≠ 500) := by
  have henqueue : (Queue.enqueue config metadata request.toProviderKwargs).Delivers Sane
      (fun _ ↦ True) := by
    refine (delivers_nowOr none).bind (fun now _ ↦ (delivers_ask .uuid4).bind (fun u _ ↦ ?_))
    have haccept : Stores { accepts := fun _ _ ↦ True } (.pipeline
        (Queue.enqueueWrites config u.hex metadata request.toProviderKwargs now)) :=
      .acceptJob config u.hex trivial now
    exact (delivers_stores haccept (fun _ _ _ _ h ↦ by cases h)).bind (fun _ _ ↦ trivial)
  exact henqueue.bind (fun jobId _ ↦ show (202 : ℤ) ≠ 500 by decide)

theorem finishes_serve (hclass : (config.classes.lookup r.metadata.requestClass).isSome) :
    (serve env config schedule r).Finishes Sane (Resolves (fun served ↦ served.1 ≠ 500)) := by
  have hdefers : ∃ deferred, defers config r = .ok deferred := by
    obtain ⟨c, hc⟩ := Option.isSome_iff_exists.mp hclass
    unfold defers
    rw [hc]
    split <;> exact ⟨_, rfl⟩
  obtain ⟨deferred, hdeferred⟩ := hdefers
  rw [serve, hdeferred, ofExcept_ok, done_bind]
  cases deferred with
  | true => exact (delivers_accept r.metadata r.body).finishes (fun _ h ↦ h)
  | false =>
    refine (finishes_ofExcept (resolves_resolveLadder ..)).bind (fun ladder hladder ↦ ?_) (fun _ h ↦ h)
    have hworld : Responsive env config r.metadata r.body.toProviderKwargs ladder Sane Showable :=
      responsive_sane hladder
    have hroute := hworld.route hclass schedule
    exact Delivers.finishes (hroute.bind (fun routed hrouted ↦ delivers_answer hrouted)) (fun _ h ↦ h)

def Kept (stored : Option String) : Prop :=
  ∀ text ∈ stored, text = inFlight ∨ ∃ status body, text = envelope status body ∧ status < 400

theorem resolves_replay {text : String}
    (h : text = inFlight ∨ ∃ status body, text = envelope status body ∧ status < 400) :
    Resolves (fun response : Response ↦ response.status ≠ 500) (replay text) := by
  obtain rfl | ⟨status, body, rfl, hstatus⟩ := h
  · exact ⟨409, _, rfl, by decide⟩
  · rw [← orInFlight_envelope status body, replay_envelope]
    exact fun h ↦ by
      change status = 500 at h
      omega

theorem delivers_claim {ttlS : ℤ} (httl : 0 < ttlS) (tenant k : String) :
    (claim tenant k ttlS).Delivers Sane Kept := by
  have hclaim : Stores { slots := fun _ _ ↦ True } (.set (slotKey (Idempotency.label tenant k)) inFlight true ttlS) :=
    .claimSlot (w := { slots := fun _ _ ↦ True }) trivial
  rw [claim, key_eq]
  refine (delivers_stores hclaim (fun _ _ _ _ h ↦ by cases h; exact httl)).bind (fun owned _ ↦ ?_)
  cases owned with
  | true => exact fun _ h ↦ by cases h
  | false =>
    refine Delivers.bind (delivers_redis (fun now _ hdb ↦ hdb.get_slot now _)) (fun found hfound ↦ ?_)
    rintro _ ⟨⟩
    cases found with
    | none => exact .inl rfl
    | some text =>
      obtain rfl | ⟨status, body, rfl, hstatus⟩ := hfound text rfl
      · exact .inl rfl
      · exact .inr ⟨status, body, orInFlight_envelope status body, hstatus⟩

theorem delivers_release (tenant k : String) :
    (release tenant k).Delivers Sane (fun _ ↦ True) := by
  have hfree : Stores { slots := fun _ _ ↦ True } (.delete (slotKey (Idempotency.label tenant k))) :=
    .freeSlot (show (Warrant.slots { slots := fun _ _ ↦ True }) _ 0 from trivial)
  rw [release, key_eq]
  exact Delivers.bind (delivers_stores hfree (fun _ _ _ _ h ↦ by cases h)) (fun _ _ ↦ trivial)

theorem delivers_store {status ttlS : ℤ} (httl : 0 < ttlS) (hstatus : status < 400) (tenant k : String)
    (body : Json) : (store tenant k status body ttlS).Delivers Sane (fun _ ↦ True) := by
  have hsettle : Stores { slots := fun _ _ ↦ True }
      (.set (slotKey (Idempotency.label tenant k)) (envelope status body) false ttlS) :=
    .settleSlot (w := { slots := fun _ _ ↦ True }) trivial hstatus body
  rw [store, key_eq]
  exact Delivers.bind (delivers_stores hsettle (fun _ _ _ _ h ↦ by cases h; exact httl)) (fun _ _ ↦ trivial)

theorem finishes_underClaim (httl : 0 < config.queue.idempotencyTtlS) (tenant k : String)
    {work : Gateway (ℤ × Json)} (hwork : work.Finishes Sane (Resolves (fun served ↦ served.1 ≠ 500))) :
    (underClaim config tenant k work).Finishes Sane
      (Resolves (fun response ↦ response.status ≠ 500)) := by
  have hguarded : (tryExcept (fun _ ↦ true) work (fun e ↦ do
      release tenant k
      throw e)).Finishes Sane (Resolves (fun served ↦ served.1 ≠ 500)) := by
    refine hwork.tryExcept (fun _ h ↦ h) (fun e he _ ↦ ?_) (fun _ _ h ↦ by cases h)
    exact (delivers_release tenant k).bind_finishes (fun _ _ ↦ he)
  refine hguarded.bind (fun served hserved ↦ ?_) (fun _ h ↦ h)
  dsimp only
  split
  · next hstatus =>
    exact (delivers_store httl hstatus tenant k _).bind_finishes (fun _ _ ↦ hserved)
  · exact (delivers_release tenant k).bind_finishes (fun _ _ ↦ hserved)

theorem finishes_chatCompletions (httl : 0 < config.queue.idempotencyTtlS)
    (hclass : (config.classes.lookup r.metadata.requestClass).isSome) :
    (chatCompletions env config schedule r).Finishes Sane
      (Resolves (fun response ↦ response.status ≠ 500)) := by
  have hserve : (serve env config schedule r).Finishes Sane (Resolves (fun served ↦ served.1 ≠ 500)) :=
    finishes_serve hclass
  unfold chatCompletions
  split
  · exact ⟨400, _, rfl, by decide⟩
  · split
    · exact hserve.bind (fun served hserved ↦ hserved) (fun _ h ↦ h)
    · refine (delivers_claim httl _ _).bind_finishes (fun stored hstored ↦ ?_)
      split
      · next text => exact finishes_ofExcept (resolves_replay (hstored text rfl))
      · exact finishes_underClaim httl _ _ hserve

/-- Secrets in ASCII, as `compare_digest` needs them. -/
structure Comparable (env : Environ) (headers : Headers) : Prop where
  expected : ∀ secret ∈ env "ADMIN_SECRET", isAscii secret = true
  given : ∀ secret ∈ headers.xAdminSecret, isAscii secret = true

theorem mem_of_filter {p : String → Bool} {o : Option String} {s : String} (h : o.filter p = some s) :
    s ∈ o := (Option.filter_eq_some_iff.mp h).1

theorem Comparable.resolves {headers : Headers} (h : Comparable env headers) :
    Resolves (fun _ ↦ True) (requireSecret env headers) := by
  unfold requireSecret requireAdmin
  split
  · exact ⟨503, _, rfl, by decide⟩
  · next expected hexpected =>
    split
    · exact ⟨403, _, rfl, by decide⟩
    · next given hgiven =>
      have hascii : isAscii given = true ∧ isAscii expected = true :=
        ⟨h.given _ (mem_of_filter hgiven), h.expected _ (mem_of_filter hexpected)⟩
      rw [compareDigest, hascii.1, hascii.2]
      change Resolves _ (if decide (given = expected) = true then .ok () else .error _)
      split
      · trivial
      · exact ⟨403, _, rfl, by decide⟩

theorem civil_requireSecret (env : Environ) (headers : Headers) : Civil (requireSecret env headers) := by
  rintro e h
  unfold requireSecret requireAdmin at h
  split at h
  · cases h
    rfl
  · split at h
    · cases h
      rfl
    · rcases bind_eq_error.mp h with h | ⟨equal, -, h⟩
      · unfold compareDigest at h
        split at h
        all_goals cases h
        rfl
      · split at h
        all_goals cases h
        rfl

theorem finishes_guardedBy {headers : Headers} (hsecret : Comparable env headers) {body : Gateway Json}
    (hbody : body.Finishes Sane (Resolves (fun _ ↦ True))) :
    (guardedBy env headers body).Finishes Sane (Resolves (fun response ↦ response.status ≠ 500)) := by
  refine (finishes_ofExcept hsecret.resolves).bind (fun _ _ ↦ ?_) (fun _ h ↦ h)
  exact hbody.bind (fun _ _ ↦ show (200 : ℤ) ≠ 500 by decide) (fun _ h ↦ h)

theorem delivers_adminHealth : (adminHealth config).Delivers Sane (fun _ ↦ True) := by
  unfold adminHealth
  induction providerNames config with
  | nil => trivial
  | cons name names ih =>
    refine (Health.delivers_snapshot config name none none).bind (fun snap _ ↦ ?_)
    exact ih.bind (fun _ _ ↦ trivial)

theorem delivers_adminCircuits : (adminCircuits config).Delivers Sane (fun _ ↦ True) := by
  unfold adminCircuits
  induction providerNames config with
  | nil => trivial
  | cons name names ih =>
    refine (Breaker.delivers_stateOf config name none).bind (fun circuit _ ↦ ?_)
    exact ih.bind (fun _ _ ↦ trivial)

theorem delivers_active (providers : List String) :
    (Chaos.active providers).Delivers Sane (fun _ ↦ True) := by
  have hspecs : ∀ specs, (Chaos.specsOf providers specs).Delivers Sane (fun _ ↦ True) := by
    induction providers with
    | nil => exact fun _ ↦ trivial
    | cons p providers ih => exact fun specs ↦ (Chaos.delivers_get p).bind (fun _ _ ↦ ih _)
  exact (hspecs []).bind (fun _ _ ↦ trivial)

theorem finishes_adminChaosSet (request : ChaosRequest) :
    (adminChaosSet config request).Finishes Sane (Resolves (fun _ ↦ True)) := by
  unfold adminChaosSet
  split
  · exact ⟨400, _, rfl, by decide⟩
  · split
    · exact ⟨400, _, rfl, by decide⟩
    · next htype =>
      have hinjectable : Chaos.isInjectable request.errorType = true := by simpa using htype
      have hsound : request.spec.Sound :=
        ⟨hinjectable, request.errorRate_bounds, request.latencyMs_bounds⟩
      have hinject : Stores { injects := fun _ _ ↦ True } (.set (Chaos.key request.provider)
          (dumps request.spec.asDict) false request.ttlS) :=
        .inject (w := { injects := fun _ _ ↦ True }) trivial hsound
      have hset : (Chaos.set_ request.spec request.ttlS).Delivers Sane (fun _ ↦ True) :=
        Delivers.bind (delivers_stores hinject (fun _ _ _ _ h ↦ by cases h; exact request.ttlS_bounds.1))
          (fun _ _ ↦ trivial)
      exact hset.bind_finishes (fun _ _ ↦ trivial)

theorem delivers_adminChaosClear (provider : String) :
    (adminChaosClear provider).Delivers Sane (fun _ ↦ True) := by
  have hlift : Stores { lifts := fun _ ↦ True } (.delete (Chaos.key provider)) :=
    .lift (w := { lifts := fun _ ↦ True }) trivial
  exact Delivers.bind (delivers_stores hlift (fun _ _ _ _ h ↦ by cases h)) (fun _ _ ↦ trivial)

def Route.readsJobs : Route → Bool
  | .job _ | .dlq => true
  | _ => false

/-- Routes that ask for the shared secret. -/
def Route.guarded : Route → Bool
  | .health | .circuits | .chaosList | .chaosSet _ | .chaosClear _ | .dlq => true
  | _ => false

def Request.Regular (env : Environ) (q : Request) : Prop :=
  q.route.readsJobs = false ∧ (q.route.guarded = true → Comparable env q.headers)

theorem finishes_handle (httl : 0 < config.queue.idempotencyTtlS) (encoders : Encoders) {q : Request}
    (hq : q.Regular env) :
    (q.handle env config encoders).Finishes Sane (Resolves (fun response ↦ response.status ≠ 500)) := by
  obtain ⟨route, headers⟩ := q
  obtain ⟨hjobs, hsecret⟩ := hq
  cases route with
  | healthz | models => exact show (200 : ℤ) ≠ 500 by decide
  | chat schedule body provider =>
    refine (finishes_ofExcept (resolves_metadata config headers)).bind (fun m hm ↦ ?_) (fun _ h ↦ h)
    exact finishes_chatCompletions httl hm
  | health =>
    exact finishes_guardedBy (hsecret rfl) (Delivers.bind_finishes delivers_adminHealth (fun _ _ ↦ trivial))
  | circuits =>
    exact finishes_guardedBy (hsecret rfl) (Delivers.bind_finishes delivers_adminCircuits (fun _ _ ↦ trivial))
  | chaosList =>
    exact finishes_guardedBy (hsecret rfl) (Delivers.bind_finishes (delivers_active _) (fun _ _ ↦ trivial))
  | chaosSet request => exact finishes_guardedBy (hsecret rfl) (finishes_adminChaosSet request)
  | chaosClear provider =>
    exact finishes_guardedBy (hsecret rfl) (Delivers.finishes (delivers_adminChaosClear provider) (fun _ _ ↦ trivial))
  | job | dlq => cases hjobs

theorem civil_of_resolves {α : Type} {P : α → Prop} {r : Except Exn α} (h : Resolves P r) : Civil r := by
  rintro e rfl
  obtain ⟨code, text, rfl, -⟩ := h
  rfl

theorem civil_guardedBy {headers : Headers} {body : Gateway Json} (hbody : body.Finishes Sane Civil) :
    (guardedBy env headers body).Finishes Sane Civil := by
  refine (finishes_ofExcept (civil_requireSecret env headers)).bind (fun _ _ ↦ ?_) (fun _ h ↦ Civil.error h)
  exact hbody.bind (fun _ _ ↦ Civil.ok _) (fun _ h ↦ Civil.error h)

theorem civil_getJob (jobId : String) (m : RequestMetadata) : (getJob jobId m).Finishes Sane Civil := by
  refine (Queue.finishes_get jobId).bind (fun job _ ↦ ?_) (fun _ h ↦ Civil.error h)
  have hnoJob : Civil (.error (noJob jobId) : Except Exn Json) := by
    rintro _ ⟨⟩
    rfl
  split
  · exact hnoJob
  · split
    · exact hnoJob
    · exact Civil.ok _

theorem civil_getAll (ids : List String) : (Queue.getAll ids).Finishes Sane Civil := by
  induction ids with
  | nil => exact Civil.ok _
  | cons jobId ids ih =>
    refine (Queue.finishes_get jobId).bind (fun job _ ↦ ?_) (fun _ h ↦ Civil.error h)
    exact ih.bind (fun _ _ ↦ Civil.ok _) (fun _ h ↦ Civil.error h)

theorem civil_adminDlq : adminDlq.Finishes Sane Civil := by
  have hlist : (redis (.zrange Queue.dlq (100 - 1))).Delivers Sane (fun _ ↦ True) :=
    delivers_stores (Stores.listDead (w := bystander) _) (fun _ _ _ _ h ↦ by cases h)
  refine Finishes.bind (Q := Civil) (hlist.bind_finishes (fun ids _ ↦ ?_)) (fun _ _ ↦ Civil.ok _)
    (fun _ h ↦ Civil.error h)
  exact (civil_getAll ids).bind (fun _ _ ↦ Civil.ok _) (fun _ h ↦ Civil.error h)

theorem civil_handle (httl : 0 < config.queue.idempotencyTtlS) (encoders : Encoders) (q : Request) :
    (q.handle env config encoders).Finishes Sane Civil := by
  by_cases hq : q.Regular env
  · exact (finishes_handle httl encoders hq).mono (fun _ ↦ civil_of_resolves)
  obtain ⟨route, headers⟩ := q
  cases route with
  | healthz | models | chat => exact absurd ⟨rfl, fun h ↦ by cases h⟩ hq
  | health =>
    exact civil_guardedBy (Delivers.bind_finishes delivers_adminHealth (fun _ _ ↦ Civil.ok _))
  | circuits =>
    exact civil_guardedBy (Delivers.bind_finishes delivers_adminCircuits (fun _ _ ↦ Civil.ok _))
  | chaosList =>
    exact civil_guardedBy (Delivers.bind_finishes (delivers_active _) (fun _ _ ↦ Civil.ok _))
  | chaosSet request =>
    exact civil_guardedBy ((finishes_adminChaosSet request).mono (fun _ ↦ civil_of_resolves))
  | chaosClear provider =>
    exact civil_guardedBy (Delivers.finishes (delivers_adminChaosClear provider) (fun _ _ ↦ Civil.ok _))
  | job jobId =>
    refine (finishes_ofExcept (civil_of_resolves (resolves_metadata config headers))).bind
      (fun m _ ↦ ?_) (fun _ h ↦ Civil.error h)
    exact (civil_getJob jobId m).bind (fun _ _ ↦ Civil.ok _) (fun _ h ↦ Civil.error h)
  | dlq => exact civil_guardedBy civil_adminDlq

theorem delivers_callNext {handle : Gateway Response}
    (h : handle.Finishes Sane (Resolves (fun response ↦ response.status ≠ 500))) :
    (callNext handle).Delivers Sane (fun response ↦ response.status ≠ 500) := by
  refine delivers_iff_finishes.mpr (h.tryExcept (fun response hr ↦ ⟨response, rfl, hr⟩) ?_ ?_)
  · rintro e ⟨code, text, rfl, hcode⟩ -
    refine ⟨httpResponse (.http code text), rfl, ?_⟩
    exact fun h ↦ hcode (Nat.cast_injective h)
  · rintro e ⟨code, text, rfl, -⟩ hpassed
    cases hpassed

theorem finishes_callNext {handle : Gateway Response} (h : handle.Finishes Sane Civil) :
    (callNext handle).Finishes Sane Civil :=
  h.tryExcept (fun response _ ↦ Civil.ok response) (fun e _ _ ↦ Civil.ok (httpResponse e)) (fun _ he _ ↦ he)

theorem delivers_answerTo (httl : 0 < config.queue.idempotencyTtlS) (encoders : Encoders) (q : Request) :
    (answerTo (q.endpoint env config encoders)).Delivers Sane
      (fun response ↦ q.Regular env → response.status ≠ 500) := by
  by_cases hq : q.Regular env
  · have hhandle : (q.handle env config encoders).Finishes Sane
        (Resolves (fun response ↦ response.status ≠ 500)) := finishes_handle httl encoders hq
    have hnext := delivers_callNext hhandle
    have hcounted : (countResponses (q.endpoint env config encoders)).Delivers Sane
        (fun response ↦ response.status ≠ 500) :=
      hnext.bind (fun response hresponse ↦ (delivers_ask (.metric _)).bind (fun _ _ ↦ hresponse))
    refine delivers_iff_finishes.mpr ((delivers_iff_finishes.mp hcounted).tryExcept ?_ ?_ ?_)
    · rintro response ⟨_, ⟨⟩, hresponse⟩
      exact ⟨response, rfl, fun _ ↦ hresponse⟩
    · rintro e ⟨_, ⟨⟩, -⟩
    · rintro e ⟨_, ⟨⟩, -⟩
  · have hhandle : (q.handle env config encoders).Finishes Sane Civil := civil_handle httl encoders q
    have hnext := finishes_callNext hhandle
    have hcounted : (countResponses (q.endpoint env config encoders)).Finishes Sane Civil :=
      hnext.bind (fun response _ ↦ (delivers_ask (.metric _)).bind_finishes (fun _ _ ↦ Civil.ok response))
        (fun _ he ↦ he)
    refine delivers_iff_finishes.mpr (hcounted.tryExcept (fun response _ ↦ ?_) (fun e _ _ ↦ ?_) ?_)
    · exact ⟨response, rfl, fun h ↦ absurd h hq⟩
    · exact ⟨internalServerError, rfl, fun h ↦ absurd h hq⟩
    · intro e he hpassed
      rw [he e rfl] at hpassed
      cases hpassed

end Main

end HealingGateway
