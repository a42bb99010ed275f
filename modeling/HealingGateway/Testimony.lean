import HealingGateway.Tenancy
import HealingGateway.Translation

namespace HealingGateway

open Programs Programs.Prog Numerals JsonText

/-- What someone was told: commands, and the replies they got. -/
abbrev Told := (c : Cmd) → Reply c → Prop

/-- A result that is what a provider answered to a payload, and what the price table says of it. -/
structure Got (env : Environ) (config : GatewayConfig) (payload : List (String × Json)) (told : Told)
    (result : ProviderResult) (answer : Json) : Prop where
  asked : ∃ p, config.providers.lookup result.provider = some p ∧ result.model = p.model ∧
    told (.acompletion (Providers.kwargs env p payload)) (.ok answer) ∧
    (result.costUsd = ⟨0, 0⟩ ∨
      ∃ priced, told (.completionCost answer p.model priced) (.ok result.costUsd))
  response : result.response = some answer
  promptTokens : result.promptTokens = Providers.tokenCount (answer.get? "usage") "prompt_tokens"
  completionTokens :
    result.completionTokens = Providers.tokenCount (answer.get? "usage") "completion_tokens"

/-- A result is a failure, or what a provider answered. -/
def Genuine (env : Environ) (config : GatewayConfig) (payload : List (String × Json)) (told : Told)
    (result : ProviderResult) : Prop :=
  result.outcome.isOk = true → ∃ answer, Got env config payload told result answer

theorem Got.mono {env : Environ} {config : GatewayConfig} {payload : List (String × Json)}
    {told told' : Told} {result : ProviderResult} {answer : Json}
    (h : Got env config payload told result answer) (ht : ∀ c r, told c r → told' c r) :
    Got env config payload told' result answer where
  asked := by
    obtain ⟨p, hp, hmodel, hanswer, hcost⟩ := h.asked
    exact ⟨p, hp, hmodel, ht _ _ hanswer, hcost.imp_right (fun ⟨priced, hpriced⟩ ↦ ⟨priced, ht _ _ hpriced⟩)⟩
  response := h.response
  promptTokens := h.promptTokens
  completionTokens := h.completionTokens

/-- A call of a provider failed: the provider did, or a fault that was found for it did in its place. -/
inductive Raised (told : Told) (name : String) (kwargs : List (String × Json)) (e : Exn) : Prop
  | provider (h : told (.acompletion kwargs) (.error e))
  | fault {raw : Option String} {spec : Chaos.ChaosSpec}
      (hfound : told (.redis (.get (Chaos.key name))) (.ok raw)) (hspec : Chaos.readRaw raw = .ok (some spec))
      (h : e = spec.fault ∨ told (.sleep (spec.latencyMs / 1000)) (.error e))

theorem Raised.mono {told told' : Told} {name : String} {kwargs : List (String × Json)} {e : Exn}
    (h : Raised told name kwargs e) (ht : ∀ c r, told c r → told' c r) : Raised told' name kwargs e := by
  cases h with
  | provider h => exact .provider (ht _ _ h)
  | fault hfound hspec h => exact .fault (ht _ _ hfound) hspec (h.imp_right (ht _ _))

/-- A result is what came of a call with a payload. -/
inductive Stems (env : Environ) (config : GatewayConfig) (payload : List (String × Json)) (told : Told)
    (result : ProviderResult) : Prop
  | answered {answer : Json} (hok : result.outcome = .ok)
      (hgot : Got env config payload told result answer)
  | failed {p : ProviderConfig} {e : Exn} (hp : config.providers.lookup result.provider = some p)
      (hmodel : result.model = p.model)
      (hraised : Raised told result.provider (Providers.kwargs env p payload) e)
      (houtcome : result.outcome = classifyException e)
      (hfree : result.promptTokens = 0 ∧ result.completionTokens = 0 ∧ result.costUsd = ⟨0, 0⟩)

theorem Stems.mono {env : Environ} {config : GatewayConfig} {payload : List (String × Json)}
    {told told' : Told} {result : ProviderResult} (h : Stems env config payload told result)
    (ht : ∀ c r, told c r → told' c r) : Stems env config payload told' result := by
  cases h with
  | answered hok hgot => exact .answered hok (hgot.mono ht)
  | failed hp hmodel hraised houtcome hfree => exact .failed hp hmodel (hraised.mono ht) houtcome hfree

theorem Stems.genuine {env : Environ} {config : GatewayConfig} {payload : List (String × Json)} {told : Told}
    {result : ProviderResult} (h : Stems env config payload told result) :
    Genuine env config payload told result := by
  intro hok
  cases h with
  | answered _ hgot => exact ⟨_, hgot⟩
  | @failed p e _ _ _ houtcome =>
    rw [houtcome] at hok
    exact absurd (of_decide_eq_true hok) (classifyException_ne_ok e)

namespace Service

theorem Asked.mono {v v' : Seen} (hv : v ⊆ v') (c : Cmd) (r : Reply c) (h : Asked v c r) : Asked v' c r := hv h

theorem lasting_genuine {env : Environ} {config : GatewayConfig} {payload : List (String × Json)} :
    Lasting (fun v ↦ Genuine env config payload (Asked v)) :=
  fun _ _ _ hv h hok ↦ (h hok).imp (fun _ hgot ↦ hgot.mono (Asked.mono hv))

theorem lasting_stems {env : Environ} {config : GatewayConfig} {payload : List (String × Json)} :
    Lasting (fun v ↦ Stems env config payload (Asked v)) := fun _ _ _ hv h ↦ h.mono (Asked.mono hv)

end Service

open Service

namespace Providers

variable {env : Environ} {config : GatewayConfig} {payload : List (String × Json)} {v : Seen}

theorem recalls_costOf (response : Json) (model : String) :
    (costOf response model).Recalls v (fun v cost ↦ cost = ⟨0, 0⟩ ∨
      ∃ priced, Asked v (.completionCost response model priced) (.ok cost)) := by
  refine recalls_bind (fun v priced _ ↦ Abides.swallow ?_ (fun v e _ ↦ abides_done.mpr (.inl rfl)))
  refine ⟨trivial, fun cost _ ↦ abides_ofExcept (fun a ha ↦ .inr ⟨priced, ?_⟩)⟩
  subst ha
  exact List.mem_cons_self ..

def Found (name : String) (v : Seen) (chaos : Option Chaos.ChaosSpec) : Prop :=
  ∃ raw, Asked v (.redis (.get (Chaos.key name))) (.ok raw) ∧ Chaos.readRaw raw = .ok chaos

theorem Found.mono {name : String} {chaos : Option Chaos.ChaosSpec} {v v' : Seen} (h : Found name v chaos)
    (hv : v ⊆ v') : Found name v' chaos := h.imp (fun _ hraw ↦ ⟨hv hraw.1, hraw.2⟩)

theorem recalls_fault (name : String) : (Chaos.get name).Recalls v (Found name) := by
  refine ⟨trivial, fun raw _ ↦ ?_⟩
  cases raw with
  | error e => exact abides_throw e
  | ok raw => exact abides_ofExcept (fun chaos hchaos ↦ ⟨raw, List.mem_cons_self .., hchaos⟩)

theorem recalls_inject {name : String} {chaos : Option Chaos.ChaosSpec} (hchaos : Found name v chaos)
    (kwargs : List (String × Json)) :
    (inject chaos).Obeys recalling v
      (fun v r ↦ ∀ e, r = .error e → Raised (Asked v) name kwargs e) := by
  cases chaos with
  | none => rintro _ ⟨⟩
  | some spec =>
    obtain ⟨raw, hasked, hraw⟩ := hchaos
    have hstrike : ∀ v', v ⊆ v' → spec.strike.Obeys recalling v'
        (fun v r ↦ ∀ e, r = .error e → Raised (Asked v) name kwargs e) := by
      intro v' hv
      unfold Chaos.ChaosSpec.strike
      split
      · rintro _ ⟨⟩
      · refine ⟨trivial, fun draw _ ↦ ?_⟩
        change (spec.strikes draw).Obeys _ _ _
        unfold Chaos.ChaosSpec.strikes
        split
        · rintro _ ⟨⟩
          exact .fault (List.mem_cons_of_mem _ (hv hasked)) hraw (.inl rfl)
        · rintro _ ⟨⟩
    change (spec.delay >>= fun _ ↦ spec.strike).Obeys _ _ _
    unfold Chaos.ChaosSpec.delay
    split
    · exact hstrike v (List.Subset.refl v)
    · refine ⟨trivial, fun slept _ ↦ ?_⟩
      cases slept with
      | error e =>
        rintro _ ⟨⟩
        exact .fault (List.mem_cons_of_mem _ hasked) hraw (.inr (List.mem_cons_self ..))
      | ok _ => exact hstrike _ (List.subset_cons_self _ _)

theorem recalls_dispatch {name : String} (kwargs : List (String × Json)) {chaos : Option Chaos.ChaosSpec}
    (hchaos : Found name v chaos) : (dispatch kwargs chaos).Obeys recalling v (fun v r ↦
      (∀ response, r = .ok (.ok response) → Asked v (.acompletion kwargs) (.ok response)) ∧
      (∀ e, r ≠ .ok (.error e)) ∧ ∀ e, r = .error e → Raised (Asked v) name kwargs e) := by
  refine (recalls_inject hchaos kwargs).bind (fun v _ _ ↦ ⟨trivial, fun answer _ ↦ ?_⟩) (fun v e he ↦ ?_)
  · cases answer with
    | error e => exact ⟨by rintro _ ⟨⟩, by rintro _ ⟨⟩, by rintro _ ⟨⟩; exact .provider (List.mem_cons_self ..)⟩
    | ok response => exact ⟨by rintro _ ⟨⟩; exact List.mem_cons_self .., by rintro _ ⟨⟩, by rintro _ ⟨⟩⟩
  · exact ⟨by rintro _ ⟨⟩, by rintro _ ⟨⟩, by rintro _ ⟨⟩; exact he e rfl⟩

theorem recalls_callProvider {name : String} {p : ProviderConfig}
    (hp : config.providers.lookup name = some p) {chaos : Option Chaos.ChaosSpec} (hchaos : Found name v chaos) :
    (callProvider env name p payload chaos).Recalls v (fun v result ↦ result.provider = name ∧
      Stems env config payload (Asked v) result) := by
  refine recalls_bind (fun v started hv ↦ ?_)
  have hanswer : (exceptException (dispatch (kwargs env p payload) chaos) (fun e ↦ return .error e)).Recalls
      v (fun v answer ↦
        (∀ response, answer = .ok response → Asked v (.acompletion (kwargs env p payload)) (.ok response)) ∧
        ∀ e, answer = .error e → Raised (Asked v) name (kwargs env p payload) e) := by
    rw [Recalls, Abides, exceptException, swallow, obeys_tryExcept, obeys_guarded]
    refine (recalls_dispatch (kwargs env p payload) (hchaos.mono hv)).mono (fun v r hr ↦ ?_)
    obtain ⟨hok, hnever, herror⟩ := hr
    cases r with
    | ok answer =>
      rintro _ ⟨⟩
      exact ⟨fun response h ↦ hok response (congrArg _ h), fun e h ↦ absurd (congrArg _ h) (hnever e)⟩
    | error e =>
      dsimp only
      split
      · rintro _ ⟨⟩
        exact ⟨fun response h ↦ (by cases h), fun e' h ↦ herror e' (congrArg _ (Except.error.inj h))⟩
      · rintro _ ⟨⟩
  refine Abides.bind hanswer (fun v answer _ hanswer ↦ ?_)
  obtain ⟨hasked, hraised⟩ := hanswer
  cases answer with
  | error e =>
    refine recalls_bind (fun v' ended hv ↦ abides_done.mpr ⟨rfl, ?_⟩)
    exact .failed hp rfl ((hraised e rfl).mono (Asked.mono hv)) rfl ⟨rfl, rfl, rfl⟩
  | ok response =>
    refine recalls_bind (fun v ended hv ↦ (recalls_costOf response p.model).bind (fun v' cost hv' hcost ↦ ?_))
    exact abides_done.mpr ⟨rfl, .answered rfl ⟨⟨p, hp, rfl, hv' (hv (hasked response rfl)), hcost⟩, rfl, rfl, rfl⟩⟩

end Providers

namespace Router

variable {env : Environ} {config : GatewayConfig} {metadata : RequestMetadata}
  {payload : List (String × Json)} {ladder : List String} {v : Seen}

section Attempts

variable {allowed : Seen → Cmd → Prop} (hbetween : ∀ v c, Issues { heeds := True } c → allowed v c)

include hbetween

theorem abides_attempt {provider : String}
    (hcall : ∀ v p, config.providers.lookup provider = some p →
      allowed v (.acompletion (Providers.kwargs env p payload)))
    (hbook : ∀ v result, result.provider = provider → Stems env config payload (Asked v) result →
      allowed v (.metric (.observe result metadata))) (v : Seen) :
    (attempt env config metadata payload provider).Abides allowed v
      (fun v result ↦ Stems env config payload (Asked v) result) := by
  rw [attempt]
  cases hp : config.providers.lookup provider with
  | none => exact abides_throw _
  | some p =>
    rw [orRaise_some, done_bind]
    have hfault : Within { heeds := True } (Chaos.get provider) :=
      Only.bind (within_redis (.readFault trivial provider)) (fun _ ↦ only_ofExcept _)
    refine ((Providers.recalls_fault provider).permitted hfault hbetween).bind (fun v chaos _ hchaos ↦ ?_)
    have hreturns : (Providers.callProvider env provider p payload chaos).Recalls v (fun v result ↦
        result.provider = provider ∧ Stems env config payload (Asked v) result) :=
      Providers.recalls_callProvider hp hchaos
    have hissues : (Providers.callProvider env provider p payload chaos).Only (fun c ↦
        Issues { heeds := True } c ∨ c = .acompletion (Providers.kwargs env p payload)) :=
      Providers.only_callProvider (fun c hc ↦ .inl (.inward hc)) (.inr rfl) provider chaos
    refine (hreturns.permitted hissues ?_).bind (fun v result _ hresult ↦ ?_)
    · rintro v c (hc | rfl)
      · exact hbetween v c hc
      · exact hcall v p hp
    · refine Abides.bind (S := fun _ _ ↦ True) ?_ (fun v' _ hv _ ↦ abides_done.mpr (lasting_stems _ _ _ hv hresult.2))
      refine ⟨hbook v result hresult.1 hresult.2, fun _ _ ↦ ?_⟩
      refine Only.abides (Only.bind (only_ofExcept _) (fun _ ↦ ?_)) hbetween _
      exact Only.swallow (Only.bind (Health.within_record config _ _ _)
        (fun _ ↦ Breaker.within_record config _ _)) (fun _ ↦ trivial)

end Attempts

/-- What a walk serves is as `P` says. -/
def ServesAs (P : Seen → ProviderResult → Prop) (v : Seen) (routed : RouteOutcome) : Prop :=
  ∀ result ∈ routed.result, P v result

section Walks

variable {allowed : Seen → Cmd → Prop} {P : Seen → ProviderResult → Prop}

theorem abides_landedFirst (firstIsHedge : Bool) {ended : Except Exn ProviderResult}
    {other : Gateway ProviderResult} (hP : Lasting P) (hended : ∀ result, ended = .ok result → P v result)
    (hother : other.Abides allowed v P) :
    (landedFirst firstIsHedge ended other).Abides allowed v (fun v settled ↦ P v settled.result) := by
  cases ended with
  | error e => exact abides_throw e
  | ok first =>
    have hfirst := hended first rfl
    rw [landedFirst, ofExcept_ok, done_bind]
    split
    · exact abides_done.mpr hfirst
    · refine hother.bind (fun v' second hv hsecond ↦ abides_done.mpr ?_)
      split
      · exact hsecond
      · exact hP _ _ _ hv hfirst

theorem landedTogether_as {primary hedge : Except Exn ProviderResult}
    (hprimary : ∀ result, primary = .ok result → P v result)
    (hhedge : ∀ result, hedge = .ok result → P v result) :
    ∀ settled, landedTogether primary hedge = .ok settled → P v settled.result := by
  intro settled h
  obtain ⟨result, rfl, h⟩ := bind_eq_ok.mp h
  split at h
  · cases h
    exact hprimary result rfl
  · obtain ⟨result', rfl, h⟩ := bind_eq_ok.mp h
    cases h
    exact hhedge result' rfl

theorem abides_firstUsable (hallowed : Lasting allowed) (hP : Lasting P) (schedule : RaceSchedule)
    {primary hedge : Gateway ProviderResult} (hprimary : primary.Abides allowed v P)
    (hhedge : hedge.Abides allowed v P) :
    (firstUsable schedule primary hedge).Abides allowed v (fun v settled ↦ P v settled.result) := by
  refine (hprimary.race hallowed hP hhedge schedule.turns).bind (fun v landing _ hlanding ↦ ?_)
  cases landing with
  | left ended other | right ended other =>
    obtain ⟨hended, hother⟩ := hlanding
    refine (hother.advance schedule.afterFirst).bind (fun v' rest hv hrest ↦ ?_)
    have hended' : ∀ result, ended = .ok result → P v' result :=
      fun result h ↦ hP _ _ _ hv (hended result h)
    split
    · next ended'' hended'' =>
      have hlanded : ∀ result, ended'' = .ok result → P v' result := by
        rintro result rfl
        exact hrest.ended hended''
      first
        | exact abides_ofExcept (landedTogether_as hended' hlanded)
        | exact abides_ofExcept (landedTogether_as hlanded hended')
    · exact abides_landedFirst _ hP hended' hrest

variable (hbetween : ∀ v c, Issues { heeds := True } c → allowed v c)

include hbetween

theorem abides_allows (provider : String) (v : Seen) :
    (Breaker.allows config provider none).Abides allowed v (fun _ _ ↦ True) :=
  (Breaker.within_allows config provider).abides hbetween v

theorem abides_countFailover (provider : String) (ladder : List String) (i : ℕ) (result : ProviderResult)
    (v : Seen) : (countFailover provider ladder i metadata result).Abides allowed v (fun _ _ ↦ True) :=
  (only_ask (counts_issues.failover _ _ _ _)).abides hbetween v

theorem abides_walk (i : ℕ) (rungs : List String)
    (ha : ∀ provider ∈ rungs, ∀ v, (attempt env config metadata payload provider).Abides allowed v P)
    (attempts : List ProviderCallLog) (v : Seen) :
    (walk env config metadata payload ladder i rungs attempts).Abides allowed v (ServesAs P) := by
  induction rungs generalizing i attempts v with
  | nil => exact abides_done.mpr (fun _ h ↦ by cases h)
  | cons provider rungs ih =>
    obtain ⟨hprovider, hrungs⟩ := List.forall_mem_cons.mp ha
    refine (abides_allows hbetween provider v).bind (fun v answer _ _ ↦ ?_)
    split
    · exact ih _ hrungs _ _
    · refine (hprovider v).bind (fun v result _ hresult ↦ ?_)
      split
      · exact abides_done.mpr (by rintro _ ⟨⟩; exact hresult)
      · refine (abides_countFailover hbetween _ _ _ _ v).bind (fun v _ _ _ ↦ ?_)
        exact ih _ hrungs _ _

variable (ha : ∀ provider ∈ ladder, ∀ v, (attempt env config metadata payload provider).Abides allowed v P)
  (hallowed : Lasting allowed) (hP : Lasting P)

include ha hallowed hP

theorem abides_hedgedStart (schedule : RaceSchedule) (v : Seen) :
    (hedgedStart env config metadata payload ladder schedule).Abides allowed v
      (fun v raced ↦ ServesAs P v raced.1) := by
  have hnone : ∀ (v : Seen) attempts, ServesAs P v ⟨none, attempts⟩ := fun _ _ _ h ↦ by cases h
  have hadmitted := ((only_admissibleBy (fun p ↦ Breaker.within_allows config p) 2 0 ladder).abides hbetween
    v).returns (returns_admissible 2 0 ladder)
  refine hadmitted.bind (fun v admitted _ hrungs ↦ ?_)
  split
  · next firstI first secondI second others =>
    have hfirst := ha first (hrungs.2 (firstI, first) (by simp))
    have hsecond := ha second (hrungs.2 (secondI, second) (by simp))
    refine ((hfirst v).advance schedule.beforeHedge).bind (fun v primary _ hprimary ↦ ?_)
    split
    · next ended hended =>
      cases ended with
      | error e => exact abides_throw e
      | ok result =>
        have hresult := hprimary.ended hended
        rw [unhedged, ofExcept_ok, done_bind]
        split
        · exact abides_done.mpr (by rintro _ ⟨⟩; exact hresult)
        · refine (abides_countFailover hbetween _ _ _ _ v).bind (fun v _ _ _ ↦ ?_)
          exact abides_done.mpr (hnone v _)
    · have hcount : ∀ outcome v, (metric (.hedge metadata.requestClass outcome)).Abides allowed v
          (fun _ _ ↦ True) :=
        fun outcome v ↦ (only_ask (counts_issues.hedge _ outcome)).abides hbetween v
      refine (hcount .fired v).bind (fun v' _ hv _ ↦ ?_)
      have hfired := hprimary.widen hallowed hP hv
      refine (abides_firstUsable hallowed hP schedule hfired (hsecond _)).bind (fun v settled _ hsettled ↦ ?_)
      refine (hcount _ v).bind (fun v' _ hv _ ↦ ?_)
      have hlast := hP _ _ _ hv hsettled
      cases hothers : loserLog settled.loser with
      | error e => exact abides_throw e
      | ok others =>
        rw [ofExcept_ok, done_bind]
        split
        · exact abides_done.mpr (by rintro _ ⟨⟩; exact hlast)
        · refine (abides_countFailover hbetween _ _ _ _ v').bind (fun v _ _ _ ↦ ?_)
          exact abides_done.mpr (hnone v _)
  · exact abides_done.mpr (hnone _ _)

/-- What every attempt at a rung keeps to and returns, a walk keeps to and serves. -/
theorem abides_route (schedule : RaceSchedule) (v : Seen) :
    (route env config metadata payload ladder schedule).Abides allowed v (ServesAs P) := by
  rw [route]
  cases hclass : config.classes.lookup metadata.requestClass with
  | none => exact abides_throw _
  | some c =>
    rw [orRaise_some, done_bind]
    split
    · refine (abides_hedgedStart hbetween ha hallowed hP schedule v).bind (fun v raced _ hraced ↦ ?_)
      unfold resume
      split
      · next result hresult => exact abides_done.mpr (by rintro _ ⟨⟩; exact hraced result hresult)
      · exact abides_walk hbetween _ _ (fun p hp ↦ ha p (List.mem_of_mem_drop hp)) _ v
    · exact abides_walk hbetween _ _ ha _ v

end Walks

theorem recalls_genuine (schedule : RaceSchedule) :
    (route env config metadata payload ladder schedule).Recalls v
      (ServesAs (fun v ↦ Genuine env config payload (Asked v))) :=
  abides_route (fun _ _ _ ↦ trivial) (fun _ _ v ↦ (abides_attempt (fun _ _ _ ↦ trivial)
    (fun _ _ _ ↦ trivial) (fun _ _ _ _ ↦ trivial) v).mono (fun _ _ h _ ha ↦ (h _ ha).genuine)) lasting_true
    lasting_genuine schedule v

end Router

end HealingGateway
