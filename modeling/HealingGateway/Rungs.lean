import HealingGateway.Moves

namespace HealingGateway.Router

open Programs Programs.Prog Numerals JsonText

/-- What a race may come to: both results are those of the calls that raced, a walk goes on
only where both have failed, and a hedge never wins over a final answer that was there. -/
structure Settled.Fair (first second : String) (settled : Settled) : Prop where
  provider : settled.result.provider = if settled.wonByHedge then second else first
  loser : ∀ result, settled.loser = some (.ok result) →
    result.provider = if settled.wonByHedge then first else second
  failed : isFinal settled.result = false → ∃ ended, settled.loser = some ended ∧
    ∀ result, ended = .ok result → isFinal result = false
  hedge : settled.wonByHedge = true → ∀ result, settled.loser = some (.ok result) →
    isFinal result = false

/-- As `Settled.Fair`, once the loser's log was taken. -/
def Raced.Fair (first second : String) : Raced → Prop
  | alone result => result.provider = first
  | settled won result loser =>
    result.provider = (if won then second else first) ∧
      (∀ l ∈ loser, l.provider = if won then first else second) ∧
      (isFinal result = false → ∃ l, loser = some l ∧ isFinal l = false) ∧
      (won = true → ∀ l ∈ loser, isFinal l = false)

section Units

variable {env : Environ} {config : GatewayConfig} {metadata : RequestMetadata}
  {payload : List (String × Json)} {ladder : List String} {schedule : RaceSchedule}
  {first second : String}

theorem returns_callProvider {p : ProviderConfig} {chaos : Option Chaos.ChaosSpec} (provider : String) :
    (Providers.callProvider env provider p payload chaos).Returns
      (fun result ↦ result.provider = provider) := by
  refine (returns_any _).bind (fun started _ ↦ (returns_any _).bind (fun answer _ ↦ ?_))
  cases answer with
  | ok response => exact (returns_any _).bind (fun _ _ ↦ (returns_any _).bind (fun _ _ ↦ rfl))
  | error e => exact (returns_any _).bind (fun _ _ ↦ rfl)

theorem returns_attempt (provider : String) :
    (attempt env config metadata payload provider).Returns (fun result ↦ result.provider = provider) := by
  refine (returns_any _).bind (fun p _ ↦ (returns_any _).bind (fun chaos _ ↦ ?_))
  refine (returns_callProvider provider).bind (fun result hresult ↦ ?_)
  exact (returns_any _).bind (fun _ _ ↦ hresult)

theorem fair_landedTogether {primary hedge : Except Exn ProviderResult}
    (hprimary : ∀ result, primary = .ok result → result.provider = first)
    (hhedge : ∀ result, hedge = .ok result → result.provider = second) :
    ∀ settled, landedTogether primary hedge = .ok settled → settled.Fair first second := by
  intro settled h
  obtain ⟨result, rfl, h⟩ := bind_eq_ok.mp h
  split at h
  · next hfinal =>
    cases h
    refine ⟨hprimary _ rfl, fun l hl ↦ hhedge l (Option.some.inj hl), fun hfail ↦ ?_, fun hwon ↦ ?_⟩
    · rw [hfinal] at hfail
      cases hfail
    · cases hwon
  · next hfail =>
    rw [Bool.not_eq_true] at hfail
    obtain ⟨result', rfl, h⟩ := bind_eq_ok.mp h
    cases h
    have hloser : ∀ l, some (Except.ok result : Except Exn ProviderResult) = some (.ok l) → l = result := by
      intro l hl
      cases hl
      rfl
    refine ⟨hhedge _ rfl, fun l hl ↦ ?_, fun _ ↦ ⟨_, rfl, fun l hl ↦ ?_⟩, fun _ l hl ↦ ?_⟩
    · rw [hloser l hl]
      exact hprimary _ rfl
    · cases hl
      exact hfail
    · rw [hloser l hl]
      exact hfail

theorem returns_landedFirst (firstIsHedge : Bool) {ended : Except Exn ProviderResult}
    {other : Gateway ProviderResult}
    (hended : ∀ result, ended = .ok result →
      result.provider = if firstIsHedge then second else first)
    (hother : other.Returns (fun result ↦
      result.provider = if firstIsHedge then first else second)) :
    (landedFirst firstIsHedge ended other).Returns (Settled.Fair first second) := by
  refine (returns_ofExcept (P := fun result ↦
    result.provider = if firstIsHedge then second else first) hended).bind (fun result hresult ↦ ?_)
  split
  · next hfinal =>
    refine ⟨hresult, fun l hl ↦ (by cases hl), fun hfail ↦ ?_, fun _ l hl ↦ (by cases hl)⟩
    rw [hfinal] at hfail
    cases hfail
  · next hfail =>
    rw [Bool.not_eq_true] at hfail
    refine hother.bind (fun result' hresult' ↦ ?_)
    simp only [pure_eq, returns_done]
    split
    · next hfinal' =>
      refine ⟨?_, fun l hl ↦ ?_, fun hfail' ↦ ?_, fun _ l hl ↦ ?_⟩
      · cases firstIsHedge <;> exact hresult'
      · cases hl
        cases firstIsHedge <;> exact hresult
      · rw [hfinal'] at hfail'
        cases hfail'
      · cases hl
        exact hfail
    · next hfail' =>
      rw [Bool.not_eq_true] at hfail'
      refine ⟨hresult, fun l hl ↦ ?_, fun _ ↦ ⟨_, rfl, fun l hl ↦ ?_⟩, fun _ l hl ↦ ?_⟩
      · cases hl
        exact hresult'
      · cases hl
        exact hfail'
      · cases hl
        exact hfail'

theorem returns_firstUsable {primary hedge : Gateway ProviderResult}
    (hprimary : primary.Returns (fun result ↦ result.provider = first))
    (hhedge : hedge.Returns (fun result ↦ result.provider = second)) :
    (firstUsable schedule primary hedge).Returns (Settled.Fair first second) := by
  refine (hprimary.race hhedge schedule.turns).bind (fun landing hlanding ↦ ?_)
  cases landing with
  | left ended other =>
    obtain ⟨hended, hother⟩ := hlanding
    refine (hother.advance schedule.afterFirst).bind (fun rest hrest ↦ ?_)
    split
    · next ended' hended' =>
      apply returns_ofExcept
      apply fair_landedTogether hended
      intro result hresult
      exact hrest.ended (hended'.trans (congrArg some hresult))
    · exact returns_landedFirst false hended hrest
  | right ended other =>
    obtain ⟨hended, hother⟩ := hlanding
    refine (hother.advance schedule.afterFirst).bind (fun rest hrest ↦ ?_)
    split
    · next ended' hended' =>
      apply returns_ofExcept
      refine fair_landedTogether (fun result hresult ↦ ?_) hended
      exact hrest.ended (hended'.trans (congrArg some hresult))
    · exact returns_landedFirst true hended hrest

theorem fair_settled {settled : Settled} (h : settled.Fair first second)
    {loser : Option ProviderResult} (hloser : loserResult settled.loser = .ok loser) :
    (Raced.settled settled.wonByHedge settled.result loser).Fair first second := by
  have hmem : ∀ l ∈ loser, settled.loser = some (.ok l) := by
    intro l hl
    cases hs : settled.loser with
    | none =>
      rw [hs] at hloser
      cases hloser
      cases hl
    | some ended =>
      rw [hs] at hloser
      cases ended with
      | error e => cases hloser
      | ok result =>
        cases hloser
        cases hl
        rfl
  refine ⟨h.provider, fun l hl ↦ h.loser l (hmem l hl), fun hfail ↦ ?_,
    fun hwon l hl ↦ h.hedge hwon l (hmem l hl)⟩
  obtain ⟨ended, hended, hbad⟩ := h.failed hfail
  rw [hended] at hloser
  cases ended with
  | error e => cases hloser
  | ok l =>
    cases hloser
    exact ⟨l, rfl, hbad l rfl⟩

theorem returns_race :
    (race env config metadata payload schedule first second).Returns (Raced.Fair first second) := by
  refine ((returns_attempt first).advance schedule.beforeHedge).bind (fun primary hprimary ↦ ?_)
  split
  · next ended hended =>
    refine (returns_ofExcept (P := fun result ↦ result.provider = first) ?_).bind ?_
    · intro result hresult
      exact hprimary.ended (hended.trans (congrArg some hresult))
    · intro result hresult
      exact hresult
  · refine (returns_any _).bind (fun _ _ ↦ ?_)
    refine (returns_firstUsable hprimary (returns_attempt second)).bind (fun settled hsettled ↦ ?_)
    refine (returns_any _).bind (fun _ _ ↦ ?_)
    refine (returns_ofExcept (P := fun loser ↦ loserResult settled.loser = .ok loser) ?_).bind
      (fun loser hloser ↦ fair_settled hsettled hloser)
    exact fun loser h ↦ h

end Units

end HealingGateway.Router
