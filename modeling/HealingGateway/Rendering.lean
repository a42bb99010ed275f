import HealingGateway.Schemas

namespace HealingGateway.Schemas

open Programs Programs.Prog Numerals JsonText

def presentable (value : Option Json) (fits : Json → Bool) : Bool :=
  match value with
  | none => true
  | some j => falsy j || fits j

def renderable (result : ProviderResult) : Bool :=
  (choicesOf result.response).isOk &&
    presentable (result.response.bind (·.get? "id")) (fun j ↦ j.str?.isSome) &&
    presentable (result.response.bind (·.get? "created")) (fun j ↦ (laxInt j).isSome) &&
    (orElse (result.response.bind (·.get? "model")) (.str result.model)).str?.isSome

variable {σ : Type} (h : Handler Cmd Reply σ)

theorem run_presentOr {make : Gateway Json} {fits : Json → Bool}
    (hmake : ∀ s, ∃ j s', make.run h s = (.ok j, s') ∧ fits j = true) (value : Option Json)
    (s : σ) :
    ∃ j s', (presentOr value make).run h s = (.ok j, s') ∧
      fits j = presentable value fits := by
  cases value with
  | none => exact hmake s
  | some j =>
    cases hj : falsy j with
    | true =>
      obtain ⟨j', s', hrun, hfits⟩ := hmake s
      exact ⟨j', s', by simpa only [presentOr, hj, if_true] using hrun,
        by simpa only [presentable, hj, Bool.true_or] using hfits⟩
    | false => exact ⟨j, s, by simp [presentOr, hj], by simp [presentable, hj]⟩

theorem isOk_build (id created model : Json) (choices : List Choice)
    (usage : Usage) (xGateway : GatewayMeta) :
    (build id created model choices usage xGateway).isOk =
      (id.str?.isSome && (laxInt created).isSome && model.str?.isSome) := by
  unfold build
  cases id.str? with
  | none => rfl
  | some id =>
    cases laxInt created with
    | none => rfl
    | some created => cases model.str? <;> rfl

theorem isOk_toOpenaiResponse (result : ProviderResult) (metadata : RequestMetadata)
    (attempts : List ProviderCallLog) (s : σ) :
    ((toOpenaiResponse result metadata attempts).run h s).1.isOk = renderable result := by
  have hid : ∀ s, ∃ j s', newId.run h s = (.ok j, s') ∧ j.str?.isSome = true :=
    fun s ↦ ⟨_, _, rfl, rfl⟩
  have hcreated : ∀ s, ∃ j s', newCreated.run h s = (.ok j, s') ∧
      (laxInt j).isSome = true := fun s ↦ ⟨_, _, rfl, rfl⟩
  simp only [toOpenaiResponse, renderable]
  cases choicesOf result.response with
  | error e => rfl
  | ok choices =>
    obtain ⟨id, s₁, hrun₁, hid⟩ := run_presentOr h hid (result.response.bind (·.get? "id")) s
    obtain ⟨created, s₂, hrun₂, hcreated⟩ :=
      run_presentOr h hcreated (result.response.bind (·.get? "created")) s₁
    simp only [ofExcept_ok, done_bind]
    rw [run_bind_ok h hrun₁, run_bind_ok h hrun₂, run_ofExcept, isOk_build, hid, hcreated]
    rfl

theorem only_toOpenaiResponse (result : ProviderResult) (metadata : RequestMetadata)
    (attempts : List ProviderCallLog) :
    (toOpenaiResponse result metadata attempts).Only (fun c ↦ c.inward = true) := by
  have hpresent : ∀ value {make : Gateway Json}, make.Only (fun c ↦ c.inward = true) →
      (presentOr value make).Only (fun c ↦ c.inward = true) := by
    intro value make hmake
    unfold presentOr
    split
    · split
      · exact hmake
      · trivial
    · exact hmake
  refine Only.bind (only_ofExcept _) (fun choices ↦ Only.bind (hpresent _ ?_) (fun id ↦ ?_))
  · exact Only.bind (only_ask rfl) (fun _ ↦ trivial)
  · refine Only.bind (hpresent _ ?_) (fun created ↦ only_ofExcept _)
    exact Only.bind (only_ask rfl) (fun _ ↦ trivial)

end HealingGateway.Schemas
