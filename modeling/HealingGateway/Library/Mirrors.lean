import HealingGateway.Library.Protocols

namespace Programs.Prog

variable {C : Type} {R : C → Type} {ε α β σ τ : Type} {h : Handler C R σ} {h' : Handler C R τ}
  {image : σ → τ} {p : Prog C R ε α}

/-- From the image of a state, another handler brings the program to the same end, and to the image
of the state it ends in. -/
def Mirrors (h : Handler C R σ) (h' : Handler C R τ) (image : σ → τ) (p : Prog C R ε α) : Prop :=
  ∀ s, p.run h' (image s) = ((p.run h s).1, image (p.run h s).2)

theorem mirrors_done (a : α) : (done a : Prog C R ε α).Mirrors h h' image := fun _ ↦ rfl

theorem mirrors_throw (e : ε) : (throw e : Prog C R ε α).Mirrors h h' image := fun _ ↦ rfl

theorem mirrors_ofExcept (x : Except ε α) : (ofExcept x : Prog C R ε α).Mirrors h h' image := by
  cases x with
  | ok a => exact mirrors_done a
  | error e => exact mirrors_throw e

theorem Mirrors.bind {f : α → Prog C R ε β} (hp : p.Mirrors h h' image)
    (hf : ∀ a, (f a).Mirrors h h' image) : (p >>= f).Mirrors h h' image := by
  intro s
  rw [run_bind, run_bind, hp s]
  rcases p.run h s with ⟨e | a, s'⟩
  · rfl
  · exact hf a s'

theorem Mirrors.outcome (hp : p.Mirrors h h' image) : p.outcome.Mirrors h h' image := by
  intro s
  rw [run_outcome, run_outcome, hp s]

theorem Mirrors.guarded (hp : p.Mirrors h h' image) : p.guarded.Mirrors h h' image := by
  intro s
  rw [run_guarded, run_guarded]
  exact hp s

theorem Mirrors.tryExcept {catches : ε → Bool} {handler : ε → Prog C R ε α}
    (hp : p.Mirrors h h' image) (hhandler : ∀ e, (handler e).Mirrors h h' image) :
    (tryExcept catches p handler).Mirrors h h' image := by
  refine hp.outcome.bind (fun r ↦ ?_)
  cases r with
  | ok a => exact mirrors_done a
  | error e =>
    dsimp only
    split
    · exact hhandler e
    · exact mirrors_throw e

theorem Mirrors.swallow {catches : ε → Bool} {handler : ε → Prog C R ε α}
    (hp : p.Mirrors h h' image) (hhandler : ∀ e, (handler e).Mirrors h h' image) :
    (swallow catches p handler).Mirrors h h' image :=
  hp.guarded.tryExcept hhandler

theorem Mirrors.tryFinally {cleanup : Prog C R ε Unit} (hp : p.Mirrors h h' image)
    (hcleanup : cleanup.Mirrors h h' image) : (tryFinally p cleanup).Mirrors h h' image :=
  hp.outcome.bind (fun ended ↦ hcleanup.bind (fun _ ↦ mirrors_ofExcept ended))

/-- Handlers that answer every command alike mirror every program that issues no other. -/
theorem Only.mirrors {allowed : C → Prop} (hp : p.Only allowed)
    (hc : ∀ c s, allowed c → h' c (image s) = ((h c s).1, image (h c s).2)) :
    p.Mirrors h h' image := by
  intro s
  induction p generalizing s with
  | done a => rfl
  | throw e => rfl
  | call g c k ih =>
    rw [run, run, hc c s hp.1]
    exact ih _ (hp.2 _) _

end Programs.Prog
