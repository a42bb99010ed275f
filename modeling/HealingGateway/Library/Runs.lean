import HealingGateway.Library.Protocols

namespace Programs.Prog

variable {C : Type} {R : C → Type} {ε α β σ : Type}

/-- A run all of whose events are as assumed ends as `Q` says. -/
def Leads (h : Handler C R σ) (assumed : Event C R → Prop) (p : Prog C R ε α) (s : σ)
    (Q : Except ε α → σ → Prop) : Prop :=
  (∀ e ∈ p.trace h s, assumed e) → Q (p.run h s).1 (p.run h s).2

variable {h : Handler C R σ} {assumed : Event C R → Prop} {p : Prog C R ε α} {s : σ}

theorem leads_done {a : α} {Q : Except ε α → σ → Prop} (hQ : Q (.ok a) s) :
    (done a : Prog C R ε α).Leads h assumed s Q := fun _ ↦ hQ

theorem leads_throw {e : ε} {Q : Except ε α → σ → Prop} (hQ : Q (.error e) s) :
    (throw e : Prog C R ε α).Leads h assumed s Q := fun _ ↦ hQ

theorem leads_call {g : Bool} {c : C} {k : R c → Prog C R ε α} {Q : Except ε α → σ → Prop}
    (hk : assumed ⟨g, c, (h c s).1⟩ → (k (h c s).1).Leads h assumed (h c s).2 Q) :
    (call g c k).Leads h assumed s Q := by
  intro he
  exact hk (he _ (List.mem_cons_self ..)) (fun e hmem ↦ he e (List.mem_cons_of_mem _ hmem))

theorem leads_run {Q : Except ε α → σ → Prop} (hQ : Q (p.run h s).1 (p.run h s).2) :
    p.Leads h assumed s Q := fun _ ↦ hQ

theorem Leads.mono {Q Q' : Except ε α → σ → Prop} (hp : p.Leads h assumed s Q)
    (hQ : ∀ r s', Q r s' → Q' r s') : p.Leads h assumed s Q' :=
  fun he ↦ hQ _ _ (hp he)

theorem Leads.bind {f : α → Prog C R ε β} {Q : Except ε β → σ → Prop}
    {Q' : Except ε α → σ → Prop} (hp : p.Leads h assumed s Q')
    (hok : ∀ a s', Q' (.ok a) s' → (f a).Leads h assumed s' Q)
    (herror : ∀ e s', Q' (.error e) s' → Q (.error e) s') : (p >>= f).Leads h assumed s Q := by
  intro he
  rcases hrun : p.run h s with ⟨e | a, s'⟩
  · rw [trace_bind_error h hrun] at he
    have hQ' := hp he
    rw [hrun] at hQ'
    rw [run_bind_error h hrun]
    exact herror e s' hQ'
  · rw [trace_bind_ok h hrun] at he
    have hQ' := hp (fun e hmem ↦ he e (List.mem_append_left _ hmem))
    rw [hrun] at hQ'
    rw [run_bind_ok h hrun]
    exact hok a s' hQ' (fun e hmem ↦ he e (List.mem_append_right _ hmem))

/-- A run that returns, returns and leaves what `Q` says. -/
def Yields (h : Handler C R σ) (p : Prog C R ε α) (s : σ) (Q : α → σ → Prop) : Prop :=
  ∀ a s', p.run h s = (.ok a, s') → Q a s'

section Yields

variable {Q : α → σ → Prop} {Q' : β → σ → Prop}

theorem yields_done {a : α} (hQ : Q a s) : (done a : Prog C R ε α).Yields h s Q := by
  intro b s' hrun
  cases hrun
  exact hQ

theorem yields_throw (e : ε) : (throw e : Prog C R ε α).Yields h s Q := by
  intro b s' hrun
  cases hrun

theorem yields_ofExcept {x : Except ε α} (hQ : ∀ a, x = .ok a → Q a s) :
    (ofExcept x : Prog C R ε α).Yields h s Q := by
  cases x with
  | error e => exact yields_throw e
  | ok a => exact yields_done (hQ a rfl)

theorem yields_call {g : Bool} {c : C} {k : R c → Prog C R ε α}
    (hk : (k (h c s).1).Yields h (h c s).2 Q) : (call g c k).Yields h s Q := hk

theorem Yields.mono {Q₁ : α → σ → Prop} (hp : p.Yields h s Q₁) (hQ : ∀ a s', Q₁ a s' → Q a s') :
    p.Yields h s Q :=
  fun a s' hrun ↦ hQ a s' (hp a s' hrun)

theorem Yields.bind {f : α → Prog C R ε β} (hp : p.Yields h s Q)
    (hf : ∀ a s', Q a s' → (f a).Yields h s' Q') : (p >>= f).Yields h s Q' := by
  intro b s' hrun
  rcases hfirst : p.run h s with ⟨e | a, s₁⟩
  · rw [run_bind_error h hfirst] at hrun
    cases hrun
  · rw [run_bind_ok h hfirst] at hrun
    exact hf a s₁ (hp a s₁ hfirst) b s' hrun

theorem Yields.tryFinally {cleanup : Prog C R ε Unit} (hp : p.Yields h s Q)
    (hc : ∀ a s', Q a s' → cleanup.Yields h s' (fun _ s'' ↦ Q a s'')) :
    (tryFinally p cleanup).Yields h s Q := by
  rcases hrun : p.run h s with ⟨e | a, s₁⟩
  · intro a s' hended
    have houtcome : p.outcome.run h s = (.ok (.error e), s₁) := by rw [run_outcome, hrun]
    rw [Prog.tryFinally, run_bind_ok h houtcome, run_bind] at hended
    rcases hcleanup : cleanup.run h s₁ with ⟨e' | u, s₂⟩
    all_goals
      rw [hcleanup] at hended
      cases hended
  · have houtcome : p.outcome.run h s = (.ok (.ok a), s₁) := by rw [run_outcome, hrun]
    intro b s' hended
    rw [Prog.tryFinally, run_bind_ok h houtcome] at hended
    exact (hc a s₁ (hp a s₁ hrun)).bind (fun _ _ hQ ↦ yields_done hQ) b s' hended

theorem run_of_tryFinally {cleanup : Prog C R ε Unit} {a : α} {s' : σ}
    (hrun : (tryFinally p cleanup).run h s = (.ok a, s')) : ∃ s₁, p.run h s = (.ok a, s₁) := by
  have hyields : (tryFinally p cleanup).Yields h s (fun a _ ↦ ∃ s₁, p.run h s = (.ok a, s₁)) :=
    Yields.tryFinally (fun _ s₁ hp ↦ ⟨s₁, hp⟩) (fun _ _ hp _ _ _ ↦ hp)
  exact hyields a s' hrun

end Yields

/-- Every command a run issues is as `P` says where it is issued. -/
def Meets (h : Handler C R σ) (P : C → σ → Prop) : Prog C R ε α → σ → Prop
  | done _, _ => True
  | throw _, _ => True
  | call _ c k, s => P c s ∧ (k (h c s).1).Meets h P (h c s).2

theorem Only.meets {allowed : C → Prop} (hp : p.Only allowed) {P : C → σ → Prop}
    (hP : ∀ c s, allowed c → P c s) (s : σ) : p.Meets h P s := by
  induction p generalizing s with
  | done a => trivial
  | throw e => trivial
  | call g c k ih => exact ⟨hP c s hp.1, ih _ (hp.2 _) _⟩

theorem meets_bind_ok {P : C → σ → Prop} {f : α → Prog C R ε β} {s' : σ} {a : α}
    (hp : p.run h s = (.ok a, s')) :
    (p >>= f).Meets h P s ↔ p.Meets h P s ∧ (f a).Meets h P s' := by
  induction p generalizing s with
  | done b =>
    cases hp
    exact (and_iff_right trivial).symm
  | throw e => cases hp
  | call g c k ih => exact (and_congr_right (fun _ ↦ ih _ hp)).trans and_assoc.symm

theorem run_bind_done (p : Prog C R ε α) (f : α → β) (s : σ) :
    ((p >>= fun a ↦ done (f a)).run h s).2 = (p.run h s).2 := by
  rw [run_bind]
  rcases p.run h s with ⟨e | a, s'⟩
  all_goals rfl

theorem meets_bind_done {P : C → σ → Prop} (f : α → β) :
    (p >>= fun a ↦ done (f a)).Meets h P s ↔ p.Meets h P s := by
  induction p generalizing s with
  | done a => rfl
  | throw e => rfl
  | call g c k ih => exact and_congr_right (fun _ ↦ ih _)

end Programs.Prog
