import HealingGateway.Library.Pools
import HealingGateway.Library.Turns

namespace Programs

variable {C : Type} {R : C → Type} {ε α β σ : Type}

/-- A program is sure to return, and what it returns is as `P` says, as long as every reply is a
possible one. -/
def Prog.Delivers (possible : (c : C) → R c → Prop) (P : α → Prop) : Prog C R ε α → Prop
  | .done a => P a
  | .throw _ => False
  | .call _ c k => ∀ r, possible c r → (k r).Delivers possible P

def Delivered (P : α → Prop) (r : Except ε α) : Prop := ∃ a, r = .ok a ∧ P a

instance {P : α → Prop} [DecidablePred P] : (r : Except ε α) → Decidable (Delivered P r)
  | .ok a => decidable_of_iff (P a) ⟨fun h ↦ ⟨a, rfl, h⟩, fun ⟨_, ha, h⟩ ↦ Except.ok.inj ha ▸ h⟩
  | .error _ => isFalse (fun ⟨_, h, _⟩ ↦ nomatch h)

namespace Prog

variable {possible : (c : C) → R c → Prop} {P Q : α → Prop} {p q : Prog C R ε α}

@[simp] theorem delivers_done (a : α) : (done a : Prog C R ε α).Delivers possible P ↔ P a := Iff.rfl

theorem delivers_ofExcept {r : Except ε α} (h : Delivered P r) :
    (ofExcept r : Prog C R ε α).Delivers possible P := by
  obtain ⟨a, rfl, ha⟩ := h
  exact ha

theorem Delivers.bind {P' : β → Prop} {f : α → Prog C R ε β} (hp : p.Delivers possible P)
    (hf : ∀ a, P a → (f a).Delivers possible P') : (p >>= f).Delivers possible P' := by
  induction p with
  | done a => exact hf a hp
  | throw e => cases hp
  | call g c k ih => exact fun r hr ↦ ih r (hp r hr)

theorem Delivers.mono (hp : p.Delivers possible P) (h : ∀ a, P a → Q a) : p.Delivers possible Q := by
  induction p with
  | done a => exact h a hp
  | throw e => exact hp
  | call g c k ih => exact fun r hr ↦ ih r (hp r hr)

theorem Delivers.outcome (hp : p.Delivers possible P) : p.outcome.Delivers possible (Delivered P) := by
  induction p with
  | done a => exact ⟨a, rfl, hp⟩
  | throw e => cases hp
  | call g c k ih => exact fun r hr ↦ ih r (hp r hr)

theorem Delivers.ended {r : Except ε α} (hp : p.Delivers possible P) (h : p.ended? = some r) :
    Delivered P r := by
  cases p with
  | done a =>
    cases h
    exact ⟨a, rfl, hp⟩
  | throw e => cases hp
  | call g c k => cases h

theorem Delivers.advance (hp : p.Delivers possible P) (n : ℕ) :
    (p.advance n).Delivers possible (Delivers possible P) := by
  induction n generalizing p with
  | zero => cases p <;> exact hp
  | succ n ih =>
    cases p with
    | done a => exact hp
    | throw e => cases hp
    | call g c k => exact fun r hr ↦ ih (hp r hr)

def Landing.Delivers (possible : (c : C) → R c → Prop) (P Q : α → Prop) : Landing C R ε α → Prop
  | .left ended other => Delivered P ended ∧ other.Delivers possible Q
  | .right ended other => Delivered Q ended ∧ other.Delivers possible P

theorem Delivers.race (hp : p.Delivers possible P) (hq : q.Delivers possible Q) (turns : List Bool) :
    (race turns p q).Delivers possible (Landing.Delivers possible P Q) := by
  induction turns generalizing p q with
  | nil =>
    cases p with
    | done a => exact ⟨⟨a, rfl, hp⟩, hq⟩
    | throw e => cases hp
    | call g c k =>
      cases q with
      | done b => exact ⟨⟨b, rfl, hq⟩, hp⟩
      | throw e => cases hq
      | call g' c' k' =>
        rw [race_nil]
        exact hp.outcome.bind (fun ended hended ↦ ⟨hended, hq⟩)
  | cons turn turns ih =>
    cases p with
    | done a => exact ⟨⟨a, rfl, hp⟩, hq⟩
    | throw e => cases hp
    | call g c k =>
      cases q with
      | done b => exact ⟨⟨b, rfl, hq⟩, hp⟩
      | throw e => cases hq
      | call g' c' k' =>
        cases turn with
        | true => exact fun r hr ↦ ih (hp r hr) hq
        | false => exact fun r hr ↦ ih hp (hq r hr)

theorem Delivers.run (hp : p.Delivers possible P) {h : Handler C R σ}
    (hh : ∀ c s, possible c (h c s).1) (s : σ) : Delivered P (p.run h s).1 := by
  induction p generalizing s with
  | done a => exact ⟨a, rfl, hp⟩
  | throw e => cases hp
  | call g c k ih => exact ih _ (hp _ (hh c s)) _

theorem delivers_of_run {reply : (c : C) → R c}
    (h : Delivered P (p.run (fun c u ↦ (reply c, u)) ()).1) :
    p.Delivers (fun c r ↦ r = reply c) P := by
  induction p with
  | done a =>
    obtain ⟨_, ⟨⟩, ha⟩ := h
    exact ha
  | throw e =>
    obtain ⟨_, ⟨⟩, -⟩ := h
  | call g c k ih =>
    rintro _ rfl
    exact ih _ h

/-- Whatever the possible replies, the program ends as `Q` says. -/
def Finishes (possible : (c : C) → R c → Prop) (Q : Except ε α → Prop) : Prog C R ε α → Prop
  | done a => Q (.ok a)
  | throw e => Q (.error e)
  | call _ c k => ∀ r, possible c r → (k r).Finishes possible Q

section Finishes

variable {Q Q' : Except ε α → Prop}

theorem finishes_ofExcept {r : Except ε α} (h : Q r) :
    (ofExcept r : Prog C R ε α).Finishes possible Q := by
  cases r <;> exact h

theorem Finishes.mono (hp : p.Finishes possible Q) (h : ∀ r, Q r → Q' r) :
    p.Finishes possible Q' := by
  induction p with
  | done a => exact h _ hp
  | throw e => exact h _ hp
  | call g c k ih => exact fun r hr ↦ ih r (hp r hr)

theorem delivers_iff_finishes : p.Delivers possible P ↔ p.Finishes possible (Delivered P) := by
  induction p with
  | done a => exact ⟨fun h ↦ ⟨a, rfl, h⟩, fun ⟨_, ha, h⟩ ↦ Except.ok.inj ha ▸ h⟩
  | throw e => exact ⟨fun h ↦ h.elim, fun ⟨_, h, _⟩ ↦ nomatch h⟩
  | call g c k ih => exact forall_congr' (fun r ↦ imp_congr_right (fun _ ↦ ih r))

theorem Delivers.finishes (hp : p.Delivers possible P) (h : ∀ a, P a → Q (.ok a)) :
    p.Finishes possible Q := by
  refine (delivers_iff_finishes.mp hp).mono ?_
  rintro _ ⟨a, rfl, ha⟩
  exact h a ha

theorem Finishes.bind {Q' : Except ε β → Prop} {f : α → Prog C R ε β} (hp : p.Finishes possible Q)
    (hf : ∀ a, Q (.ok a) → (f a).Finishes possible Q') (he : ∀ e, Q (.error e) → Q' (.error e)) :
    (p >>= f).Finishes possible Q' := by
  induction p with
  | done a => exact hf a hp
  | throw e => exact he e hp
  | call g c k ih => exact fun r hr ↦ ih r (hp r hr)

theorem Delivers.bind_finishes {Q : Except ε β → Prop} {f : α → Prog C R ε β} (hp : p.Delivers possible P)
    (hf : ∀ a, P a → (f a).Finishes possible Q) : (p >>= f).Finishes possible Q := by
  induction p with
  | done a => exact hf a hp
  | throw e => cases hp
  | call g c k ih => exact fun r hr ↦ ih r (hp r hr)

theorem Finishes.outcome (hp : p.Finishes possible Q) : p.outcome.Delivers possible Q := by
  induction p with
  | done a => exact hp
  | throw e => exact hp
  | call g c k ih => exact fun r hr ↦ ih r (hp r hr)

theorem Finishes.guarded (hp : p.Finishes possible Q) : p.guarded.Finishes possible Q := by
  induction p with
  | done a => exact hp
  | throw e => exact hp
  | call g c k ih => exact fun r hr ↦ ih r (hp r hr)

theorem Finishes.tryExcept {catches : ε → Bool} {handler : ε → Prog C R ε α}
    (hp : p.Finishes possible Q) (hok : ∀ a, Q (.ok a) → Q' (.ok a))
    (hcaught : ∀ e, Q (.error e) → catches e = true → (handler e).Finishes possible Q')
    (hpassed : ∀ e, Q (.error e) → catches e = false → Q' (.error e)) :
    (tryExcept catches p handler).Finishes possible Q' := by
  refine (hp.outcome.finishes (Q := fun r ↦ ∃ r', r = .ok r' ∧ Q r') (fun r hr ↦ ⟨r, rfl, hr⟩)).bind
    ?_ (fun e he ↦ ?_)
  · intro r hended
    obtain ⟨_, ⟨⟩, hr⟩ := hended
    cases r with
    | ok a => exact hok a hr
    | error e =>
      dsimp only
      cases hc : catches e with
      | true => exact hcaught e hr hc
      | false => exact hpassed e hr hc
  · obtain ⟨_, ⟨⟩, -⟩ := he

theorem Finishes.swallow {catches : ε → Bool} {handler : ε → Prog C R ε α} (hp : p.Finishes possible Q)
    (hok : ∀ a, Q (.ok a) → P a)
    (hcaught : ∀ e, Q (.error e) → catches e = true ∧ (handler e).Delivers possible P) :
    (swallow catches p handler).Delivers possible P := by
  refine delivers_iff_finishes.mpr (hp.guarded.tryExcept (fun a ha ↦ ⟨a, rfl, hok a ha⟩) ?_ ?_)
  · exact fun e he _ ↦ delivers_iff_finishes.mp (hcaught e he).2
  · intro e he hpassed
    rw [(hcaught e he).1] at hpassed
    cases hpassed

theorem Delivers.swallow {catches : ε → Bool} {handler : ε → Prog C R ε α} (hp : p.Delivers possible P) :
    (swallow catches p handler).Delivers possible P := by
  refine (delivers_iff_finishes.mp hp).swallow ?_ ?_
  · rintro a ⟨_, ⟨⟩, ha⟩
    exact ha
  · rintro e ⟨_, ⟨⟩, -⟩

end Finishes

end Prog

namespace Pool

variable {ι O V : Type} [DecidableEq ι] {π : Protocol C R V} {answers : O → Handler C R σ}
  {p : Pool ι C R ε α V σ} {possible : (c : C) → R c → Prop} {Q : ι → Except ε α → Prop}

theorem finishes_step (hp : ∀ j, (p.rest j).Finishes possible (Q j)) {h : Handler C R σ}
    (hh : ∀ c, possible c (h c p.store).1) (i j : ι) :
    ((p.step π h i).rest j).Finishes possible (Q j) := by
  rcases p.step_cases π h i with hs | ⟨g, c, k, hi⟩
  · rw [hs]
    exact hp j
  · rw [step_call hi]
    by_cases hj : j = i
    · subst hj
      have hcall := hp j
      rw [hi] at hcall
      simp only [Function.update_self]
      exact hcall _ (hh c)
    · simp only [Function.update_of_ne hj]
      exact hp j

theorem finishes_run (hp : ∀ j, (p.rest j).Finishes possible (Q j)) {turns : List (ι × O)}
    (hturns : ∀ before turn later, turns = before ++ turn :: later →
      ∀ c, possible c (answers turn.2 c (p.run π answers before).store).1) :
    ∀ j, ((p.run π answers turns).rest j).Finishes possible (Q j) := by
  induction turns using List.reverseRec with
  | nil => exact hp
  | append_singleton turns turn ih =>
    rw [run_append_singleton]
    refine finishes_step (ih (fun before turn' later hsplit c ↦ ?_)) (hturns turns turn [] rfl) turn.1
    exact hturns before turn' (later ++ [turn]) (by simp [hsplit]) c

end Pool

end Programs
