import HealingGateway.Library.Protocols

namespace Programs

/-- How a race of two programs stands when the first of them has ended: how it ended, and
what the other has still to do. -/
inductive Landing (C : Type) (R : C → Type) (ε α : Type)
  | left (ended : Except ε α) (other : Prog C R ε α)
  | right (ended : Except ε α) (other : Prog C R ε α)

namespace Prog

variable {C : Type} {R : C → Type} {ε α β σ V : Type}

def ended? : Prog C R ε α → Option (Except ε α)
  | done a => some (.ok a)
  | throw e => some (.error e)
  | call .. => none

/-- Issue at most `n` commands, and return what is left to do. -/
def advance : ℕ → Prog C R ε α → Prog C R ε (Prog C R ε α)
  | n + 1, call g c k => call g c (fun r ↦ advance n (k r))
  | _, p => done p

/-- Two programs take turns until one of them has ended. When the turns have run out the
left one runs on. -/
def race : List Bool → Prog C R ε α → Prog C R ε α → Prog C R ε (Landing C R ε α)
  | _, done a, q => done (.left (.ok a) q)
  | _, throw e, q => done (.left (.error e) q)
  | _, p, done b => done (.right (.ok b) p)
  | _, p, throw e => done (.right (.error e) p)
  | [], p, q => do
    let ended ← p.outcome
    done (.left ended q)
  | true :: turns, call g c k, q => call g c (fun r ↦ race turns (k r) q)
  | false :: turns, p, call g c k => call g c (fun r ↦ race turns p (k r))

/-- The program cut off after so many commands by something raised from outside. -/
def interrupted (cut : Option (ℕ × ε)) (p : Prog C R ε α) : Prog C R ε α :=
  match cut with
  | none => p
  | some (n, e) => do
    let rest ← p.advance n
    match rest.ended? with
    | some ended => ofExcept ended
    | none => throw e

section Race

variable (turns : List Bool) (g g' : Bool) (c c' : C) (k : R c → Prog C R ε α)
  (k' : R c' → Prog C R ε α)

@[simp] theorem race_throw_left (e : ε) (q : Prog C R ε α) :
    race turns (throw e) q = done (.left (.error e) q) := by
  cases turns <;> rfl

@[simp] theorem race_throw_right (e : ε) :
    race turns (call g c k) (throw e) = done (.right (.error e) (call g c k)) := by
  cases turns <;> rfl

theorem race_nil : race [] (call g c k) (call g' c' k') =
    (call g c k).outcome >>= fun ended ↦ done (.left ended (call g' c' k')) := rfl

@[simp] theorem advance_throw (n : ℕ) (e : ε) :
    (throw e : Prog C R ε α).advance n = done (throw e) := by
  cases n <;> rfl

end Race

section Returns

variable {P Q : α → Prop} {p q : Prog C R ε α}

theorem Returns.ended {a : α} (hp : p.Returns P) (h : p.ended? = some (.ok a)) : P a := by
  cases p with
  | done b =>
    cases h
    exact hp
  | throw e => cases h
  | call g c k => cases h

theorem Returns.advance (hp : p.Returns P) (n : ℕ) : (p.advance n).Returns (Returns P) := by
  induction n generalizing p with
  | zero => cases p <;> exact hp
  | succ n ih =>
    cases p with
    | done a => exact hp
    | throw e => exact hp
    | call g c k => exact fun r ↦ ih (hp r)

def Landing.Returns (P Q : α → Prop) : Landing C R ε α → Prop
  | .left ended other => (∀ a, ended = .ok a → P a) ∧ other.Returns Q
  | .right ended other => (∀ a, ended = .ok a → Q a) ∧ other.Returns P

theorem Returns.outcome (hp : p.Returns P) : p.outcome.Returns (fun r ↦ ∀ a, r = .ok a → P a) := by
  induction p with
  | done a =>
    intro b hb
    cases hb
    exact hp
  | throw e =>
    intro a ha
    cases ha
  | call g c k ih => exact fun r ↦ ih r (hp r)

theorem Returns.race (hp : p.Returns P) (hq : q.Returns Q) (turns : List Bool) :
    (race turns p q).Returns (Landing.Returns P Q) := by
  have hok : ∀ {S : α → Prop} {a : α}, S a → ∀ b, (Except.ok a : Except ε α) = .ok b → S b := by
    intro S a ha b hb
    cases hb
    exact ha
  have herror : ∀ {S : α → Prop} {e : ε} (b : α), (Except.error e : Except ε α) = .ok b → S b := by
    intro S e b hb
    cases hb
  induction turns generalizing p q with
  | nil =>
    cases p with
    | done a => exact ⟨hok hp, hq⟩
    | throw e => exact ⟨herror, hq⟩
    | call g c k =>
      cases q with
      | done b => exact ⟨hok hq, hp⟩
      | throw e => exact ⟨herror, hp⟩
      | call g' c' k' =>
        rw [race_nil]
        exact hp.outcome.bind (fun ended hended ↦ ⟨hended, hq⟩)
  | cons turn turns ih =>
    cases p with
    | done a => exact ⟨hok hp, hq⟩
    | throw e => exact ⟨herror, hq⟩
    | call g c k =>
      cases q with
      | done b => exact ⟨hok hq, hp⟩
      | throw e => exact ⟨herror, hp⟩
      | call g' c' k' =>
        cases turn with
        | true => exact fun r ↦ ih (hp r) hq
        | false => exact fun r ↦ ih hp (hq r)

end Returns

section Only

variable {allowed : C → Prop} {p q : Prog C R ε α}

theorem Only.advance (hp : p.Only allowed) (n : ℕ) :
    (p.advance n).Obeys (keepingTo allowed) ()
      (fun _ r ↦ ∃ rest, r = .ok rest ∧ rest.Only allowed) := by
  induction n generalizing p with
  | zero => exact ⟨p, by cases p <;> rfl, hp⟩
  | succ n ih =>
    cases p with
    | done a => exact ⟨_, rfl, hp⟩
    | throw e => exact ⟨_, rfl, hp⟩
    | call g c k => exact ⟨hp.1, fun r _ ↦ ih (hp.2 r)⟩

theorem Only.interrupted (hp : p.Only allowed) (cut : Option (ℕ × ε)) :
    (interrupted cut p).Only allowed := by
  rcases cut with _ | ⟨n, e⟩
  · exact hp
  · refine Obeys.only (Q := fun _ _ ↦ True) ?_
    refine Obeys.bind (hp.advance n) (fun _ rest _ ↦ ?_) (fun _ _ _ ↦ trivial)
    split
    · exact obeys_ofExcept.mpr trivial
    · trivial

def Landing.Only (allowed : C → Prop) : Landing C R ε α → Prop
  | .left _ other => other.Only allowed
  | .right _ other => other.Only allowed

theorem Only.race (hp : p.Only allowed) (hq : q.Only allowed) (turns : List Bool) :
    (race turns p q).Obeys (keepingTo allowed) ()
      (fun _ r ↦ ∃ landing, r = .ok landing ∧ Landing.Only allowed landing) := by
  induction turns generalizing p q with
  | nil =>
    cases p with
    | done a => exact ⟨_, rfl, hq⟩
    | throw e => exact ⟨_, rfl, hq⟩
    | call g c k =>
      cases q with
      | done b => exact ⟨_, rfl, hp⟩
      | throw e => exact ⟨_, rfl, hp⟩
      | call g' c' k' =>
        rw [race_nil, obeys_bind, obeys_outcome]
        exact (hp.obeys (fun _ _ h ↦ h) ()).mono (fun _ r _ ↦ ⟨_, rfl, hq⟩)
  | cons turn turns ih =>
    cases p with
    | done a => exact ⟨_, rfl, hq⟩
    | throw e => exact ⟨_, rfl, hq⟩
    | call g c k =>
      cases q with
      | done b => exact ⟨_, rfl, hp⟩
      | throw e => exact ⟨_, rfl, hp⟩
      | call g' c' k' =>
        cases turn with
        | true => exact ⟨hp.1, fun r _ ↦ ih (hp.2 r) hq⟩
        | false => exact ⟨hq.1, fun r _ ↦ ih hp (hq.2 r)⟩

end Only

end Prog

end Programs
