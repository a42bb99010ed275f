import Mathlib.Logic.Basic
import Mathlib.Data.List.Basic

namespace Programs

/-- A program as the tree of the commands it issues. Each command waits for a
reply, and the reply selects the rest of the program. A command carries a mark
saying whether it stands under a handler that swallows failures. -/
inductive Prog (C : Type) (R : C → Type) (ε α : Type) : Type
  | done : α → Prog C R ε α
  | throw : ε → Prog C R ε α
  | call (guarded : Bool) (c : C) : (R c → Prog C R ε α) → Prog C R ε α

variable {C : Type} {R : C → Type} {ε α β γ σ : Type}

theorem bind_eq_ok {x : Except ε α} {f : α → Except ε β} {b : β} :
    (x >>= f) = .ok b ↔ ∃ a, x = .ok a ∧ f a = .ok b := by
  cases x with
  | error e =>
    constructor
    · intro h
      cases h
    · rintro ⟨_, h, _⟩
      cases h
  | ok a =>
    constructor
    · intro h
      exact ⟨a, rfl, h⟩
    · rintro ⟨_, h, h'⟩
      cases h
      exact h'

theorem bind_eq_error {x : Except ε α} {f : α → Except ε β} {e : ε} :
    (x >>= f) = .error e ↔ x = .error e ∨ ∃ a, x = .ok a ∧ f a = .error e := by
  cases x with
  | error e' =>
    constructor
    · intro h
      cases h
      exact .inl rfl
    · rintro (h | ⟨_, h, _⟩)
      · cases h
        rfl
      · cases h
  | ok a =>
    constructor
    · intro h
      exact .inr ⟨a, rfl, h⟩
    · rintro (h | ⟨_, h, h'⟩)
      · cases h
      · cases h
        exact h'

namespace Prog

def bind : Prog C R ε α → (α → Prog C R ε β) → Prog C R ε β
  | done a, f => f a
  | throw e, _ => throw e
  | call g c k, f => call g c (fun r ↦ (k r).bind f)

instance : Monad (Prog C R ε) where
  pure := done
  bind := bind

@[simp] theorem pure_eq (a : α) : (pure a : Prog C R ε α) = done a := rfl

@[simp] theorem done_bind (a : α) (f : α → Prog C R ε β) : (done a >>= f) = f a := rfl

@[simp] theorem throw_bind (e : ε) (f : α → Prog C R ε β) :
    ((throw e : Prog C R ε α) >>= f) = throw e := rfl

@[simp] theorem call_bind (g : Bool) (c : C) (k : R c → Prog C R ε α) (f : α → Prog C R ε β) :
    (call g c k >>= f) = call g c (fun r ↦ k r >>= f) := rfl

theorem bind_done (p : Prog C R ε α) : p.bind done = p := by
  induction p with
  | done a => rfl
  | throw e => rfl
  | call g c k ih => exact congrArg (call g c) (funext ih)

theorem bind_assoc (p : Prog C R ε α) (f : α → Prog C R ε β) (f' : β → Prog C R ε γ) :
    (p.bind f).bind f' = p.bind (fun a ↦ (f a).bind f') := by
  induction p with
  | done a => rfl
  | throw e => rfl
  | call g c k ih => exact congrArg (call g c) (funext ih)

instance : LawfulMonad (Prog C R ε) :=
  LawfulMonad.mk' _ (fun p ↦ bind_done p) (fun _ _ ↦ rfl) (fun p f f' ↦ bind_assoc p f f')

def ask (c : C) : Prog C R ε (R c) := call false c done

@[simp] theorem ask_bind (c : C) (f : R c → Prog C R ε β) :
    (ask c >>= f) = call false c f := rfl

def ofExcept : Except ε α → Prog C R ε α
  | .ok a => done a
  | .error e => throw e

@[simp] theorem ofExcept_ok (a : α) : (ofExcept (.ok a) : Prog C R ε α) = done a := rfl

@[simp] theorem ofExcept_error (e : ε) : (ofExcept (.error e) : Prog C R ε α) = throw e := rfl

/-- Run the program and return how it ended, without ending the same way. -/
def outcome : Prog C R ε α → Prog C R ε (Except ε α)
  | done a => done (.ok a)
  | throw e => done (.error e)
  | call g c k => call g c (fun r ↦ (k r).outcome)

/-- Mark every command of the program as standing under a swallowing handler. -/
def guarded : Prog C R ε α → Prog C R ε α
  | done a => done a
  | throw e => throw e
  | call _ c k => call true c (fun r ↦ (k r).guarded)

def tryExcept (catches : ε → Bool) (p : Prog C R ε α) (handler : ε → Prog C R ε α) :
    Prog C R ε α :=
  p.outcome >>= fun
    | .ok a => done a
    | .error e => if catches e then handler e else throw e

/-- As `tryExcept`, for a handler that does not raise again. -/
def swallow (catches : ε → Bool) (p : Prog C R ε α) (handler : ε → Prog C R ε α) :
    Prog C R ε α :=
  tryExcept catches p.guarded handler

/-- Run `cleanup` however `p` ends, then end as `p` did. -/
def tryFinally (p : Prog C R ε α) (cleanup : Prog C R ε Unit) : Prog C R ε α := do
  let ended ← p.outcome
  cleanup
  ofExcept ended

end Prog

/-- What answers commands: a reply and the next state. -/
abbrev Handler (C : Type) (R : C → Type) (σ : Type) := (c : C) → σ → R c × σ

/-- One command together with the reply it got. -/
structure Event (C : Type) (R : C → Type) where
  guarded : Bool
  cmd : C
  reply : R cmd

namespace Prog

variable (h : Handler C R σ)

def run : Prog C R ε α → σ → Except ε α × σ
  | done a, s => (.ok a, s)
  | throw e, s => (.error e, s)
  | call _ c k, s => (k (h c s).1).run (h c s).2

/-- The commands a run issues, in order. -/
def trace : Prog C R ε α → σ → List (Event C R)
  | done _, _ => []
  | throw _, _ => []
  | call g c k, s => ⟨g, c, (h c s).1⟩ :: (k (h c s).1).trace (h c s).2

@[simp] theorem run_done (a : α) (s : σ) :
    (done a : Prog C R ε α).run h s = (.ok a, s) := rfl

@[simp] theorem run_throw (e : ε) (s : σ) :
    (throw e : Prog C R ε α).run h s = (.error e, s) := rfl

@[simp] theorem run_call (g : Bool) (c : C) (k : R c → Prog C R ε α) (s : σ) :
    (call g c k).run h s = (k (h c s).1).run h (h c s).2 := rfl

@[simp] theorem run_ask (c : C) (s : σ) :
    (ask c : Prog C R ε (R c)).run h s = (.ok (h c s).1, (h c s).2) := rfl

@[simp] theorem run_ofExcept (r : Except ε α) (s : σ) :
    (ofExcept r : Prog C R ε α).run h s = (r, s) := by cases r <;> rfl

theorem run_bind (p : Prog C R ε α) (f : α → Prog C R ε β) (s : σ) :
    (p >>= f).run h s =
      match p.run h s with
      | (.ok a, s') => (f a).run h s'
      | (.error e, s') => (.error e, s') := by
  induction p generalizing s with
  | done a => rfl
  | throw e => rfl
  | call g c k ih => exact ih _ _

theorem exists_run_of_map {p : Prog C R ε α} {s : σ} {f : α → β} {b : β}
    (hended : (p.run h s).1.toOption.map f = some b) : ∃ a s', p.run h s = (.ok a, s') ∧ f a = b := by
  rcases hrun : p.run h s with ⟨e | a, s'⟩
  · rw [hrun] at hended
    cases hended
  · rw [hrun] at hended
    exact ⟨a, s', rfl, Option.some.inj hended⟩

theorem exists_run_of_isOk {p : Prog C R ε α} {s : σ} (hok : (p.run h s).1.isOk = true) :
    ∃ a s', p.run h s = (.ok a, s') := by
  rcases hrun : p.run h s with ⟨e | a, s'⟩
  · rw [hrun] at hok
    cases hok
  · exact ⟨a, s', rfl⟩

theorem run_bind_ok {p : Prog C R ε α} {f : α → Prog C R ε β} {s s' : σ} {a : α}
    (hp : p.run h s = (.ok a, s')) : (p >>= f).run h s = (f a).run h s' := by
  rw [run_bind, hp]

theorem run_bind_error {p : Prog C R ε α} {f : α → Prog C R ε β} {s s' : σ} {e : ε}
    (hp : p.run h s = (.error e, s')) : (p >>= f).run h s = (.error e, s') := by
  rw [run_bind, hp]

@[simp] theorem run_outcome (p : Prog C R ε α) (s : σ) :
    p.outcome.run h s = (.ok (p.run h s).1, (p.run h s).2) := by
  induction p generalizing s with
  | done a => rfl
  | throw e => rfl
  | call g c k ih => exact ih _ _

@[simp] theorem run_guarded (p : Prog C R ε α) (s : σ) : p.guarded.run h s = p.run h s := by
  induction p generalizing s with
  | done a => rfl
  | throw e => rfl
  | call g c k ih => exact ih _ _

theorem run_tryExcept (catches : ε → Bool) (p : Prog C R ε α) (handler : ε → Prog C R ε α)
    (s : σ) :
    (tryExcept catches p handler).run h s =
      match p.run h s with
      | (.ok a, s') => (.ok a, s')
      | (.error e, s') => if catches e then (handler e).run h s' else (.error e, s') := by
  rw [tryExcept, run_bind, run_outcome]
  rcases hp : p.run h s with ⟨a | e, s'⟩
  · simp only
    split <;> rfl
  · rfl

theorem trace_bind_ok {p : Prog C R ε α} {f : α → Prog C R ε β} {s s' : σ} {a : α}
    (hp : p.run h s = (.ok a, s')) :
    (p >>= f).trace h s = p.trace h s ++ (f a).trace h s' := by
  induction p generalizing s with
  | done b => cases hp; rfl
  | throw e => cases hp
  | call g c k ih => exact congrArg _ (ih _ hp)

theorem trace_bind_error {p : Prog C R ε α} {f : α → Prog C R ε β} {s s' : σ} {e : ε}
    (hp : p.run h s = (.error e, s')) : (p >>= f).trace h s = p.trace h s := by
  induction p generalizing s with
  | done b => cases hp
  | throw e' => rfl
  | call g c k ih => exact congrArg _ (ih _ hp)

@[simp] theorem trace_outcome (p : Prog C R ε α) (s : σ) :
    p.outcome.trace h s = p.trace h s := by
  induction p generalizing s with
  | done a => rfl
  | throw e => rfl
  | call g c k ih => exact congrArg _ (ih _ _)

theorem trace_tryExcept_ok {catches : ε → Bool} {p : Prog C R ε α} {handler : ε → Prog C R ε α}
    {s s' : σ} {a : α} (hp : p.run h s = (.ok a, s')) :
    (tryExcept catches p handler).trace h s = p.trace h s := by
  have hended : p.outcome.run h s = (.ok (.ok a), s') := by rw [run_outcome, hp]
  rw [tryExcept, trace_bind_ok h hended, trace_outcome]
  exact List.append_nil _

theorem trace_tryExcept_error {catches : ε → Bool} {p : Prog C R ε α} {handler : ε → Prog C R ε α}
    {s s' : σ} {e : ε} (hp : p.run h s = (.error e, s')) :
    (tryExcept catches p handler).trace h s =
      p.trace h s ++ (if catches e then handler e else throw e).trace h s' := by
  have hended : p.outcome.run h s = (.ok (.error e), s') := by rw [run_outcome, hp]
  rw [tryExcept, trace_bind_ok h hended, trace_outcome]

end Prog

end Programs
