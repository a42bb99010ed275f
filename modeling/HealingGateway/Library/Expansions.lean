import HealingGateway.Library.Protocols

namespace Programs

variable {D C : Type} {A : D → Type} {R : C → Type} {ε α β σ : Type}

/-- A program over whole steps, each of which ends with an answer or raises. -/
abbrev Plan (D : Type) (A : D → Type) (ε α : Type) : Type := Prog D (fun d ↦ Except ε (A d)) ε α

def Plan.perform (d : D) : Plan D A ε (A d) :=
  Prog.call false d (fun answer ↦ Prog.ofExcept answer)

/-- What answers the steps of a plan when each is carried out by a program of its own. -/
def Handler.through (unit : (d : D) → Prog C R ε (A d)) (h : Handler C R σ) :
    Handler D (fun d ↦ Except ε (A d)) σ :=
  fun d s ↦ (unit d).run h s

namespace Prog

theorem outcome_bind_ofExcept (p : Prog C R ε α) : (p.outcome >>= fun r ↦ ofExcept r) = p := by
  induction p with
  | done a => rfl
  | throw e => rfl
  | call g c k ih => exact congrArg (call g c) (funext ih)

/-- The plan with every step carried out. -/
def expand (unit : (d : D) → Prog C R ε (A d)) : Plan D A ε α → Prog C R ε α
  | done a => done a
  | throw e => throw e
  | call _ d k => (unit d).outcome >>= fun answer ↦ (k answer).expand unit

variable {unit : (d : D) → Prog C R ε (A d)}

@[simp] theorem expand_done (a : α) : (done a : Plan D A ε α).expand unit = done a := rfl

@[simp] theorem expand_throw (e : ε) : (throw e : Plan D A ε α).expand unit = throw e := rfl

@[simp] theorem expand_ofExcept (x : Except ε α) :
    (ofExcept x : Plan D A ε α).expand unit = ofExcept x := by
  cases x <;> rfl

@[simp] theorem expand_bind (p : Plan D A ε α) (f : α → Plan D A ε β) :
    (p >>= f).expand unit = p.expand unit >>= fun a ↦ (f a).expand unit := by
  induction p with
  | done a => rfl
  | throw e => rfl
  | call g d k ih =>
    have hk : ∀ answer, (k answer >>= f).expand unit =
        (k answer).expand unit >>= fun a ↦ (f a).expand unit := ih
    simp only [call_bind, expand, hk, LawfulMonad.bind_assoc]

@[simp] theorem expand_perform (d : D) : (Plan.perform d).expand unit = unit d := by
  simp only [Plan.perform, expand, expand_ofExcept]
  exact outcome_bind_ofExcept (unit d)

theorem run_expand (p : Plan D A ε α) (h : Handler C R σ) (s : σ) :
    (p.expand unit).run h s = p.run (h.through unit) s := by
  induction p generalizing s with
  | done a => rfl
  | throw e => rfl
  | call g d k ih =>
    rw [expand, run_bind_ok h (run_outcome h (unit d) s), ih]
    rfl

theorem filterMap_trace_expand {h : Handler C R σ} {f : Event C R → Option β} {g : D → List β}
    (hunit : ∀ d s, ((unit d).trace h s).filterMap f = g d) (p : Plan D A ε α) (s : σ) :
    ((p.expand unit).trace h s).filterMap f =
      (p.trace (h.through unit) s).flatMap (fun e ↦ g e.cmd) := by
  induction p generalizing s with
  | done a => rfl
  | throw e => rfl
  | call g' d k ih =>
    rw [expand, trace_bind_ok h (run_outcome h (unit d) s), trace_outcome, List.filterMap_append,
      hunit, ih]
    rfl

theorem obeys_perform_bind {V : Type} {π : Protocol D (fun d ↦ Except ε (A d)) V} {v : V} {d : D}
    {f : A d → Plan D A ε β} {Q : V → Except ε β → Prop} (ha : π.allowed v d)
    (hok : ∀ a, π.possible v d (.ok a) → (f a).Obeys π (π.watch v false d (.ok a)) Q)
    (herror : ∀ e, π.possible v d (.error e) → Q (π.watch v false d (.error e)) (.error e)) :
    (Plan.perform d >>= f).Obeys π v Q := by
  refine ⟨ha, fun answer hanswer ↦ ?_⟩
  cases answer with
  | ok a => exact hok a hanswer
  | error e => exact herror e hanswer

end Prog

end Programs
