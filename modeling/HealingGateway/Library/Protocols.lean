import HealingGateway.Library.Programs

namespace Programs

/-- What a program may issue from what it has seen so far, what it may be answered, and how
an answer adds to what it has seen. -/
structure Protocol (C : Type) (R : C → Type) (V : Type) where
  allowed : V → C → Prop := fun _ _ ↦ True
  possible : V → (c : C) → R c → Prop := fun _ _ _ ↦ True
  watch : V → (guarded : Bool) → (c : C) → R c → V

variable {C : Type} {R : C → Type} {ε α β V : Type}

/-- A protocol that takes every command as standing under a swallowing handler. -/
def Protocol.guarded (π : Protocol C R V) : Protocol C R V :=
  { π with watch := fun v _ c r ↦ π.watch v true c r }

namespace Prog

/-- Whatever the possible replies, every command is allowed where it is issued, and the
program ends as `Q` says. -/
def Obeys (π : Protocol C R V) : Prog C R ε α → V → (V → Except ε α → Prop) → Prop
  | done a, v, Q => Q v (.ok a)
  | throw e, v, Q => Q v (.error e)
  | call g c k, v, Q =>
    π.allowed v c ∧ ∀ r, π.possible v c r → (k r).Obeys π (π.watch v g c r) Q

variable {π : Protocol C R V} {p : Prog C R ε α} {v : V}

@[simp] theorem obeys_done {a : α} {Q : V → Except ε α → Prop} :
    (done a : Prog C R ε α).Obeys π v Q ↔ Q v (.ok a) := Iff.rfl

@[simp] theorem obeys_throw {e : ε} {Q : V → Except ε α → Prop} :
    (throw e : Prog C R ε α).Obeys π v Q ↔ Q v (.error e) := Iff.rfl

@[simp] theorem obeys_call {g : Bool} {c : C} {k : R c → Prog C R ε α}
    {Q : V → Except ε α → Prop} :
    (call g c k).Obeys π v Q ↔
      π.allowed v c ∧ ∀ r, π.possible v c r → (k r).Obeys π (π.watch v g c r) Q := Iff.rfl

@[simp] theorem obeys_ofExcept {x : Except ε α} {Q : V → Except ε α → Prop} :
    (ofExcept x : Prog C R ε α).Obeys π v Q ↔ Q v x := by
  cases x <;> rfl

theorem Obeys.mono {Q Q' : V → Except ε α → Prop} (h : p.Obeys π v Q)
    (hQ : ∀ v r, Q v r → Q' v r) : p.Obeys π v Q' := by
  induction p generalizing v with
  | done a => exact hQ _ _ h
  | throw e => exact hQ _ _ h
  | call g c k ih => exact ⟨h.1, fun r hr ↦ ih r (h.2 r hr)⟩

theorem Obeys.and {Q Q' : V → Except ε α → Prop} (h : p.Obeys π v Q) (h' : p.Obeys π v Q') :
    p.Obeys π v (fun v r ↦ Q v r ∧ Q' v r) := by
  induction p generalizing v with
  | done a => exact ⟨h, h'⟩
  | throw e => exact ⟨h, h'⟩
  | call g c k ih => exact ⟨h.1, fun r hr ↦ ih r (h.2 r hr) (h'.2 r hr)⟩

theorem obeys_bind {f : α → Prog C R ε β} {Q : V → Except ε β → Prop} :
    (p >>= f).Obeys π v Q ↔ p.Obeys π v (fun v r ↦
      match r with
      | .ok a => (f a).Obeys π v Q
      | .error e => Q v (.error e)) := by
  induction p generalizing v with
  | done a => rfl
  | throw e => rfl
  | call g c k ih =>
    exact and_congr_right (fun _ ↦ forall_congr' (fun r ↦ imp_congr_right (fun _ ↦ ih r)))

/-- A first part that ends well leaves the rest to be shown, one that raises must already
end as `Q` says. -/
theorem Obeys.bind {f : α → Prog C R ε β} {Q : V → Except ε β → Prop}
    {Q' : V → Except ε α → Prop} (h : p.Obeys π v Q')
    (hok : ∀ v a, Q' v (.ok a) → (f a).Obeys π v Q)
    (herror : ∀ v e, Q' v (.error e) → Q v (.error e)) : (p >>= f).Obeys π v Q := by
  rw [obeys_bind]
  apply h.mono
  intro v r hr
  cases r with
  | ok a => exact hok v a hr
  | error e => exact herror v e hr

theorem Obeys.andThen {f : α → Prog C R ε β} {Q : V → Except ε β → Prop}
    (h : p.Obeys π v (fun _ _ ↦ True)) (hok : ∀ v a, (f a).Obeys π v Q)
    (herror : ∀ v e, Q v (.error e)) : (p >>= f).Obeys π v Q :=
  h.bind (fun v a _ ↦ hok v a) (fun v e _ ↦ herror v e)

theorem obeys_outcome {Q : V → Except ε (Except ε α) → Prop} :
    p.outcome.Obeys π v Q ↔ p.Obeys π v (fun v r ↦ Q v (.ok r)) := by
  induction p generalizing v with
  | done a => rfl
  | throw e => rfl
  | call g c k ih =>
    exact and_congr_right (fun _ ↦ forall_congr' (fun r ↦ imp_congr_right (fun _ ↦ ih r)))

theorem obeys_tryExcept {catches : ε → Bool} {handler : ε → Prog C R ε α}
    {Q : V → Except ε α → Prop} :
    (tryExcept catches p handler).Obeys π v Q ↔ p.Obeys π v (fun v r ↦
      match r with
      | .ok a => Q v (.ok a)
      | .error e => if catches e then (handler e).Obeys π v Q else Q v (.error e)) := by
  rw [tryExcept, obeys_bind, obeys_outcome]
  constructor
  all_goals
    intro h
    apply h.mono
    intro v r hr
    cases r with
    | ok a => exact hr
    | error e => cases hc : catches e <;> simpa [hc] using hr

theorem obeys_guarded {Q : V → Except ε α → Prop} : p.guarded.Obeys π v Q ↔ p.Obeys π.guarded v Q := by
  induction p generalizing v with
  | done a => rfl
  | throw e => rfl
  | call g c k ih =>
    exact and_congr_right (fun _ ↦ forall_congr' (fun r ↦ imp_congr_right (fun _ ↦ ih r)))

/-- Whatever the replies, what the program returns is as `P` says. -/
def Returns (P : α → Prop) : Prog C R ε α → Prop
  | done a => P a
  | throw _ => True
  | call _ _ k => ∀ r, (k r).Returns P

section Returns

variable {P : α → Prop}

@[simp] theorem returns_done {a : α} : (done a : Prog C R ε α).Returns P ↔ P a := Iff.rfl

theorem returns_ofExcept {x : Except ε α} (h : ∀ a, x = .ok a → P a) :
    (ofExcept x : Prog C R ε α).Returns P := by
  cases x with
  | ok a => exact h a rfl
  | error e => trivial

theorem returns_any (p : Prog C R ε α) : p.Returns (fun _ ↦ True) := by
  induction p with
  | done a => trivial
  | throw e => trivial
  | call g c k ih => exact ih

theorem Obeys.returns {Q : V → Except ε α → Prop} (hp : p.Obeys π v Q) (h : p.Returns P) :
    p.Obeys π v (fun v r ↦ Q v r ∧ ∀ a, r = .ok a → P a) := by
  induction p generalizing v with
  | done a =>
    refine ⟨hp, fun b hb ↦ ?_⟩
    cases hb
    exact h
  | throw e => exact ⟨hp, fun b hb ↦ by cases hb⟩
  | call g c k ih => exact ⟨hp.1, fun r hr ↦ ih r (hp.2 r hr) (h r)⟩

theorem Returns.bind {P' : β → Prop} {f : α → Prog C R ε β} (h : p.Returns P)
    (hf : ∀ a, P a → (f a).Returns P') : (p >>= f).Returns P' := by
  induction p with
  | done a => exact hf a h
  | throw e => trivial
  | call g c k ih => exact fun r ↦ ih r (h r)

theorem Returns.mono {P' : α → Prop} (h : p.Returns P) (hP : ∀ a, P a → P' a) : p.Returns P' := by
  induction p with
  | done a => exact hP a h
  | throw e => trivial
  | call g c k ih => exact fun r ↦ ih r (h r)

theorem Returns.run {σ : Type} (hp : p.Returns P) {h : Handler C R σ} {s s' : σ} {a : α}
    (hrun : p.run h s = (.ok a, s')) : P a := by
  induction p generalizing s with
  | done b =>
    cases hrun
    exact hp
  | throw e => cases hrun
  | call g c k ih => exact ih _ (hp _) hrun

end Returns

/-- Whatever the replies, the program issues only commands `allowed` accepts. -/
def Only (allowed : C → Prop) : Prog C R ε α → Prop
  | done _ => True
  | throw _ => True
  | call _ c k => allowed c ∧ ∀ r, (k r).Only allowed

section Only

variable {allowed : C → Prop}

@[simp] theorem only_done (a : α) : (done a : Prog C R ε α).Only allowed := trivial

@[simp] theorem only_throw (e : ε) : (throw e : Prog C R ε α).Only allowed := trivial

@[simp] theorem only_ofExcept (r : Except ε α) : (ofExcept r : Prog C R ε α).Only allowed := by
  cases r <;> trivial

theorem only_ask {c : C} (h : allowed c) : (ask c : Prog C R ε (R c)).Only allowed :=
  ⟨h, fun _ ↦ trivial⟩

theorem Only.bind {f : α → Prog C R ε β} (h : p.Only allowed) (hf : ∀ a, (f a).Only allowed) :
    (p >>= f).Only allowed := by
  induction p with
  | done a => exact hf a
  | throw e => trivial
  | call g c k ih => exact ⟨h.1, fun r ↦ ih r (h.2 r)⟩

theorem Only.bind_returns {P : α → Prop} {f : α → Prog C R ε β} (h : p.Only allowed)
    (hp : p.Returns P) (hf : ∀ a, P a → (f a).Only allowed) : (p >>= f).Only allowed := by
  induction p with
  | done a => exact hf a hp
  | throw e => trivial
  | call g c k ih => exact ⟨h.1, fun r ↦ ih r (h.2 r) (hp r)⟩

theorem Only.left {f : α → Prog C R ε β} (h : (p >>= f).Only allowed) : p.Only allowed := by
  induction p with
  | done a => trivial
  | throw e => trivial
  | call g c k ih => exact ⟨h.1, fun r ↦ ih r (h.2 r)⟩

theorem Only.right {σ : Type} {h : Handler C R σ} {f : α → Prog C R ε β} {s s' : σ} {a : α}
    (hp : (p >>= f).Only allowed) (hrun : p.run h s = (.ok a, s')) : (f a).Only allowed := by
  induction p generalizing s with
  | done b =>
    cases hrun
    exact hp
  | throw e => cases hrun
  | call g c k ih => exact ih _ (hp.2 _) hrun

theorem Only.mono {allowed' : C → Prop} (h : p.Only allowed) (ha : ∀ c, allowed c → allowed' c) :
    p.Only allowed' := by
  induction p with
  | done a => trivial
  | throw e => trivial
  | call g c k ih => exact ⟨ha c h.1, fun r ↦ ih r (h.2 r)⟩

theorem Only.and {allowed' : C → Prop} (h : p.Only allowed) (h' : p.Only allowed') :
    p.Only (fun c ↦ allowed c ∧ allowed' c) := by
  induction p with
  | done a => trivial
  | throw e => trivial
  | call g c k ih => exact ⟨⟨h.1, h'.1⟩, fun r ↦ ih r (h.2 r) (h'.2 r)⟩

theorem Only.outcome (h : p.Only allowed) : p.outcome.Only allowed := by
  induction p with
  | done a => trivial
  | throw e => trivial
  | call g c k ih => exact ⟨h.1, fun r ↦ ih r (h.2 r)⟩

theorem Only.guarded (h : p.Only allowed) : p.guarded.Only allowed := by
  induction p with
  | done a => trivial
  | throw e => trivial
  | call g c k ih => exact ⟨h.1, fun r ↦ ih r (h.2 r)⟩

theorem Only.tryExcept {catches : ε → Bool} {handler : ε → Prog C R ε α} (h : p.Only allowed)
    (hh : ∀ e, (handler e).Only allowed) : (tryExcept catches p handler).Only allowed := by
  refine h.outcome.bind (fun r ↦ ?_)
  cases r with
  | ok a => trivial
  | error e =>
    simp only
    split
    · exact hh e
    · trivial

theorem Only.swallow {catches : ε → Bool} {handler : ε → Prog C R ε α} (h : p.Only allowed)
    (hh : ∀ e, (handler e).Only allowed) : (swallow catches p handler).Only allowed :=
  h.guarded.tryExcept hh

theorem Only.trace {σ : Type} (hp : p.Only allowed) (h : Handler C R σ) (s : σ) :
    ∀ e ∈ p.trace h s, allowed e.cmd := by
  induction p generalizing s with
  | done a => exact fun e he ↦ by cases he
  | throw e => exact fun e he ↦ by cases he
  | call g c k ih =>
    intro e he
    rcases List.mem_cons.mp he with rfl | he
    · exact hp.1
    · exact ih _ (hp.2 _) _ e he

def keepingTo (allowed : C → Prop) : Protocol C R Unit where
  allowed := fun _ ↦ allowed
  watch := fun _ _ _ _ ↦ ()

theorem Obeys.only {Q : Unit → Except ε α → Prop} (h : p.Obeys (keepingTo allowed) () Q) :
    p.Only allowed := by
  induction p with
  | done a => trivial
  | throw e => trivial
  | call g c k ih => exact ⟨h.1, fun r ↦ ih r (h.2 r trivial)⟩

/-- What is known of a program's end is known under every protocol that does not look at what
it issues. -/
theorem Obeys.unseen {Q : Unit → Except ε α → Prop} (h : p.Obeys (keepingTo allowed) () Q) {v : V}
    (hv : ∀ c, allowed c → π.allowed v c ∧ ∀ g r, π.watch v g c r = v) :
    p.Obeys π v (fun v' r ↦ v' = v ∧ Q () r) := by
  induction p with
  | done a => exact ⟨rfl, h⟩
  | throw e => exact ⟨rfl, h⟩
  | call g c k ih =>
    obtain ⟨ha, hw⟩ := hv c h.1
    refine ⟨ha, fun r _ ↦ ?_⟩
    rw [hw]
    exact ih r (h.2 r trivial)

theorem Only.run_frame {σ τ : Type} (hp : p.Only allowed) {h : Handler C R σ} {f : σ → τ}
    (hf : ∀ c s, allowed c → f (h c s).2 = f s) (s : σ) : f (p.run h s).2 = f s := by
  induction p generalizing s with
  | done a => rfl
  | throw e => rfl
  | call g c k ih => exact (ih _ (hp.2 _) _).trans (hf c s hp.1)

theorem Only.obeys (h : p.Only allowed) (ha : ∀ v c, allowed c → π.allowed v c) (v : V) :
    p.Obeys π v (fun _ _ ↦ True) := by
  induction p generalizing v with
  | done a => trivial
  | throw e => trivial
  | call g c k ih => exact ⟨ha v c h.1, fun r _ ↦ ih r (h.2 r) _⟩

theorem Only.obeys_kept {I : V → Prop} (h : p.Only allowed)
    (hI : ∀ v c, allowed c → I v → π.allowed v c ∧ ∀ g r, I (π.watch v g c r)) (hv : I v) :
    p.Obeys π v (fun v' _ ↦ I v') := by
  induction p generalizing v with
  | done a => exact hv
  | throw e => exact hv
  | call g c k ih =>
    obtain ⟨ha, hkept⟩ := hI v c h.1 hv
    exact ⟨ha, fun r _ ↦ ih r (h.2 r) (hkept g r)⟩

theorem Only.obeys_unseen (h : p.Only allowed) {v : V}
    (hv : ∀ c, allowed c → π.allowed v c ∧ ∀ g r, π.watch v g c r = v) :
    p.Obeys π v (fun v' _ ↦ v' = v) := by
  induction p with
  | done a => rfl
  | throw e => rfl
  | call g c k ih =>
    obtain ⟨ha, hw⟩ := hv c h.1
    refine ⟨ha, fun r _ ↦ ?_⟩
    rw [hw]
    exact ih r (h.2 r)

end Only

end Prog

end Programs
