import HealingGateway.Library.Turns

namespace Programs

/-- Which replies commands may get, and which of those are failures. -/
structure Failures (C : Type) (R : C → Type) where
  possible : (c : C) → R c → Prop
  fails : (c : C) → R c → Bool

variable {C : Type} {R : C → Type} {ε α β V σ : Type}

namespace Failures

variable (F : Failures C R)

/-- Whether a failure has come that no handler swallows. -/
def watching : Protocol C R Bool where
  possible := fun _ ↦ F.possible
  watch := fun seen guarded c r ↦ seen || (!guarded && F.fails c r)

theorem watching_watch (seen guarded : Bool) (c : C) (r : R c) :
    F.watching.watch seen guarded c r = (seen || (!guarded && F.fails c r)) := rfl

def blind : Protocol C R Unit where
  possible := fun _ ↦ F.possible
  watch := fun _ _ _ _ ↦ ()

def Unguarded (e : Event C R) : Prop := e.guarded = false ∧ F.fails e.cmd e.reply = true

instance (e : Event C R) : Decidable (F.Unguarded e) := inferInstanceAs (Decidable (_ ∧ _))

end Failures

namespace Prog

variable (F : Failures C R)

/-- The program raises only what `P` accepts. -/
def Raises (P : ε → Prop) (p : Prog C R ε α) : Prop :=
  p.Obeys F.blind () (fun _ r ↦ ∀ e, r = .error e → P e)

/-- The program raises at once on the first failure no handler swallows, and returns
without one. -/
def Brittle : Prog C R ε α → Prop
  | done _ => True
  | throw _ => False
  | call g c k => ∀ r, F.possible c r →
    if !g && F.fails c r then ∃ e, k r = throw e else (k r).Brittle

def recover (fix : (c : C) → R c → R c) : Prog C R ε α → Prog C R ε α
  | done a => done a
  | throw e => throw e
  | call g c k => call g c (fun r ↦ (k (if g then r else fix c r)).recover fix)

variable {F} {p q : Prog C R ε α} {P : ε → Prop}

section Raises

theorem raises_done (a : α) : (done a : Prog C R ε α).Raises F P := fun _ he ↦ by cases he

theorem raises_throw {e : ε} (he : P e) : (throw e : Prog C R ε α).Raises F P :=
  fun _ h ↦ by cases h; exact he

theorem raises_ofExcept {x : Except ε α} (hx : ∀ e, x = .error e → P e) :
    (ofExcept x : Prog C R ε α).Raises F P := by
  cases x with
  | ok a => exact raises_done a
  | error e => exact raises_throw (hx e rfl)

theorem raises_ask (c : C) : (ask c : Prog C R ε (R c)).Raises F P :=
  ⟨trivial, fun r _ ↦ raises_done r⟩

theorem Raises.bind {f : α → Prog C R ε β} (hp : p.Raises F P) (hf : ∀ a, (f a).Raises F P) :
    (p >>= f).Raises F P := by
  refine Obeys.bind hp (fun _ a _ ↦ hf a) (fun _ e he ↦ ?_)
  rintro e' ⟨⟩
  exact he e rfl

end Raises

section Brittle

theorem brittle_ask {c : C} (hc : ∀ r, F.fails c r = false) :
    (ask c : Prog C R ε (R c)).Brittle F := by
  intro r _
  rw [hc, Bool.and_false]
  trivial

theorem brittle_checked {c : C} {check : R c → Except ε α}
    (hc : ∀ r, F.fails c r = !(check r).isOk) :
    (call false c (fun r ↦ ofExcept (check r)) : Prog C R ε α).Brittle F := by
  intro r _
  simp only [hc]
  cases check r with
  | ok a => trivial
  | error e => exact ⟨e, rfl⟩

theorem Brittle.call_cases {g : Bool} {c : C} {k : R c → Prog C R ε α}
    (hp : (call g c k).Brittle F) {r : R c} (hr : F.possible c r) :
    ((!g && F.fails c r) = true ∧ ∃ e, k r = throw e) ∨
      ((!g && F.fails c r) = false ∧ (k r).Brittle F) := by
  have hk := hp r hr
  cases hfail : !g && F.fails c r with
  | true => exact .inl ⟨rfl, by simpa only [hfail, if_true] using hk⟩
  | false => exact .inr ⟨rfl, by simpa only [hfail, Bool.false_eq_true, if_false] using hk⟩

theorem Brittle.bind {f : α → Prog C R ε β} (hp : p.Brittle F) (hf : ∀ a, (f a).Brittle F) :
    (p >>= f).Brittle F := by
  induction p with
  | done a => exact hf a
  | throw e => cases hp
  | call g c k ih =>
    intro r hr
    rcases hp.call_cases hr with ⟨hfail, e, he⟩ | ⟨hfail, hk⟩
    · rw [if_pos hfail]
      exact ⟨e, by change (k r).bind f = _; rw [he]; rfl⟩
    · rw [if_neg (by rw [hfail]; decide)]
      exact ih r hk

theorem Brittle.swallow {catches : ε → Bool} {handler : ε → Prog C R ε α}
    (hp : p.Raises F (fun e ↦ catches e = true)) (hh : ∀ e, (handler e).Brittle F) :
    (swallow catches p handler).Brittle F := by
  induction p with
  | done a => trivial
  | throw e =>
    have he : catches e = true := hp e rfl
    simp only [Prog.swallow, tryExcept, Prog.guarded, outcome, done_bind, he, if_true]
    exact hh e
  | call g c k ih => exact fun r hr ↦ ih r (hp.2 r hr)

theorem Brittle.obeys (hp : p.Brittle F) :
    p.Obeys F.watching false (fun seen r ↦ seen = !r.isOk) := by
  induction p with
  | done a => rfl
  | throw e => cases hp
  | call g c k ih =>
    refine ⟨trivial, fun r hr ↦ ?_⟩
    simp only [Failures.watching_watch, Bool.false_or]
    rcases hp.call_cases hr with ⟨hfail, e, he⟩ | ⟨hfail, hk⟩
    · rw [he, hfail]
      rfl
    · rw [hfail]
      exact ih r hk

def Remains (F : Failures C R) (seen seen' : Bool) (rest : Prog C R ε α) : Prop :=
  (seen' = seen ∧ rest.Brittle F) ∨ (seen' = true ∧ ∃ e, rest = throw e)

theorem Brittle.advance (hp : p.Brittle F) (n : ℕ) (seen : Bool) :
    (p.advance n).Obeys F.watching seen
      (fun seen' r ↦ ∃ rest, r = .ok rest ∧ Remains F seen seen' rest) := by
  induction n generalizing p with
  | zero => exact ⟨p, by cases p <;> rfl, .inl ⟨rfl, hp⟩⟩
  | succ n ih =>
    cases p with
    | done a => exact ⟨_, rfl, .inl ⟨rfl, hp⟩⟩
    | throw e => cases hp
    | call g c k =>
      refine ⟨trivial, fun r hr ↦ ?_⟩
      simp only [Failures.watching_watch]
      rcases hp.call_cases hr with ⟨hfail, e, he⟩ | ⟨hfail, hk⟩
      · rw [he, hfail, Bool.or_true, advance_throw]
        exact ⟨_, rfl, .inr ⟨rfl, e, rfl⟩⟩
      · rw [hfail, Bool.or_false]
        exact ih hk

/-- The first of two programs to end has raised exactly if a failure has come. -/
def Lands (F : Failures C R) (seen : Bool) : Landing C R ε α → Prop
  | .left ended other => seen = (!ended.isOk) ∧ other.Brittle F
  | .right ended other => seen = (!ended.isOk) ∧ other.Brittle F

theorem Brittle.race (hp : p.Brittle F) (hq : q.Brittle F) (turns : List Bool) :
    (race turns p q).Obeys F.watching false
      (fun seen r ↦ ∃ landing, r = .ok landing ∧ Lands F seen landing) := by
  induction turns generalizing p q with
  | nil =>
    cases p with
    | done a => exact ⟨_, rfl, rfl, hq⟩
    | throw e => cases hp
    | call g c k =>
      cases q with
      | done b => exact ⟨_, rfl, rfl, hp⟩
      | throw e => cases hq
      | call g' c' k' =>
        rw [race_nil, obeys_bind, obeys_outcome]
        exact hp.obeys.mono (fun seen r hr ↦ ⟨_, rfl, hr, hq⟩)
  | cons turn turns ih =>
    cases p with
    | done a => exact ⟨_, rfl, rfl, hq⟩
    | throw e => cases hp
    | call g c k =>
      cases q with
      | done b => exact ⟨_, rfl, rfl, hp⟩
      | throw e => cases hq
      | call g' c' k' =>
        cases turn with
        | true =>
          refine ⟨trivial, fun r hr ↦ ?_⟩
          simp only [Failures.watching_watch, Bool.false_or]
          rcases hp.call_cases hr with ⟨hfail, e, he⟩ | ⟨hfail, hk⟩
          · rw [he, hfail, race_throw_left]
            exact ⟨_, rfl, rfl, hq⟩
          · rw [hfail]
            exact ih hk hq
        | false =>
          refine ⟨trivial, fun r hr ↦ ?_⟩
          simp only [Failures.watching_watch, Bool.false_or]
          rcases hq.call_cases hr with ⟨hfail, e, he⟩ | ⟨hfail, hk⟩
          · rw [he, hfail, race_throw_right]
            exact ⟨_, rfl, rfl, hp⟩
          · rw [hfail]
            exact ih hp hk

end Brittle

end Prog

/-- What a view has become after a run. -/
def Protocol.after (π : Protocol C R V) (v : V) (events : List (Event C R)) : V :=
  events.foldl (fun v e ↦ π.watch v e.guarded e.cmd e.reply) v

theorem Failures.after_watching (F : Failures C R) (seen : Bool) (events : List (Event C R)) :
    F.watching.after seen events = true ↔ seen = true ∨ ∃ e ∈ events, F.Unguarded e := by
  induction events generalizing seen with
  | nil => simp [Protocol.after]
  | cons e events ih =>
    rw [Protocol.after, List.foldl_cons, ← Protocol.after, ih, watching_watch]
    simp [Unguarded, or_assoc]

namespace Prog

variable {F : Failures C R} {p : Prog C R ε α} {h : Handler C R σ} {fix : (c : C) → R c → R c}

theorem Obeys.run {π : Protocol C R V} {v : V} {Q : V → Except ε α → Prop} (hp : p.Obeys π v Q)
    (hh : ∀ v c s, π.possible v c (h c s).1) (s : σ) :
    Q (π.after v (p.trace h s)) (p.run h s).1 := by
  induction p generalizing v s with
  | done a => exact hp
  | throw e => exact hp
  | call g c k ih => exact ih _ (hp.2 _ (hh v c s)) _

theorem run_recover {s : σ}
    (hfix : ∀ e ∈ p.trace h s, e.guarded = false → fix e.cmd e.reply = e.reply) :
    (p.recover fix).run h s = p.run h s := by
  induction p generalizing s with
  | done a => rfl
  | throw e => rfl
  | call g c k ih =>
    have hreply : (if g then (h c s).1 else fix c (h c s).1) = (h c s).1 := by
      cases g with
      | true => rfl
      | false => exact hfix _ (List.mem_cons_self ..) rfl
    simp only [recover, run_call, hreply]
    exact ih _ (fun e he ↦ hfix e (List.mem_cons_of_mem _ he))

end Prog

end Programs
