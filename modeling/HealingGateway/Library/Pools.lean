import HealingGateway.Library.Protocols
import Mathlib.Data.List.Induction
import Mathlib.Logic.Function.Basic

namespace Programs

/-- Threads over one store: what each has still to do, and what each has seen. -/
structure Pool (ι C : Type) (R : C → Type) (ε α V σ : Type) where
  rest : ι → Prog C R ε α
  view : ι → V
  store : σ

/-- A command a thread issued in its turn, with the reply it got. -/
structure Act (ι O C : Type) (R : C → Type) where
  thread : ι
  outside : O
  guarded : Bool
  cmd : C
  reply : R cmd

namespace Pool

variable {ι C : Type} {R : C → Type} {ε α V σ : Type}

def Obedient (π : Protocol C R V) (Q : ι → V → Except ε α → Prop) (p : Pool ι C R ε α V σ) :
    Prop :=
  ∀ i, (p.rest i).Obeys π (p.view i) (Q i)

theorem Obedient.allowed {π : Protocol C R V} {Q : ι → V → Except ε α → Prop}
    {p : Pool ι C R ε α V σ} (ho : p.Obedient π Q) {i : ι} {g : Bool} {c : C}
    {k : R c → Prog C R ε α} (hi : p.rest i = .call g c k) : π.allowed (p.view i) c := by
  have hobeys := ho i
  rw [hi] at hobeys
  exact hobeys.1

section Act

variable {O : Type} {answers : O → Handler C R σ} {p : Pool ι C R ε α V σ} {turn : ι × O}

def act (answers : O → Handler C R σ) (p : Pool ι C R ε α V σ) (turn : ι × O) :
    Option (Act ι O C R) :=
  match p.rest turn.1 with
  | .call g c _ => some ⟨turn.1, turn.2, g, c, (answers turn.2 c p.store).1⟩
  | _ => none

theorem act_eq_some {a : Act ι O C R} (h : p.act answers turn = some a) :
    ∃ g c k, p.rest turn.1 = .call g c k ∧
      a = ⟨turn.1, turn.2, g, c, (answers turn.2 c p.store).1⟩ := by
  unfold act at h
  split at h
  · next g c k hi => exact ⟨g, c, k, hi, (Option.some.inj h).symm⟩
  · cases h

theorem act_call {g : Bool} {c : C} {k : R c → Prog C R ε α}
    (hi : p.rest turn.1 = .call g c k) :
    p.act answers turn = some ⟨turn.1, turn.2, g, c, (answers turn.2 c p.store).1⟩ := by
  rw [act, hi]

def replay (answers : O → Handler C R σ) (s : σ) (acts : List (Act ι O C R)) : σ :=
  acts.foldl (fun s a ↦ (answers a.outside a.cmd s).2) s

theorem replay_append_singleton (s : σ) (before : List (Act ι O C R)) (a : Act ι O C R) :
    replay answers s (before ++ [a]) = (answers a.outside a.cmd (replay answers s before)).2 := by
  simp [replay]

/-- What each act keeps of the acts before it and of the store, all acts keep. -/
theorem replay_rule {I : List (Act ι O C R) → σ → Prop} {s : σ} {acts : List (Act ι O C R)}
    (hI : I [] s) (hstep : ∀ before a s, a ∈ acts → I before s →
      I (before ++ [a]) (answers a.outside a.cmd s).2) : I acts (replay answers s acts) := by
  induction acts using List.reverseRec with
  | nil => exact hI
  | append_singleton acts a ih =>
    rw [replay_append_singleton]
    exact hstep acts a _ (by simp) (ih (fun before b s hb ↦ hstep before b s (by simp [hb])))

end Act

variable [DecidableEq ι]

def step (π : Protocol C R V) (h : Handler C R σ) (i : ι) (p : Pool ι C R ε α V σ) :
    Pool ι C R ε α V σ :=
  match p.rest i with
  | .done _ => p
  | .throw _ => p
  | .call g c k =>
    { rest := Function.update p.rest i (k (h c p.store).1)
      view := Function.update p.view i (π.watch (p.view i) g c (h c p.store).1)
      store := (h c p.store).2 }

/-- Threads taking turns, each turn with what answers its command. -/
def run {O : Type} (π : Protocol C R V) (answers : O → Handler C R σ)
    (p : Pool ι C R ε α V σ) (turns : List (ι × O)) : Pool ι C R ε α V σ :=
  turns.foldl (fun p turn ↦ p.step π (answers turn.2) turn.1) p

variable {O : Type} {π : Protocol C R V} {h : Handler C R σ} {answers : O → Handler C R σ}
  {p : Pool ι C R ε α V σ} {i : ι}

@[simp] theorem run_nil : p.run π answers [] = p := rfl

@[simp] theorem run_append_singleton (turns : List (ι × O)) (turn : ι × O) :
    p.run π answers (turns ++ [turn]) =
      (p.run π answers turns).step π (answers turn.2) turn.1 := by
  simp [run]

theorem step_call {g : Bool} {c : C} {k : R c → Prog C R ε α} (hi : p.rest i = .call g c k) :
    p.step π h i =
      { rest := Function.update p.rest i (k (h c p.store).1)
        view := Function.update p.view i (π.watch (p.view i) g c (h c p.store).1)
        store := (h c p.store).2 } := by
  rw [step, hi]

theorem step_cases (π : Protocol C R V) (h : Handler C R σ) (i : ι) (p : Pool ι C R ε α V σ) :
    p.step π h i = p ∨ ∃ g c k, p.rest i = .call g c k := by
  cases hi : p.rest i with
  | done a => exact .inl (by rw [step, hi])
  | throw e => exact .inl (by rw [step, hi])
  | call g c k => exact .inr ⟨g, c, k, rfl⟩

theorem rest_step_of_ne {j : ι} (hj : j ≠ i) : (p.step π h i).rest j = p.rest j := by
  rcases p.step_cases π h i with hs | ⟨g, c, k, hi⟩
  · rw [hs]
  · rw [step_call hi]
    exact Function.update_of_ne hj _ _

theorem rest_step_of_ended {j : ι} {r : Except ε α} (hj : p.rest j = Prog.ofExcept r) :
    (p.step π h i).rest j = Prog.ofExcept r := by
  rcases p.step_cases π h i with hs | ⟨g, c, k, hi⟩
  · rwa [hs]
  · rw [rest_step_of_ne, hj]
    rintro rfl
    rw [hi] at hj
    cases r <;> cases hj

theorem rest_run_of_ended {j : ι} {r : Except ε α} (hj : p.rest j = Prog.ofExcept r)
    (turns : List (ι × O)) : (p.run π answers turns).rest j = Prog.ofExcept r := by
  induction turns using List.reverseRec with
  | nil => exact hj
  | append_singleton turns turn ih =>
    rw [run_append_singleton]
    exact rest_step_of_ended ih

theorem run_append (turns turns' : List (ι × O)) :
    p.run π answers (turns ++ turns') = (p.run π answers turns).run π answers turns' :=
  List.foldl_append

theorem Obedient.step {Q : ι → V → Except ε α → Prop} (ho : p.Obedient π Q)
    (hp : ∀ c, π.allowed (p.view i) c → π.possible (p.view i) c (h c p.store).1) :
    (p.step π h i).Obedient π Q := by
  rcases p.step_cases π h i with hs | ⟨g, c, k, hi⟩
  · rwa [hs]
  · rw [step_call hi]
    intro j
    by_cases hj : j = i
    · subst hj
      have hobeys := ho j
      rw [hi] at hobeys
      simp only [Function.update_self]
      exact hobeys.2 _ (hp c hobeys.1)
    · simp only [Function.update_of_ne hj]
      exact ho j

theorem Obedient.store_step {Q : ι → V → Except ε α → Prop} (ho : p.Obedient π Q) {I : σ → Prop}
    (hI : I p.store) (hstep : ∀ c, π.allowed (p.view i) c → I (h c p.store).2) :
    I (p.step π h i).store := by
  rcases p.step_cases π h i with hs | ⟨g, c, k, hi⟩
  · rwa [hs]
  · rw [step_call hi]
    exact hstep c (ho.allowed hi)

section Runs

variable {allowed : ι → C → Prop}

theorem only_step (hp : ∀ j, (p.rest j).Only (allowed j)) (j : ι) :
    ((p.step π h i).rest j).Only (allowed j) := by
  rcases p.step_cases π h i with hs | ⟨g, c, k, hi⟩
  · rw [hs]
    exact hp j
  · rw [step_call hi]
    by_cases hj : j = i
    · subst hj
      simp only [Function.update_self]
      have hcall := hp j
      rw [hi] at hcall
      exact hcall.2 _
    · simp only [Function.update_of_ne hj]
      exact hp j

theorem only_run (hp : ∀ j, (p.rest j).Only (allowed j)) (turns : List (ι × O)) :
    ∀ j, ((p.run π answers turns).rest j).Only (allowed j) := by
  induction turns using List.reverseRec with
  | nil => exact hp
  | append_singleton turns turn ih =>
    rw [run_append_singleton]
    exact only_step ih

/-- What every command a thread may issue leaves to hold of the store, all turns leave to hold. -/
theorem store_run {I : σ → Prop} (hp : ∀ j, (p.rest j).Only (allowed j)) (hI : I p.store)
    (hstep : ∀ (turn : ι × O) c s, allowed turn.1 c → I s → I (answers turn.2 c s).2)
    (turns : List (ι × O)) : I (p.run π answers turns).store := by
  induction turns using List.reverseRec with
  | nil => exact hI
  | append_singleton turns turn ih =>
    rw [run_append_singleton]
    rcases step_cases π (answers turn.2) turn.1 (p.run π answers turns) with hs | ⟨g, c, k, hi⟩
    · rwa [hs]
    · rw [step_call hi]
      have hcall : ((p.run π answers turns).rest turn.1).Only (allowed turn.1) := only_run hp turns turn.1
      rw [hi] at hcall
      exact hstep turn c _ hcall.1 ih

end Runs

section Acts

def acts (π : Protocol C R V) (answers : O → Handler C R σ) (p : Pool ι C R ε α V σ) :
    List (ι × O) → List (Act ι O C R)
  | [] => []
  | turn :: turns =>
    (p.act answers turn).toList ++ (p.step π (answers turn.2) turn.1).acts π answers turns

theorem run_cons (turn : ι × O) (turns : List (ι × O)) :
    p.run π answers (turn :: turns) = (p.step π (answers turn.2) turn.1).run π answers turns := rfl

theorem acts_append (turns turns' : List (ι × O)) :
    p.acts π answers (turns ++ turns') =
      p.acts π answers turns ++ (p.run π answers turns).acts π answers turns' := by
  induction turns generalizing p with
  | nil => rfl
  | cons turn turns ih => rw [List.cons_append, acts, ih, acts, List.append_assoc, run_cons]

theorem acts_append_singleton (turns : List (ι × O)) (turn : ι × O) :
    p.acts π answers (turns ++ [turn]) =
      p.acts π answers turns ++ ((p.run π answers turns).act answers turn).toList := by
  rw [acts_append, acts, acts, List.append_nil]

theorem store_run_eq (turns : List (ι × O)) :
    (p.run π answers turns).store = replay answers p.store (p.acts π answers turns) := by
  induction turns using List.reverseRec with
  | nil => rfl
  | append_singleton turns turn ih =>
    rw [run_append_singleton, acts_append_singleton]
    cases hi : (p.run π answers turns).rest turn.1 with
    | done a => simpa [step, act, hi] using ih
    | throw e => simpa [step, act, hi] using ih
    | call g c k =>
      rw [step_call hi, act_call hi, Option.toList_some, replay_append_singleton, ← ih]

theorem exists_turn_of_acts {turns : List (ι × O)} {before after : List (Act ι O C R)}
    {a : Act ι O C R} (h : p.acts π answers turns = before ++ a :: after) :
    ∃ turns₁ turn turns₂, turns = turns₁ ++ turn :: turns₂ ∧ p.acts π answers turns₁ = before ∧
      (p.run π answers turns₁).act answers turn = some a := by
  induction turns using List.reverseRec generalizing after with
  | nil => cases before <;> cases h
  | append_singleton turns turn ih =>
    have hearlier : ∀ after', p.acts π answers turns = before ++ a :: after' →
        ∃ turns₁ turn' turns₂, turns ++ [turn] = turns₁ ++ turn' :: turns₂ ∧
          p.acts π answers turns₁ = before ∧
          (p.run π answers turns₁).act answers turn' = some a := by
      intro after' h'
      obtain ⟨turns₁, turn', turns₂, rfl, hbefore, ha⟩ := ih h'
      exact ⟨turns₁, turn', turns₂ ++ [turn], by simp, hbefore, ha⟩
    rw [acts_append_singleton] at h
    cases hact : (p.run π answers turns).act answers turn with
    | none =>
      rw [hact, Option.toList_none, List.append_nil] at h
      exact hearlier after h
    | some b =>
      rw [hact, Option.toList_some] at h
      rcases List.eq_nil_or_concat after with rfl | ⟨after', b', rfl⟩
      · obtain ⟨hbefore, hb⟩ := List.append_inj' h rfl
        exact ⟨turns, turn, [], rfl, hbefore, by rw [hact, (List.cons.inj hb).1]⟩
      · rw [List.concat_eq_append, ← List.cons_append, ← List.append_assoc] at h
        exact hearlier after' (List.append_inj' h rfl).1

theorem reply_of_acts {turns : List (ι × O)} {before after : List (Act ι O C R)}
    {a : Act ι O C R} (h : p.acts π answers turns = before ++ a :: after) :
    a.reply = (answers a.outside a.cmd (replay answers p.store before)).1 := by
  obtain ⟨turns₁, turn, turns₂, -, rfl, ha⟩ := exists_turn_of_acts h
  obtain ⟨g, c, k, -, rfl⟩ := act_eq_some ha
  rw [← store_run_eq]

variable {allowed : ι → C → Prop}

theorem only_acts (hp : ∀ j, (p.rest j).Only (allowed j)) (turns : List (ι × O)) :
    ∀ a ∈ p.acts π answers turns, allowed a.thread a.cmd := by
  induction turns using List.reverseRec with
  | nil => exact fun a ha ↦ by cases ha
  | append_singleton turns turn ih =>
    intro a ha
    rw [acts_append_singleton, List.mem_append, Option.mem_toList] at ha
    rcases ha with ha | ha
    · exact ih a ha
    · obtain ⟨g, c, k, hi, rfl⟩ := act_eq_some ha
      have hcall : ((p.run π answers turns).rest turn.1).Only (allowed turn.1) := only_run hp turns turn.1
      rw [hi] at hcall
      exact hcall.1

end Acts

end Pool

end Programs
