import HealingGateway.Library.Shares
import HealingGateway.Library.Turns

namespace Programs

abbrev Memory (C : Type) (R : C → Type) := List ((c : C) × R c)

variable {C : Type} {R : C → Type} {ε α β : Type}

/-- Programs are held to what they remember. -/
def remembering (allowed : Memory C R → C → Prop) : Protocol C R (Memory C R) where
  allowed
  watch := fun v _ c r ↦ ⟨c, r⟩ :: v

/-- What holds of a memory holds when more is remembered. -/
def Lasting {A : Type} (Q : Memory C R → A → Prop) : Prop := ∀ v v' a, v ⊆ v' → Q v a → Q v' a

theorem lasting_true {A : Type} : Lasting (fun (_ : Memory C R) (_ : A) ↦ True) := fun _ _ _ _ h ↦ h

namespace Prog

variable {allowed : Memory C R → C → Prop} {p q : Prog C R ε α} {v v' : Memory C R}
  {P Q : Memory C R → Except ε α → Prop}

theorem Obeys.widen (ha : Lasting allowed) (hQ : Lasting Q) (h : p.Obeys (remembering allowed) v Q)
    (hv : v ⊆ v') : p.Obeys (remembering allowed) v' Q := by
  induction p generalizing v v' with
  | done a => exact hQ _ _ _ hv h
  | throw e => exact hQ _ _ _ hv h
  | call g c k ih =>
    exact ⟨ha _ _ _ hv h.1, fun r _ ↦ ih r (h.2 r trivial) (List.cons_subset_cons _ hv)⟩

theorem Obeys.grows (h : p.Obeys (remembering allowed) v Q) :
    p.Obeys (remembering allowed) v (fun v' r ↦ v ⊆ v' ∧ Q v' r) := by
  induction p generalizing v with
  | done a => exact ⟨List.Subset.refl v, h⟩
  | throw e => exact ⟨List.Subset.refl v, h⟩
  | call g c k ih =>
    refine ⟨h.1, fun r _ ↦ (ih r (h.2 r trivial)).mono (fun v' r' h' ↦ ⟨?_, h'.2⟩)⟩
    exact List.Subset.trans (List.subset_cons_self _ _) h'.1

theorem Obeys.advance_remembering (h : p.Obeys (remembering allowed) v Q) (n : ℕ) :
    (p.advance n).Obeys (remembering allowed) v
      (fun v r ↦ ∃ rest, r = .ok rest ∧ rest.Obeys (remembering allowed) v Q) := by
  induction n generalizing p v with
  | zero => cases p <;> exact ⟨_, rfl, h⟩
  | succ n ih =>
    cases p with
    | done a => exact ⟨_, rfl, h⟩
    | throw e => exact ⟨_, rfl, h⟩
    | call g c k => exact ⟨h.1, fun r _ ↦ ih (h.2 r trivial)⟩

def Landing.Remembers (allowed : Memory C R → C → Prop) (P Q : Memory C R → Except ε α → Prop)
    (v : Memory C R) : Landing C R ε α → Prop
  | .left ended other => P v ended ∧ other.Obeys (remembering allowed) v Q
  | .right ended other => Q v ended ∧ other.Obeys (remembering allowed) v P

theorem Obeys.race_remembering (ha : Lasting allowed) (hP : Lasting P) (hQ : Lasting Q)
    (hp : p.Obeys (remembering allowed) v P) (hq : q.Obeys (remembering allowed) v Q) (turns : List Bool) :
    (Prog.race turns p q).Obeys (remembering allowed) v (fun v r ↦ ∃ landing, r = .ok landing ∧
      Landing.Remembers allowed P Q v landing) := by
  induction turns generalizing p q v with
  | nil =>
    cases p with
    | done a => exact ⟨_, rfl, hp, hq⟩
    | throw e => exact ⟨_, rfl, hp, hq⟩
    | call g c k =>
      cases q with
      | done b => exact ⟨_, rfl, hq, hp⟩
      | throw e => exact ⟨_, rfl, hq, hp⟩
      | call g' c' k' =>
        rw [race_nil, obeys_bind, obeys_outcome]
        exact hp.grows.mono (fun v' ended h ↦ ⟨_, rfl, h.2, hq.widen ha hQ h.1⟩)
  | cons turn turns ih =>
    cases p with
    | done a => exact ⟨_, rfl, hp, hq⟩
    | throw e => exact ⟨_, rfl, hp, hq⟩
    | call g c k =>
      cases q with
      | done b => exact ⟨_, rfl, hq, hp⟩
      | throw e => exact ⟨_, rfl, hq, hp⟩
      | call g' c' k' =>
        have hmore : ∀ (c : C) (r : R c), v ⊆ ⟨c, r⟩ :: v := fun c r ↦ List.subset_cons_self _ _
        cases turn with
        | true => exact ⟨hp.1, fun r _ ↦ ih (hp.2 r trivial) (hq.widen ha hQ (hmore c r))⟩
        | false => exact ⟨hq.1, fun r _ ↦ ih (hp.widen ha hP (hmore c' r)) (hq.2 r trivial)⟩

section Abides

variable {S : Memory C R → α → Prop} {T : Memory C R → β → Prop}

/-- A program keeps to what is allowed, and what it returns is as `S` says of what it remembers by then. -/
def Abides (allowed : Memory C R → C → Prop) (p : Prog C R ε α) (v : Memory C R)
    (S : Memory C R → α → Prop) : Prop :=
  p.Obeys (remembering allowed) v (fun v r ↦ ∀ a, r = .ok a → S v a)

@[simp] theorem abides_done {a : α} : (done a : Prog C R ε α).Abides allowed v S ↔ S v a :=
  ⟨fun h ↦ h a rfl, fun h b hb ↦ by cases hb; exact h⟩

theorem abides_throw (e : ε) : (throw e : Prog C R ε α).Abides allowed v S := fun _ h ↦ by cases h

theorem abides_ofExcept {x : Except ε α} (h : ∀ a, x = .ok a → S v a) :
    (ofExcept x : Prog C R ε α).Abides allowed v S := obeys_ofExcept.mpr h

theorem Only.abides {A : C → Prop} (h : p.Only A) (hA : ∀ v c, A c → allowed v c) (v : Memory C R) :
    p.Abides allowed v (fun _ _ ↦ True) := (h.obeys hA v).mono (fun _ _ _ _ _ ↦ trivial)

theorem Abides.bind {f : α → Prog C R ε β} (h : p.Abides allowed v S)
    (hf : ∀ v' a, v ⊆ v' → S v' a → (f a).Abides allowed v' T) : (p >>= f).Abides allowed v T := by
  refine Obeys.bind (Obeys.grows h) (fun v' a ha ↦ ?_) (fun _ _ _ ↦ by rintro _ ⟨⟩)
  exact hf v' a ha.1 (ha.2 a rfl)

theorem Abides.returns {P : α → Prop} (h : p.Abides allowed v S) (hp : p.Returns P) :
    p.Abides allowed v (fun v a ↦ S v a ∧ P a) :=
  (Obeys.returns h hp).mono (fun _ _ hr a ha ↦ ⟨hr.1 a ha, hr.2 a ha⟩)

theorem Abides.tryExcept {catches : ε → Bool} {handler : ε → Prog C R ε α} (h : p.Abides allowed v S)
    (hh : ∀ v' e, v ⊆ v' → (handler e).Abides allowed v' S) :
    (tryExcept catches p handler).Abides allowed v S := by
  rw [Abides, obeys_tryExcept]
  refine (Obeys.grows h).mono (fun v' r hr ↦ ?_)
  cases r with
  | ok a => exact hr.2
  | error e =>
    dsimp only
    split
    · exact hh v' e hr.1
    · rintro _ ⟨⟩

theorem Abides.swallow {catches : ε → Bool} {handler : ε → Prog C R ε α} (h : p.Abides allowed v S)
    (hh : ∀ v' e, v ⊆ v' → (handler e).Abides allowed v' S) : (swallow catches p handler).Abides allowed v S :=
  Abides.tryExcept (obeys_guarded.mpr h) hh

theorem Abides.widen (ha : Lasting allowed) (hS : Lasting S) (h : p.Abides allowed v S) (hv : v ⊆ v') :
    p.Abides allowed v' S :=
  Obeys.widen ha (fun _ _ _ hv hr a ha ↦ hS _ _ a hv (hr a ha)) h hv

theorem Abides.advance (h : p.Abides allowed v S) (n : ℕ) :
    (p.advance n).Abides allowed v (fun v rest ↦ rest.Abides allowed v S) := by
  refine (Obeys.advance_remembering h n).mono (fun v r hr ↦ ?_)
  obtain ⟨rest, rfl, hrest⟩ := hr
  rintro _ ⟨⟩
  exact hrest

theorem Abides.ended {a : α} (h : p.Abides allowed v S) (hp : p.ended? = some (.ok a)) : S v a := by
  cases p with
  | done b =>
    cases hp
    exact abides_done.mp h
  | throw e => cases hp
  | call g c k => cases hp

def Landing.Abides (allowed : Memory C R → C → Prop) (S : Memory C R → α → Prop) (v : Memory C R) :
    Landing C R ε α → Prop
  | .left ended other => (∀ a, ended = .ok a → S v a) ∧ other.Abides allowed v S
  | .right ended other => (∀ a, ended = .ok a → S v a) ∧ other.Abides allowed v S

theorem Abides.race (ha : Lasting allowed) (hS : Lasting S) (hp : p.Abides allowed v S)
    (hq : q.Abides allowed v S) (turns : List Bool) :
    (Prog.race turns p q).Abides allowed v (Landing.Abides allowed S) := by
  have hlasting : Lasting (fun v (r : Except ε α) ↦ ∀ a, r = .ok a → S v a) :=
    fun _ _ _ hv hr a ha ↦ hS _ _ a hv (hr a ha)
  refine (Obeys.race_remembering ha hlasting hlasting hp hq turns).mono (fun v r hr ↦ ?_)
  obtain ⟨landing, rfl, hlanding⟩ := hr
  rintro _ ⟨⟩
  cases landing <;> exact hlanding

/-- Who issues nothing but what is allowed anyway is held to nothing more. -/
theorem Abides.permitted {allowed' : Memory C R → C → Prop} {A : C → Prop} (h : p.Abides allowed v S)
    (hp : p.Only A) (hA : ∀ v c, A c → allowed' v c) : p.Abides allowed' v S := by
  induction p generalizing v with
  | done a => exact h
  | throw e => exact h
  | call g c k ih => exact ⟨hA v c hp.1, fun r _ ↦ ih r (h.2 r trivial) (hp.2 r)⟩

abbrev recalling : Protocol C R (Memory C R) := remembering (fun _ _ ↦ True)

abbrev Recalls (p : Prog C R ε α) (v : Memory C R) (S : Memory C R → α → Prop) : Prop :=
  p.Abides (fun _ _ ↦ True) v S

theorem recalls_any (p : Prog C R ε α) (v : Memory C R) : p.Recalls v (fun _ _ ↦ True) := by
  induction p generalizing v with
  | done a => exact abides_done.mpr trivial
  | throw e => exact abides_throw e
  | call g c k ih => exact ⟨trivial, fun r _ ↦ ih r _⟩

theorem recalls_bind {f : α → Prog C R ε β} (hf : ∀ v' a, v ⊆ v' → (f a).Recalls v' T) :
    (p >>= f).Recalls v T := (recalls_any p v).bind (fun v' a hv _ ↦ hf v' a hv)

/-- A program that remembers more than its own beginning keeps to what is allowed of its own part. -/
theorem Obeys.upon {allowed' : Memory C R → C → Prop} {B : C → Prop} {older : Memory C R}
    (h : p.Obeys (remembering allowed) v Q) (hp : p.Only B) (hv : ∀ e ∈ v, B e.1)
    (ha : ∀ v c, (∀ e ∈ v, B e.1) → allowed v c → allowed' (v ++ older) c) :
    p.Obeys (remembering allowed') (v ++ older) (fun _ _ ↦ True) := by
  induction p generalizing v with
  | done a => trivial
  | throw e => trivial
  | call g c k ih =>
    exact ⟨ha v c hv h.1, fun r _ ↦ ih r (h.2 r trivial) (hp.2 r) (List.forall_mem_cons.mpr ⟨hp.1, hv⟩)⟩

end Abides

end Prog

namespace Pool

variable {ι O : Type} [DecidableEq ι] {allowed : Memory C R → C → Prop} {i : ι}

/-- What a thread remembers stands in the order of its acts. -/
theorem exists_of_after_remembering {acts : List (Act ι O C R)} {since older : Memory C R} {c : C} {r : R c}
    (h : (remembering allowed).after [] (share i acts) = since ++ ⟨c, r⟩ :: older) :
    ∃ earlier o g later, acts = earlier ++ ⟨i, o, g, c, r⟩ :: later ∧
      (remembering allowed).after [] (share i later) = since := by
  induction acts using List.reverseRec generalizing since with
  | nil => simp [share, Protocol.after] at h
  | append_singleton acts a ih =>
    rw [share_append, after_append] at h
    by_cases hi : a.thread = i
    · obtain ⟨j, o, g, c', r'⟩ := a
      obtain rfl : j = i := hi
      have hshare : share j [(⟨j, o, g, c', r'⟩ : Act ι O C R)] = [⟨g, c', r'⟩] := share_singleton_self _
      rw [hshare] at h
      cases since with
      | nil =>
        cases (List.cons.inj h).1
        exact ⟨acts, o, g, [], rfl, rfl⟩
      | cons e since =>
        obtain ⟨he, h⟩ := List.cons.inj h
        obtain ⟨earlier, o', g', later, rfl, hafter⟩ := ih h
        refine ⟨earlier, o', g', later ++ [⟨j, o, g, c', r'⟩], by simp, ?_⟩
        rw [share_append, after_append, hafter, hshare]
        exact congrArg (· :: since) he
    · rw [share_singleton_of_ne hi] at h
      obtain ⟨earlier, o, g, later, rfl, hafter⟩ := ih h
      refine ⟨earlier, o, g, later ++ [a], by simp, ?_⟩
      rw [share_append, after_append, hafter, share_singleton_of_ne hi]
      rfl

theorem mem_after_remembering {acts : List (Act ι O C R)} {c : C} {r : R c}
    (h : ⟨c, r⟩ ∈ (remembering allowed).after [] (share i acts)) :
    ∃ o g, (⟨i, o, g, c, r⟩ : Act ι O C R) ∈ acts := by
  obtain ⟨since, older, hafter⟩ := List.append_of_mem h
  obtain ⟨earlier, o, g, later, rfl, -⟩ := exists_of_after_remembering hafter
  exact ⟨o, g, by simp⟩

theorem remembered_of_mem {acts : List (Act ι O C R)} {a : Act ι O C R} (ha : a ∈ acts) :
    ⟨a.cmd, a.reply⟩ ∈ (remembering allowed).after [] (share a.thread acts) := by
  induction acts using List.reverseRec with
  | nil => cases ha
  | append_singleton acts b ih =>
    rw [share_append, after_append]
    obtain ha | ha := List.mem_append.mp ha
    · by_cases hb : b.thread = a.thread
      · rw [← hb, share_singleton_self]
        exact List.mem_cons_of_mem _ (hb ▸ ih ha)
      · rw [share_singleton_of_ne hb]
        exact ih ha
    · obtain rfl := List.mem_singleton.mp ha
      rw [share_singleton_self]
      exact List.mem_cons_self ..

end Pool

end Programs
