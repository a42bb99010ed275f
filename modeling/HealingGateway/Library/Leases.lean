import HealingGateway.Library.Histories
import Mathlib.Data.Fintype.Basic
import Mathlib.Data.List.Infix
import Mathlib.Logic.Function.Basic
import Mathlib.Order.Lattice

namespace Leases

variable {ι K V T : Type}

/-- Where a client stands with the slot it wants. -/
inductive Phase (V : Type)
  | idle
  | refused
  | told (found : Option V)
  | holding
  | settled (v : V)
  | freed
  deriving DecidableEq

/-- The clients, and what each slot holds until when. -/
structure Book (ι K V : Type) where
  phase : ι → Phase V
  slots : K → Option (V × ℤ)

def Book.found (b : Book ι K V) (now : ℤ) (k : K) : Option V :=
  ((b.slots k).filter (fun e ↦ decide (now ≤ e.2))).map Prod.fst

theorem Book.found_of_slots {b : Book ι K V} {k : K} {v : V} {now t : ℤ}
    (h : b.slots k = some (v, t)) (ht : now ≤ t) : b.found now k = some v := by
  simp [Book.found, h, ht]

section Notions

variable (wants : ι → Option K) (now : T → ℤ) (books : List (ι × T) → Book ι K V)

def Writes (i : ι) (b b' : Book ι K V) : Prop :=
  b.phase i = .idle ∧ b'.phase i = .holding ∨ b.phase i = .holding ∧ ∃ v, b'.phase i = .settled v

/-- What the slot holds was put there by client `i`, and has been there since. -/
def LeftBy (turns : List (ι × T)) (k : K) (i : ι) : Prop :=
  wants i = some k ∧ ∃ before x, before ++ [(i, x)] <+: turns ∧
    Writes i (books before) (books (before ++ [(i, x)])) ∧
    ∀ mid, before ++ [(i, x)] <+: mid → mid <+: turns →
      (books mid).slots k = (books turns).slots k

/-- Nobody asks for a slot while a client holds it whose claim has run out. -/
def ClaimsLast (turns : List (ι × T)) : Prop :=
  ∀ before turn after, turns = before ++ turn :: after → ∀ k ∈ wants turn.1,
    (books before).phase turn.1 = .idle →
      ∀ j, wants j = some k → (books before).phase j = .holding →
        (books before).found (now turn.2) k ≠ none

instance [Fintype ι] [DecidableEq K] [DecidableEq V] (turns : List (ι × T)) :
    Decidable (ClaimsLast wants now books turns) :=
  inferInstanceAs (Decidable (∀ _ _ _, _))

/-- A client that holds a slot is the only one, and the slot holds what it put there. -/
def Exclusive (turns : List (ι × T)) : Prop :=
  ∀ i k, wants i = some k → (books turns).phase i = .holding →
    LeftBy wants books turns k i ∧ ∀ j, wants j = some k → (books turns).phase j = .holding → j = i

end Notions

variable {wants : ι → Option K} {now : T → ℤ}
  {books : List (ι × T) → Book ι K V} {turns : List (ι × T)} {k : K} {i : ι}

theorem leftBy_new {x : T} (hk : wants i = some k)
    (hw : Writes i (books turns) (books (turns ++ [(i, x)]))) :
    LeftBy wants books (turns ++ [(i, x)]) k i := by
  refine ⟨hk, turns, x, List.prefix_rfl, hw, fun mid h h' ↦ ?_⟩
  have hmid : mid = turns ++ [(i, x)] := h'.eq_of_length_le h.length_le
  rw [hmid]

theorem LeftBy.extend (h : LeftBy wants books turns k i) {turn : ι × T}
    (hs : (books (turns ++ [turn])).slots k = (books turns).slots k) :
    LeftBy wants books (turns ++ [turn]) k i := by
  obtain ⟨hk, before, x, hpre, hw, hsame⟩ := h
  refine ⟨hk, before, x, hpre.trans (List.prefix_append _ _), hw, fun mid hmid hmid' ↦ ?_⟩
  rcases List.prefix_concat_iff.mp hmid' with rfl | hmid'
  · rfl
  · rw [hsame mid hmid hmid', hs]

theorem ClaimsLast.of_append {later : List (ι × T)}
    (h : ClaimsLast wants now books (turns ++ later)) : ClaimsLast wants now books turns := by
  intro before turn after he
  exact h before turn (after ++ later) (by rw [he, List.append_assoc]; rfl)

theorem exclusive_aside (h : Exclusive wants books turns) {turn : ι × T}
    (hs : (books (turns ++ [turn])).slots = (books turns).slots)
    (hp : ∀ i, (books (turns ++ [turn])).phase i = .holding → (books turns).phase i = .holding) :
    Exclusive wants books (turns ++ [turn]) := by
  intro i k hk hi
  obtain ⟨hleft, hone⟩ := h i k hk (hp i hi)
  exact ⟨hleft.extend (congrFun hs k), fun j hj hhold ↦ hone j hj (hp j hhold)⟩

section TurnTo

variable [DecidableEq ι] (b : Book ι K V) (i : ι) (phase : Phase V)

def Book.turnTo : Book ι K V := { b with phase := Function.update b.phase i phase }

@[simp] theorem Book.turnTo_slots : (b.turnTo i phase).slots = b.slots := rfl

@[simp] theorem Book.turnTo_phase : (b.turnTo i phase).phase = Function.update b.phase i phase := rfl

end TurnTo

variable [DecidableEq ι] [DecidableEq K]

section Put

variable (b : Book ι K V) (i : ι) (phase : Phase V) (k : K) (e : Option (V × ℤ))

def Book.put : Book ι K V := ⟨Function.update b.phase i phase, Function.update b.slots k e⟩

@[simp] theorem Book.put_slots : (b.put i phase k e).slots = Function.update b.slots k e := rfl

@[simp] theorem Book.put_phase : (b.put i phase k e).phase = Function.update b.phase i phase := rfl

end Put

variable {mark : V} {ttl : ℤ}

/-- One turn of a client at `now`: it claims the slot it wants if nothing is found there, is
refused and then told what is there, puts its value in place of its claim or frees the slot, or
does something else. -/
inductive Step (wants : ι → Option K) (mark : V) (ttl now : ℤ) (i : ι) (b : Book ι K V) :
    Book ι K V → Prop
  | aside : Step wants mark ttl now i b b
  | claim {k : K} (hk : wants i = some k) (hi : b.phase i = .idle) (hfree : b.found now k = none) :
      Step wants mark ttl now i b (b.put i .holding k (some (mark, now + ttl)))
  | refuse {k : K} (hk : wants i = some k) (hi : b.phase i = .idle)
      (htaken : b.found now k ≠ none) : Step wants mark ttl now i b (b.turnTo i .refused)
  | tell {k : K} (hk : wants i = some k) (hi : b.phase i = .refused) :
      Step wants mark ttl now i b (b.turnTo i (.told (b.found now k)))
  | settle {k : K} (v : V) (hk : wants i = some k) (hi : b.phase i = .holding) :
      Step wants mark ttl now i b (b.put i (.settled v) k (some (v, now + ttl)))
  | free {k : K} (hk : wants i = some k) (hi : b.phase i = .holding) :
      Step wants mark ttl now i b (b.put i .freed k none)

theorem Step.of_holding {at' : ℤ} {b b' : Book ι K V} (h : Step wants mark ttl at' i b b')
    (hk : wants i = some k) (hi : b.phase i = .holding) :
    b' = b ∨ (∃ v, b' = b.put i (.settled v) k (some (v, at' + ttl))) ∨
      b' = b.put i .freed k none := by
  cases h with
  | aside => exact .inl rfl
  | claim _ hi' | refuse _ hi' | tell _ hi' =>
    rw [hi] at hi'
    cases hi'
  | @settle k' v hk' =>
    obtain rfl : k' = k := Option.some.inj (hk'.symm.trans hk)
    exact .inr (.inl ⟨v, rfl⟩)
  | @free k' hk' =>
    obtain rfl : k' = k := Option.some.inj (hk'.symm.trans hk)
    exact .inr (.inr rfl)

theorem Step.slots_of_refused {at' : ℤ} {b b' : Book ι K V} (h : Step wants mark ttl at' i b b')
    (hi : b'.phase i = .refused ∨ ∃ found, b'.phase i = .told found) : b'.slots = b.slots := by
  cases h with
  | aside | refuse | tell => rfl
  | claim | settle | free => simp at hi

/-- The books after each run of turns, from one where nobody has begun. -/
structure History (wants : ι → Option K) (mark : V) (ttl : ℤ) (now : T → ℤ)
    (books : List (ι × T) → Book ι K V) : Prop where
  empty : ∀ k, (books []).slots k = none
  idle : ∀ i, (books []).phase i = .idle
  step : ∀ turns turn, Step wants mark ttl (now turn.2) turn.1 (books turns) (books (turns ++ [turn]))

section Holding

theorem exclusive_back (h : Exclusive wants books turns) {k : K} {x : T} {phase : Phase V}
    {e : Option (V × ℤ)} (hk : wants i = some k) (hi : (books turns).phase i = .holding)
    (hphase : phase ≠ .holding)
    (hb : books (turns ++ [(i, x)]) = (books turns).put i phase k e) :
    Exclusive wants books (turns ++ [(i, x)]) := by
  have hother : ∀ j, (books (turns ++ [(i, x)])).phase j = .holding →
      j ≠ i ∧ (books turns).phase j = .holding := by
    intro j hj
    rw [hb, Book.put_phase] at hj
    by_cases hji : j = i
    · subst hji
      rw [Function.update_self] at hj
      exact absurd hj hphase
    · exact ⟨hji, by rwa [Function.update_of_ne hji] at hj⟩
  intro j k' hk' hj
  obtain ⟨hji, hj⟩ := hother j hj
  obtain ⟨hleft, hone⟩ := h j k' hk' hj
  have hkk : k' ≠ k := by
    rintro rfl
    exact hji ((h i k' hk hi).2 j hk' hj)
  refine ⟨hleft.extend ?_, fun j' hj' hhold ↦ hone j' hj' (hother j' hhold).2⟩
  rw [hb, Book.put_slots, Function.update_of_ne hkk]

/-- While no claim runs out under its holder, a slot has one holder and what it put there. -/
theorem History.exclusive (hist : History wants mark ttl now books)
    (hlast : ClaimsLast wants now books turns) : Exclusive wants books turns := by
  induction turns using List.reverseRec with
  | nil =>
    intro i k _ hi
    rw [hist.idle] at hi
    cases hi
  | append_singleton turns turn ih =>
    have h := ih hlast.of_append
    obtain ⟨j, x⟩ := turn
    have hstep := hist.step turns (j, x)
    generalize hb : books (turns ++ [(j, x)]) = b' at hstep
    have hturn : ∀ phase : Phase V, phase ≠ .holding → b' = (books turns).turnTo j phase →
        Exclusive wants books (turns ++ [(j, x)]) := by
      intro phase hphase hb'
      refine exclusive_aside h (by rw [hb, hb', Book.turnTo_slots]) (fun i hi ↦ ?_)
      rw [hb, hb', Book.turnTo_phase] at hi
      by_cases hij : i = j
      · subst hij
        rw [Function.update_self] at hi
        exact absurd hi hphase
      · rwa [Function.update_of_ne hij] at hi
    cases hstep with
    | aside => exact exclusive_aside h (by rw [hb]) (fun i hi ↦ by rwa [hb] at hi)
    | refuse => exact hturn .refused (by simp) rfl
    | tell => exact hturn (.told _) (by simp) rfl
    | settle v hk hi => exact exclusive_back h hk hi (by simp) hb
    | free hk hi => exact exclusive_back h hk hi (by simp) hb
    | @claim k hk hj hfree =>
      have hnone : ∀ i, wants i = some k → (books turns).phase i ≠ .holding := by
        intro i hi hhold
        exact hlast turns (j, x) [] rfl k hk hj i hi hhold hfree
      have hcases : ∀ i k', wants i = some k' → (books (turns ++ [(j, x)])).phase i = .holding →
          i = j ∧ k' = k ∨ k' ≠ k ∧ (books turns).phase i = .holding := by
        intro i k' hk' hi
        rw [hb, Book.put_phase] at hi
        by_cases hij : i = j
        · subst hij
          exact .inl ⟨rfl, Option.some.inj (hk'.symm.trans hk)⟩
        · rw [Function.update_of_ne hij] at hi
          refine .inr ⟨?_, hi⟩
          rintro rfl
          exact hnone i hk' hi
      intro i k' hk' hi
      rcases hcases i k' hk' hi with ⟨rfl, rfl⟩ | ⟨hkk, hi⟩
      · refine ⟨leftBy_new hk (.inl ⟨hj, by simp [hb]⟩), fun i' hi' hhold ↦ ?_⟩
        rcases hcases i' k' hi' hhold with ⟨rfl, -⟩ | ⟨hne, -⟩
        · rfl
        · exact absurd rfl hne
      · obtain ⟨hleft, hone⟩ := h i k' hk' hi
        refine ⟨hleft.extend (by rw [hb, Book.put_slots, Function.update_of_ne hkk]), ?_⟩
        intro i' hi' hhold
        rcases hcases i' k' hi' hhold with ⟨-, hkk'⟩ | ⟨-, hhold⟩
        · exact absurd hkk' hkk
        · exact hone i' hi' hhold

end Holding

section Settled

/-- A value that was put in place of a claim: it stands until `t`, nobody holds its slot, and
who asks is told it. -/
structure Stands (wants : ι → Option K) (asking : ι → Prop) (k : K) (v : V) (t : ℤ)
    (b : Book ι K V) : Prop where
  slot : b.slots k = some (v, t)
  free : ∀ j, wants j = some k → b.phase j ≠ .holding
  told : ∀ j, wants j = some k → asking j →
    b.phase j = .idle ∨ b.phase j = .refused ∨ b.phase j = .told (some v)

variable {asking : ι → Prop} {v : V} {t at' : ℤ} {b b' : Book ι K V}

omit [DecidableEq K] in
theorem Stands.turnTo (h : Stands wants asking k v t b) {phase : Phase V}
    (hphase : phase ≠ .holding)
    (htold : wants i = some k → asking i →
      phase = .idle ∨ phase = .refused ∨ phase = .told (some v)) :
    Stands wants asking k v t (b.turnTo i phase) := by
  refine ⟨h.slot, fun j hj ↦ ?_, fun j hj ha ↦ ?_⟩
  · rw [Book.turnTo_phase]
    by_cases hji : j = i
    · subst hji
      rwa [Function.update_self]
    · rw [Function.update_of_ne hji]
      exact h.free j hj
  · rw [Book.turnTo_phase]
    by_cases hji : j = i
    · subst hji
      rw [Function.update_self]
      exact htold hj ha
    · rw [Function.update_of_ne hji]
      exact h.told j hj ha

theorem Stands.put (h : Stands wants asking k v t b) {k' : K} (hk : wants i = some k')
    (hkk : k ≠ k') (phase : Phase V) (e : Option (V × ℤ)) :
    Stands wants asking k v t (b.put i phase k' e) := by
  have hne : ∀ j, wants j = some k → j ≠ i := by
    rintro j hj rfl
    exact hkk (Option.some.inj (hj.symm.trans hk))
  refine ⟨?_, fun j hj ↦ ?_, fun j hj ha ↦ ?_⟩
  · rw [Book.put_slots, Function.update_of_ne hkk]
    exact h.slot
  · rw [Book.put_phase, Function.update_of_ne (hne j hj)]
    exact h.free j hj
  · rw [Book.put_phase, Function.update_of_ne (hne j hj)]
    exact h.told j hj ha

theorem Stands.step (h : Stands wants asking k v t b) (ht : at' ≤ t)
    (hstep : Step wants mark ttl at' i b b') : Stands wants asking k v t b' := by
  have hfound : b.found at' k = some v := Book.found_of_slots h.slot ht
  cases hstep with
  | aside => exact h
  | refuse => exact h.turnTo (by simp) (fun _ _ ↦ .inr (.inl rfl))
  | @tell k' hk hi =>
    refine h.turnTo (by simp) (fun hk' _ ↦ .inr (.inr ?_))
    obtain rfl : k' = k := Option.some.inj (hk.symm.trans hk')
    rw [hfound]
  | @claim k' hk hi hfree =>
    refine h.put hk ?_ _ _
    rintro rfl
    rw [hfound] at hfree
    cases hfree
  | @settle k' v' hk hi =>
    refine h.put hk ?_ _ _
    rintro rfl
    exact h.free i hk hi
  | @free k' hk hi =>
    refine h.put hk ?_ _ _
    rintro rfl
    exact h.free i hk hi

/-- From a turn on, every turn comes before the value runs out. -/
theorem History.stands (hist : History wants mark ttl now books) {start : List (ι × T)}
    (h : Stands wants asking k v t (books start)) {later : List (ι × T)}
    (hlater : ∀ turn ∈ later, now turn.2 ≤ t) :
    Stands wants asking k v t (books (start ++ later)) := by
  induction later using List.reverseRec with
  | nil => rwa [List.append_nil]
  | append_singleton later turn ih =>
    rw [← List.append_assoc]
    have hbefore := ih (fun turn' hmem ↦ hlater turn' (List.mem_append_left _ hmem))
    exact hbefore.step (hlater turn (by simp)) (hist.step _ turn)

theorem Exclusive.stands (h : Exclusive wants books turns) (hk : wants i = some k)
    (hi : (books turns).phase i = .holding)
    (hasking : ∀ j, wants j = some k → asking j →
      (books turns).phase j = .idle ∨ (books turns).phase j = .refused) :
    Stands wants asking k v t ((books turns).put i (.settled v) k (some (v, t))) := by
  refine ⟨by simp, fun j hj ↦ ?_, fun j hj ha ↦ ?_⟩
  · rw [Book.put_phase]
    by_cases hji : j = i
    · subst hji
      simp
    · rw [Function.update_of_ne hji]
      exact fun hhold ↦ hji ((h i k hk hi).2 j hj hhold)
  · have hji : j ≠ i := by
      rintro rfl
      rcases hasking j hj ha with hp | hp
      all_goals
        rw [hi] at hp
        cases hp
    rw [Book.put_phase, Function.update_of_ne hji]
    rcases hasking j hj ha with hp | hp
    · exact .inl hp
    · exact .inr (.inl hp)

end Settled

end Leases
