import HealingGateway.HedgedWalk

namespace HealingGateway.Router

open Programs Programs.Prog Numerals JsonText

def Fact.entryOf? : Fact → Option (ℕ × ProviderCallLog)
  | asked i provider false reason => some (i, skipped provider reason)
  | answered i _ result => some (i, logged result)
  | _ => none

def entries (facts : List Fact) : List (ℕ × ProviderCallLog) := facts.filterMap Fact.entryOf?

def named (facts : List Fact) : List ℕ := (entries facts).map Prod.fst

def Fact.final? : Fact → Option ℕ
  | answered i _ result => if isFinal result then some i else none
  | _ => none

def servedAt (facts : List Fact) : Option ℕ := facts.findSome? Fact.final?

/-- The trail has exactly one entry for each rung, or, where a rung served, one for each rung
before it but a cancelled one. -/
structure Complete (ladder : List String) (facts : List Fact) (routed : RouteOutcome) : Prop where
  exhausted : routed.result = none → (named facts).Perm (List.range ladder.length)
  served : routed.result.isSome → ∀ i, servedAt facts = some i →
    ∀ k < i, k ∈ named facts ∨ ∃ provider, .cancelled k provider ∈ facts

/-- A race that left no rung behind before the one to serve or to walk on from: its first rung
is the ladder's first, and its second the ladder's second unless the first call served. -/
def Raced.Direct (i j : ℕ) : Raced → Prop
  | alone _ => i = 0
  | settled won result _ => i = 0 ∧ (won = false ∧ isFinal result = true ∨ j = 1)

def Fact.Direct : Fact → Prop
  | raced i j ended => ended.Direct i j
  | _ => True

section Lists

variable (i : ℕ) (provider : String) (facts : List Fact)

@[simp] theorem named_nil : named [] = [] := rfl

@[simp] theorem named_append (facts' : List Fact) :
    named (facts ++ facts') = named facts ++ named facts' := by
  simp [named, entries, List.filterMap_append]

@[simp] theorem named_scanned (admits : Bool) :
    named (.scanned i provider admits :: facts) = named facts := rfl

@[simp] theorem named_raced (j : ℕ) (raced : Raced) :
    named (.raced i j raced :: facts) = named facts := rfl

@[simp] theorem named_refused (reason : String) :
    named (.asked i provider false reason :: facts) = i :: named facts := rfl

@[simp] theorem named_admitted (reason : String) :
    named (.asked i provider true reason :: facts) = named facts := rfl

@[simp] theorem named_answered (result : ProviderResult) :
    named (.answered i provider result :: facts) = i :: named facts := rfl

@[simp] theorem named_cancelled : named (.cancelled i provider :: facts) = named facts := rfl

theorem trailOf_eq_entries : trailOf facts = (entries facts).map Prod.snd := by
  rw [entries, List.map_filterMap, trailOf]
  congr 1
  funext fact
  cases fact with
  | asked i provider admits reason => cases admits <;> rfl
  | _ => rfl

@[simp] theorem servedAt_asked (admits : Bool) (reason : String) :
    servedAt (.asked i provider admits reason :: facts) = servedAt facts := rfl

@[simp] theorem servedAt_raced (j : ℕ) (raced : Raced) :
    servedAt (.raced i j raced :: facts) = servedAt facts := rfl

theorem servedAt_final {result : ProviderResult} (h : isFinal result = true) :
    servedAt (.answered i provider result :: facts) = some i := by
  simp [servedAt, Fact.final?, h]

theorem servedAt_failed {result : ProviderResult} (h : isFinal result = false) :
    servedAt (.answered i provider result :: facts) = servedAt facts := by
  simp [servedAt, Fact.final?, h]

theorem servedAt_append {facts facts' : List Fact} (h : ∀ fact ∈ facts, fact.Failed) :
    servedAt (facts ++ facts') = servedAt facts' := by
  rw [servedAt, List.findSome?_append, List.findSome?_eq_none_iff.mpr]
  · rfl
  · intro fact hmem
    have hfailed := h fact hmem
    cases fact with
    | answered i provider result =>
      have hfail : isFinal result = false := hfailed
      simp [Fact.final?, hfail]
    | _ => rfl

end Lists

section Walked

variable {i : ℕ} {rest : List String} {facts : List Fact} {ended : Option ProviderResult}

theorem Walked.named_of_none (h : Walked i rest facts ended) (hended : ended = none) :
    named facts = List.range' i rest.length := by
  induction h with
  | out => rfl
  | refused _ _ ih => rw [named_refused, ih hended, List.length_cons, List.range'_succ]
  | served => cases hended
  | failed _ _ _ _ ih =>
    rw [named_admitted, named_answered, ih hended, List.length_cons, List.range'_succ]

theorem Walked.named_of_served (h : Walked i rest facts ended) (hended : ended.isSome) :
    ∃ p, servedAt facts = some p ∧ i ≤ p ∧ ∀ k, i ≤ k → k < p → k ∈ named facts := by
  induction h with
  | out => cases hended
  | @refused i provider rest facts ended reason h ih =>
    obtain ⟨p, hp, hle, hall⟩ := ih hended
    refine ⟨p, hp, by omega, fun k hik hkp ↦ ?_⟩
    rw [named_refused, List.mem_cons]
    rcases Nat.eq_or_lt_of_le hik with heq | hlt
    · exact .inl heq.symm
    · exact .inr (hall k hlt hkp)
  | @served i provider rest result reason _ hfinal =>
    refine ⟨i, ?_, le_rfl, fun k hik hki ↦ by omega⟩
    rw [servedAt_asked, servedAt_final _ _ _ hfinal]
  | @failed i provider rest facts ended result reason _ hfailed h ih =>
    obtain ⟨p, hp, hle, hall⟩ := ih hended
    refine ⟨p, ?_, by omega, fun k hik hkp ↦ ?_⟩
    · rw [servedAt_asked, servedAt_failed _ _ _ hfailed, hp]
    · rw [named_admitted, named_answered, List.mem_cons]
      rcases Nat.eq_or_lt_of_le hik with heq | hlt
      · exact .inl heq.symm
      · exact .inr (hall k hlt hkp)

theorem Walked.named_ge (h : Walked i rest facts ended) : ∀ k ∈ named facts, i ≤ k := by
  induction h with
  | out => simp
  | refused _ _ ih =>
    intro k hk
    rw [named_refused] at hk
    rcases List.mem_cons.mp hk with rfl | hk
    · exact le_rfl
    · exact Nat.le_of_succ_le (ih k hk)
  | served => simp
  | failed _ _ _ _ ih =>
    intro k hk
    rw [named_admitted, named_answered] at hk
    rcases List.mem_cons.mp hk with rfl | hk
    · exact le_rfl
    · exact Nat.le_of_succ_le (ih k hk)

theorem Walked.direct (h : Walked i rest facts ended) : ∀ fact ∈ facts, fact.Direct := by
  induction h with
  | out => simp
  | refused _ _ ih => exact List.forall_mem_cons.mpr ⟨trivial, ih⟩
  | served => simp [Fact.Direct]
  | failed _ _ _ _ ih =>
    exact List.forall_mem_cons.mpr ⟨trivial, List.forall_mem_cons.mpr ⟨trivial, ih⟩⟩

theorem Walked.not_cancelled (h : Walked i rest facts ended) :
    ∀ k provider, .cancelled k provider ∉ facts := by
  induction h with
  | out | served => simp
  | refused _ _ ih => simpa using ih
  | failed _ _ _ _ ih => simpa using ih

end Walked

theorem Scanned.silent {limit i : ℕ} {rungs : List String} {facts : List Fact}
    {admitted : List (ℕ × String)} (h : Scanned limit i rungs facts admitted) :
    named facts = [] ∧ (∀ fact ∈ facts, fact.Direct) ∧ ∀ k provider, .cancelled k provider ∉ facts := by
  induction h with
  | enough | out => simp
  | passed _ ih | picked _ ih =>
    exact ⟨ih.1, List.forall_mem_cons.mpr ⟨trivial, ih.2.1⟩, by simpa using ih.2.2⟩

section Landed

variable {i j n : ℕ} {first second : String} {facts : List Fact}

theorem forall_lt_pair (hij : i < j) : (∀ k < j + 1, k = i ∨ k = j) ↔ i = 0 ∧ j = 1 := by
  constructor
  · intro h
    have h0 := h 0 (by omega)
    have h1 := h 1 (by omega)
    omega
  · rintro ⟨rfl, rfl⟩ k hk
    omega

theorem forall_lt_single : (∀ k < i + 1, k = i) ↔ i = 0 := by
  constructor
  · intro h
    exact (h 0 (by omega)).symm
  · rintro rfl k hk
    omega

/-- A race that both calls lost names the rungs before the walk goes on exactly where it is
direct. -/
theorem Landed.direct_of_none (h : Landed i first j second facts none n) (hij : i < j) :
    (∀ fact ∈ facts, fact.Direct) ↔ ∀ k < n, k ∈ named facts := by
  cases h with
  | aloneFailed =>
    refine Iff.trans ?_ (forall_lt_single.symm.trans (forall₂_congr (fun k _ ↦ ?_)))
    · simp [Fact.Direct, Raced.Direct]
    · simp
  | primaryFailed _ _ hfailed =>
    refine Iff.trans ?_ ((forall_lt_pair hij).symm.trans (forall₂_congr (fun k _ ↦ ?_)))
    · simp [Fact.Direct, Raced.Direct, hfailed]
    · simp
  | hedgeFailed =>
    refine Iff.trans ?_ ((forall_lt_pair hij).symm.trans (forall₂_congr (fun k _ ↦ ?_)))
    · simp [Fact.Direct, Raced.Direct]
    · simp [or_comm]

theorem Landed.named_of_none (h : Landed i first j second facts none n) (hij : i < j) :
    (named facts).Nodup ∧ (∀ k ∈ named facts, k < n) ∧ 0 < n ∧ n ≤ j + 1 ∧
      ∀ k provider, .cancelled k provider ∉ facts := by
  have hne : i ≠ j := Nat.ne_of_lt hij
  cases h with
  | aloneFailed => exact ⟨by simp, by simp, by omega, by omega, by simp⟩
  | primaryFailed =>
    refine ⟨by simp [hne], fun k hk ↦ ?_, by omega, le_rfl, by simp⟩
    simp at hk
    omega
  | hedgeFailed =>
    refine ⟨by simp [hne.symm], fun k hk ↦ ?_, by omega, le_rfl, by simp⟩
    simp at hk
    omega

/-- A race that served names the rungs before the one that did, but for a cancelled one, exactly
where it is direct. -/
theorem Landed.direct_of_served {result : ProviderResult}
    (h : Landed i first j second facts (some result) n) (hij : i < j) :
    ∃ p, servedAt facts = some p ∧
      ((∀ fact ∈ facts, fact.Direct) ↔
        ∀ k < p, k ∈ named facts ∨ ∃ provider, .cancelled k provider ∈ facts) := by
  have hbelow : ∀ {P : ℕ → Prop}, (∀ k < i, ¬ P k) → ((∀ k < i, P k) ↔ i = 0) := by
    intro P hP
    constructor
    · intro hall
      by_contra hne
      exact hP 0 (by omega) (hall 0 (by omega))
    · rintro rfl k hk
      omega
  cases h with
  | alone _ _ hfinal =>
    refine ⟨i, by rw [servedAt_raced, servedAt_final _ _ _ hfinal], ?_⟩
    rw [hbelow]
    · simp [Fact.Direct, Raced.Direct]
    · intro k hk
      simp
      omega
  | @primary result loser _ _ _ hfinal =>
    refine ⟨i, by rw [servedAt_raced, servedAt_final _ _ _ hfinal], ?_⟩
    rw [hbelow]
    · cases loser <;> simp [Fact.Direct, Raced.Direct, loserFact, hfinal]
    · intro k hk
      cases loser
      all_goals
        simp [loserFact]
        omega
  | @hedge result loser _ _ _ hfinal =>
    refine ⟨j, by rw [servedAt_raced, servedAt_final _ _ _ hfinal], ?_⟩
    have hpair : i = 0 ∧ j = 1 ↔ ∀ k < j, k = j ∨ k = i := by
      rw [← forall_lt_pair hij]
      constructor
      · intro h k hk
        exact (h k (by omega)).symm
      · intro h k hk
        rcases Nat.lt_succ_iff_lt_or_eq.mp hk with hlt | heq
        · exact (h k hlt).symm
        · exact .inr heq
    refine Iff.trans ?_ (hpair.trans (forall₂_congr (fun k _ ↦ ?_)))
    · cases loser
      all_goals simp [Fact.Direct, Raced.Direct, loserFact]
    · cases loser
      all_goals simp [loserFact]

end Landed

section Routed

variable {ladder : List String} {hedged : Bool} {facts : List Fact} {routed : RouteOutcome}

/-- A walk from the position where the facts before it left off, none of which served. -/
theorem Walked.complete_iff {n : ℕ} {before : List Fact} {ended : Option ProviderResult}
    (h : Walked n (ladder.drop n) facts ended) (hle : n ≤ ladder.length)
    (hfailed : ∀ fact ∈ before, fact.Failed) (honce : (named before).Nodup)
    (hlt : ∀ k ∈ named before, k < n) (hcancelled : ∀ k provider, .cancelled k provider ∉ before)
    (trail : List ProviderCallLog) :
    Complete ladder (before ++ facts) ⟨ended, trail⟩ ↔ ∀ k < n, k ∈ named before := by
  have hnone : ∀ k, ¬ ∃ provider, .cancelled k provider ∈ before ++ facts := by
    rintro k ⟨provider, hmem⟩
    rcases List.mem_append.mp hmem with hmem | hmem
    · exact hcancelled k provider hmem
    · exact h.not_cancelled k provider hmem
  have hbefore : ∀ k < n, k ∈ named before ++ named facts → k ∈ named before := by
    intro k hk hmem
    rcases List.mem_append.mp hmem with hmem | hmem
    · exact hmem
    · have hge := h.named_ge k hmem
      omega
  constructor
  · intro hcomplete k hk
    cases ended with
    | none =>
      have hperm := hcomplete.exhausted rfl
      rw [named_append] at hperm
      exact hbefore k hk (hperm.mem_iff.mpr (List.mem_range.mpr (by omega)))
    | some result =>
      obtain ⟨p, hp, hge, -⟩ := h.named_of_served rfl
      rcases hcomplete.served rfl p ((servedAt_append hfailed).trans hp) k (by omega) with hmem | hmem
      · rw [named_append] at hmem
        exact hbefore k hk hmem
      · exact absurd hmem (hnone k)
  · intro hall
    refine ⟨fun hended ↦ ?_, fun hended p hp k hk ↦ .inl ?_⟩
    · rw [named_append, h.named_of_none hended, List.length_drop]
      refine (List.perm_ext_iff_of_nodup ?_ List.nodup_range).mpr (fun k ↦ ?_)
      · refine List.nodup_append'.mpr ⟨honce, List.nodup_range', fun k hk hk' ↦ ?_⟩
        have hlt := hlt k hk
        rw [List.mem_range'_1] at hk'
        omega
      · rw [List.mem_append, List.mem_range'_1, List.mem_range]
        constructor
        · rintro (hmem | hmem)
          · have hlt := hlt k hmem
            omega
          · omega
        · intro hk
          by_cases hkn : k < n
          · exact .inl (hall k hkn)
          · exact .inr (by omega)
    · obtain ⟨p', hp', -, hnamed⟩ := h.named_of_served hended
      rw [servedAt_append hfailed] at hp
      obtain rfl : p' = p := Option.some.inj (hp'.symm.trans hp)
      rw [named_append, List.mem_append]
      by_cases hkn : k < n
      · exact .inl (hall k hkn)
      · exact .inr (hnamed k (by omega) hk)

/-- The trail of a walk is complete exactly where its race, if there was one, was direct. -/
theorem Routed.complete_iff (h : Routed ladder hedged facts routed) :
    Complete ladder facts routed ↔ ∀ fact ∈ facts, fact.Direct := by
  cases h with
  | @plain facts result h =>
    have hcomplete : Complete ladder ([] ++ facts) ⟨result, trailOf facts⟩ ↔ ∀ k < 0, k ∈ named [] :=
      Walked.complete_iff (n := 0) h (by omega) (by simp) (by simp) (by simp) (by simp) _
    rw [List.nil_append] at hcomplete
    exact iff_of_true (hcomplete.mpr (fun k hk ↦ by omega)) h.direct
  | @few scan facts admitted result hscan _ h =>
    obtain ⟨hnamed, hdirect, hcancelled⟩ := hscan.silent
    refine iff_of_true ?_ (List.forall_mem_append.mpr ⟨hdirect, h.direct⟩)
    refine (Walked.complete_iff (n := 0) h (by omega) hscan.failed ?_ ?_ hcancelled _).mpr ?_
    · simp [hnamed]
    · simp [hnamed]
    · exact fun k hk ↦ by omega
  | @raced scan facts i j n first second result hscan hlanded =>
    obtain ⟨hnamed, hdirect, hcancelled⟩ := hscan.silent
    obtain ⟨hij, -⟩ := hscan.pair
    obtain ⟨p, hp, hiff⟩ := hlanded.direct_of_served hij
    have hservedAt : servedAt (scan ++ facts) = some p := (servedAt_append hscan.failed).trans hp
    rw [List.forall_mem_append, and_iff_right hdirect, hiff]
    constructor
    · intro hcomplete k hk
      simpa [hnamed, hcancelled] using hcomplete.served rfl p hservedAt k hk
    · intro hall
      refine ⟨fun h ↦ (by cases h), fun _ p' hp' k hk ↦ ?_⟩
      obtain rfl : p = p' := Option.some.inj (hservedAt.symm.trans hp')
      simpa [hnamed, hcancelled] using hall k hk
  | @resumed scan landed facts i j n first second result hscan hlanded h =>
    obtain ⟨hnamed, hdirect, hcancelled⟩ := hscan.silent
    obtain ⟨hij, -, hj, -⟩ := hscan.pair
    obtain ⟨honce, hlt, hpos, hle, hcancelled'⟩ := hlanded.named_of_none hij
    have hlen : j < ladder.length := (List.getElem?_eq_some_iff.mp hj).1
    have hbefore : named (scan ++ landed) = named landed := by
      rw [named_append, hnamed, List.nil_append]
    rw [Walked.complete_iff h (by omega), hbefore, ← hlanded.direct_of_none hij]
    · simp only [List.forall_mem_append]
      exact ⟨fun h' ↦ ⟨⟨hdirect, h'⟩, h.direct⟩, fun h' ↦ h'.1.2⟩
    · exact List.forall_mem_append.mpr ⟨hscan.failed, hlanded.failed_of_none⟩
    · rw [hbefore]
      exact honce
    · rw [hbefore]
      exact hlt
    · intro k provider hmem
      rcases List.mem_append.mp hmem with hmem | hmem
      · exact hcancelled k provider hmem
      · exact hcancelled' k provider hmem

end Routed

section Placed

def Placed (ladder : List String) (facts : List Fact) : Prop :=
  ∀ e ∈ entries facts, ladder[e.1]? = some e.2.provider

variable {ladder : List String} {facts facts' : List Fact}

theorem Placed.append (h : Placed ladder facts) (h' : Placed ladder facts') :
    Placed ladder (facts ++ facts') := by
  intro e he
  rw [entries, List.filterMap_append] at he
  rcases List.mem_append.mp he with he | he
  · exact h e he
  · exact h' e he

theorem Placed.cons {fact : Fact} (h : Placed ladder facts)
    (hfact : ∀ e, fact.entryOf? = some e → ladder[e.1]? = some e.2.provider) :
    Placed ladder (fact :: facts) := by
  intro e he
  obtain ⟨fact', hmem, hentry⟩ := List.mem_filterMap.mp he
  rcases List.mem_cons.mp hmem with rfl | hmem
  · exact hfact e hentry
  · exact h e (List.mem_filterMap.mpr ⟨fact', hmem, hentry⟩)

theorem placed_nil : Placed ladder [] := fun e he ↦ by cases he

theorem Placed.answered {i : ℕ} {provider : String} {result : ProviderResult}
    (h : Placed ladder facts) (hget : ladder[i]? = some provider)
    (hprovider : result.provider = provider) :
    Placed ladder (.answered i provider result :: facts) := by
  refine h.cons (fun e he ↦ ?_)
  obtain rfl := Option.some.inj he
  exact hget.trans (congrArg some hprovider.symm)

theorem Placed.loserFact {i : ℕ} {provider : String} {loser : Option ProviderResult}
    (h : Placed ladder facts) (hget : ladder[i]? = some provider)
    (hloser : ∀ l ∈ loser, l.provider = provider) :
    Placed ladder (Router.loserFact i provider loser :: facts) := by
  cases loser with
  | none => exact h.cons (fun e he ↦ by cases he)
  | some l => exact h.answered hget (hloser l rfl)

theorem Walked.placed {i : ℕ} {rest : List String} {ended : Option ProviderResult}
    (h : Walked i rest facts ended) (hrest : rest = ladder.drop i) : Placed ladder facts := by
  have hhead : ∀ {i : ℕ} {provider : String} {rest : List String},
      provider :: rest = ladder.drop i → ladder[i]? = some provider ∧ rest = ladder.drop (i + 1) := by
    intro i provider rest hdrop
    constructor
    · rw [← List.head?_drop, ← hdrop, List.head?_cons]
    · rw [← List.tail_drop, ← hdrop, List.tail_cons]
  induction h with
  | out => exact placed_nil
  | refused _ _ ih =>
    obtain ⟨hget, htail⟩ := hhead hrest
    refine (ih htail).cons (fun e he ↦ ?_)
    obtain rfl := Option.some.inj he
    exact hget
  | served _ hprovider =>
    obtain ⟨hget, -⟩ := hhead hrest
    exact (placed_nil.answered hget hprovider).cons (fun e he ↦ by cases he)
  | failed _ hprovider _ _ ih =>
    obtain ⟨hget, htail⟩ := hhead hrest
    exact ((ih htail).answered hget hprovider).cons (fun e he ↦ by cases he)

theorem Scanned.placed {limit i : ℕ} {rungs : List String} {admitted : List (ℕ × String)}
    (h : Scanned limit i rungs facts admitted) : Placed ladder facts := by
  induction h with
  | enough | out => exact placed_nil
  | passed _ ih | picked _ ih => exact ih.cons (fun e he ↦ by cases he)

theorem Landed.placed {i j n : ℕ} {first second : String} {ended : Option ProviderResult}
    (h : Landed i first j second facts ended n) (hi : ladder[i]? = some first)
    (hj : ladder[j]? = some second) : Placed ladder facts := by
  cases h with
  | alone hprovider | aloneFailed hprovider =>
    exact (placed_nil.answered hi hprovider).cons (fun e he ↦ by cases he)
  | primary hprovider hloser =>
    exact ((placed_nil.loserFact hj hloser).answered hi hprovider).cons (fun e he ↦ by cases he)
  | hedge hprovider hloser =>
    exact ((placed_nil.loserFact hi hloser).answered hj hprovider).cons (fun e he ↦ by cases he)
  | primaryFailed hprovider hloser =>
    exact ((placed_nil.answered hj hloser).answered hi hprovider).cons (fun e he ↦ by cases he)
  | hedgeFailed hprovider hloser =>
    exact ((placed_nil.answered hi hloser).answered hj hprovider).cons (fun e he ↦ by cases he)

theorem Routed.placed {hedged : Bool} {routed : RouteOutcome} (h : Routed ladder hedged facts routed) :
    Placed ladder facts := by
  cases h with
  | plain h => exact h.placed rfl
  | few hscan _ h => exact hscan.placed.append (h.placed rfl)
  | raced hscan hlanded =>
    obtain ⟨-, hi, hj, -⟩ := hscan.pair
    exact hscan.placed.append (hlanded.placed hi hj)
  | resumed hscan hlanded h =>
    obtain ⟨-, hi, hj, -⟩ := hscan.pair
    exact (hscan.placed.append (hlanded.placed hi hj)).append (h.placed rfl)

end Placed

section Runs

variable {env : Environ} {config : GatewayConfig} {metadata : RequestMetadata}
  {payload : List (String × Json)} {ladder : List String} {schedule : RaceSchedule} {c : ClassConfig}
  {σ : Type} {h : Handler Cmd Reply σ} {s : σ}

/-- The entries of a trail are about the rungs at their positions, and they leave no rung out
exactly where the walk's race, if there was one, was direct. -/
theorem trail_complete_iff_direct (hclass : config.classes.lookup metadata.requestClass = some c)
    {routed : RouteOutcome} {s' : σ}
    (hrun : (route env config metadata payload ladder schedule).run h s = (.ok routed, s')) :
    let facts := journal env config metadata payload ladder schedule c h s
    routed.attempts = (entries facts).map Prod.snd ∧ Placed ladder facts ∧
      (Complete ladder facts routed ↔ ∀ fact ∈ facts, fact.Direct) := by
  have hrouted := routed_run hclass hrun
  refine ⟨?_, hrouted.placed, hrouted.complete_iff⟩
  rw [hrouted.attempts, trailOf_eq_entries]

end Runs

section Worlds

theorem trail_complete_iff_direct_timingOut :
    ∃ routed, routed.attempts.length = 3 ∧
      (Complete classifyClass.ladder (journal (fun _ ↦ none) .shipped classify []
        classifyClass.ladder ⟨0, [], 0⟩ classifyClass timingOut (fun _ ↦ none)) routed ↔
      ∀ fact ∈ journal (fun _ ↦ none) .shipped classify [] classifyClass.ladder ⟨0, [], 0⟩
        classifyClass timingOut (fun _ ↦ none), fact.Direct) := by
  have hended : (((route (fun _ ↦ none) .shipped classify [] classifyClass.ladder ⟨0, [], 0⟩).run timingOut
      (fun _ ↦ none)).1.toOption.map (fun routed ↦ routed.attempts.length)) = some 3 := by
    decide +kernel
  obtain ⟨routed, s', hrun, hlength⟩ := exists_run_of_map timingOut hended
  exact ⟨routed, hlength, (trail_complete_iff_direct rfl hrun).2.2⟩

/-- The first rung's circuit has just opened. -/
def groqOpen : Redis.Db :=
  Function.update (fun _ ↦ none) (Breaker.key "groq")
    (some ⟨.hash (Breaker.fields .opened (some 0) ⟨300, 0⟩), none⟩)

/-- The two rungs that race are named, and the one refused before them is not. -/
theorem groqOpen_not_complete :
    ∃ routed s', (route (fun _ ↦ none) .shipped classify [] classifyClass.ladder ⟨0, [], 0⟩).run timingOut
        groqOpen = (.ok routed, s') ∧ routed.result.isNone ∧
      routed.attempts.map ProviderCallLog.provider = ["anthropic", "ollama"] ∧
      ¬ Complete classifyClass.ladder (journal (fun _ ↦ none) .shipped classify [] classifyClass.ladder
        ⟨0, [], 0⟩ classifyClass timingOut groqOpen) routed := by
  have hended : (((route (fun _ ↦ none) .shipped classify [] classifyClass.ladder ⟨0, [], 0⟩).run timingOut
      groqOpen).1.toOption.map (fun routed ↦
        (routed.result.isNone, routed.attempts.map ProviderCallLog.provider))) =
      some (true, ["anthropic", "ollama"]) := by
    decide +kernel
  have hnamed : named (journal (fun _ ↦ none) .shipped classify [] classifyClass.ladder ⟨0, [], 0⟩
      classifyClass timingOut groqOpen) = [1, 2] := by
    decide +kernel
  obtain ⟨routed, s', hrun, hrouted⟩ := exists_run_of_map timingOut hended
  obtain ⟨hnone, hattempts⟩ := Prod.ext_iff.mp hrouted
  refine ⟨routed, s', hrun, hnone, hattempts, fun hcomplete ↦ ?_⟩
  have hperm := hcomplete.exhausted (Option.isNone_iff_eq_none.mp hnone)
  rw [hnamed] at hperm
  have hlength := hperm.length_eq
  simp [classifyClass] at hlength

end Worlds

end HealingGateway.Router
