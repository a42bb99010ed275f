import HealingGateway.KeyIsolation

namespace HealingGateway.Main

open Programs Programs.Prog JsonText Leases Idempotency Router

theorem replay_envelope (status : ℤ) (body : Json) :
    replay (orInFlight (some (envelope status body))) = .ok { status, body, replayed := true } := by
  rw [orInFlight_envelope, replay, if_neg (envelope_ne_inFlight status body), envelope, loads_dumps]
  rfl

def nextCommand : Gateway Response → Option Cmd
  | .call _ c _ => some c
  | _ => none

section Ownership

variable {ι : Type} [DecidableEq ι] (env : Environ) (config : GatewayConfig) (unkeyed : Unkeyed)
  (arrivals : ι → Arrival)

def Ended (turns : List (ι × Outside)) (i : ι) (ended : Except Exn Response) : Prop :=
  (requestsAfter env config unkeyed arrivals turns).rest i = ofExcept ended

def phaseOf (turns : List (ι × Outside)) (i : ι) : Phase String :=
  (booksAfter env config unkeyed arrivals turns).phase i

/-- At most one success for each key, until what was stored for it runs out. -/
structure AtMostOnce (turns : List (ι × Outside)) : Prop where
  /-- One request at a time works under a key. -/
  single : ∀ mid, mid <+: turns → ∀ i j l, wants arrivals i = some l → wants arrivals j = some l →
    phaseOf env config unkeyed arrivals mid i = .holding →
    phaseOf env config unkeyed arrivals mid j = .holding → j = i
  /-- The others do nothing but ask for it. -/
  waiting : ∀ mid, mid <+: turns → ∀ i l, wants arrivals i = some l →
    phaseOf env config unkeyed arrivals mid i ≠ .holding →
    ∀ c ∈ nextCommand ((requestsAfter env config unkeyed arrivals mid).rest i), slotKey l ∈ c.keys
  /-- Once one has succeeded nobody works under the key, and all are told what it answered. -/
  stored : ∀ before i x l response, before ++ [(i, x)] <+: turns → wants arrivals i = some l →
    phaseOf env config unkeyed arrivals before i = .holding →
    Ended env config unkeyed arrivals (before ++ [(i, x)]) i (.ok response) →
    response.status < 400 → ∀ later, before ++ [(i, x)] ++ later <+: turns →
      (∀ turn ∈ later, turn.2.now ≤ x.now + config.queue.idempotencyTtlS * 1000) →
      ∀ j, wants arrivals j = some l →
        phaseOf env config unkeyed arrivals (before ++ [(i, x)] ++ later) j ≠ .holding ∧
        (phaseOf env config unkeyed arrivals before j = .idle ∨
            phaseOf env config unkeyed arrivals before j = .refused →
          ∀ ended, Ended env config unkeyed arrivals (before ++ [(i, x)] ++ later) j ended →
            ended = .ok { response with replayed := true })
  /-- A request that was refused has changed no key. -/
  refused : ∀ before j x, before ++ [(j, x)] <+: turns →
    (phaseOf env config unkeyed arrivals (before ++ [(j, x)]) j = .refused ∨
      ∃ found, phaseOf env config unkeyed arrivals (before ++ [(j, x)]) j = .told found) →
    (booksAfter env config unkeyed arrivals (before ++ [(j, x)])).slots =
      (booksAfter env config unkeyed arrivals before).slots
  /-- After a failure the key is free again. -/
  freed : ∀ before i x l ended, before ++ [(i, x)] <+: turns → wants arrivals i = some l →
    phaseOf env config unkeyed arrivals before i = .holding →
    Ended env config unkeyed arrivals (before ++ [(i, x)]) i ended →
    (∀ response, ended = .ok response → 400 ≤ response.status) →
    (booksAfter env config unkeyed arrivals (before ++ [(i, x)])).slots l = none

/-- What a request stores or releases is its own claim. -/
def WritesBackOwn (turns : List (ι × Outside)) : Prop :=
  ∀ before i x l, before ++ [(i, x)] <+: turns → wants arrivals i = some l →
    phaseOf env config unkeyed arrivals before i = .holding →
    phaseOf env config unkeyed arrivals (before ++ [(i, x)]) i ≠ .holding →
    LeftBy (wants arrivals) (booksAfter env config unkeyed arrivals) before l i

variable {env config unkeyed arrivals} {turns : List (ι × Outside)} {i : ι} {l : String}

theorem Ended.ends {ended : Except Exn Response}
    (h : Ended env config unkeyed arrivals turns i ended) :
    Ends config.queue.idempotencyTtlS ((requestsAfter env config unkeyed arrivals turns).view i)
      ended := by
  have horderly : Orderly config arrivals (requestsAfter env config unkeyed arrivals turns) :=
    orderly_requestsAfter turns
  have hobeys := horderly.obedient i
  rw [h, obeys_ofExcept] at hobeys
  exact hobeys

theorem Ended.cases (httl : 0 < config.queue.idempotencyTtlS) (hi : wants arrivals i = some l)
    {ended : Except Exn Response} (h : Ended env config unkeyed arrivals turns i ended) :
    (∃ found, phaseOf env config unkeyed arrivals turns i = .told found ∧
        ended = replay (orInFlight found)) ∨
      (∃ status body, phaseOf env config unkeyed arrivals turns i =
        .settled (envelope status body) ∧ status < 400 ∧ ended = .ok { status, body }) ∨
      phaseOf env config unkeyed arrivals turns i = .freed ∧
        ∀ response, ended = .ok response → 400 ≤ response.status := by
  have horderly : Orderly config arrivals (requestsAfter env config unkeyed arrivals turns) :=
    orderly_requestsAfter turns
  have hslot := (horderly.slot i).trans hi
  have hends := h.ends
  have hphase : ((requestsAfter env config unkeyed arrivals turns).view i).phase =
      phaseOf env config unkeyed arrivals turns i := rfl
  generalize phaseOf env config unkeyed arrivals turns i = phase at hphase
  generalize (requestsAfter env config unkeyed arrivals turns).view i = v at hslot hends hphase
  obtain ⟨slot, phase'⟩ := v
  simp only at hslot hphase
  subst hslot hphase
  cases phase' with
  | told found => exact .inl ⟨found, rfl, hends⟩
  | settled text =>
    obtain ⟨status, body, hstatus, rfl, rfl⟩ := hends
    exact .inr (.inl ⟨status, body, rfl, hstatus, rfl⟩)
  | freed => exact .inr (.inr ⟨rfl, hends⟩)
  | idle | refused | holding => exact absurd hends.1 (not_le.mpr httl)

theorem Ended.of_holding (httl : 0 < config.queue.idempotencyTtlS) (hi : wants arrivals i = some l)
    {x : Outside} (hhold : phaseOf env config unkeyed arrivals turns i = .holding)
    {ended : Except Exn Response}
    (h : Ended env config unkeyed arrivals (turns ++ [(i, x)]) i ended) :
    (∃ status body, status < 400 ∧ ended = .ok { status, body } ∧
        booksAfter env config unkeyed arrivals (turns ++ [(i, x)]) =
          (booksAfter env config unkeyed arrivals turns).put i (.settled (envelope status body)) l
            (some (envelope status body, x.now + config.queue.idempotencyTtlS * 1000))) ∨
      (∀ response, ended = .ok response → 400 ≤ response.status) ∧
        booksAfter env config unkeyed arrivals (turns ++ [(i, x)]) =
          (booksAfter env config unkeyed arrivals turns).put i .freed l none := by
  have hstep : Step (wants arrivals) inFlight (config.queue.idempotencyTtlS * 1000) x.now i
      (booksAfter env config unkeyed arrivals turns)
      (booksAfter env config unkeyed arrivals (turns ++ [(i, x)])) :=
    history_booksAfter.step turns (i, x)
  have hcases := h.cases httl hi
  rcases hstep.of_holding hi hhold with hb | ⟨v, hb⟩ | hb
  · rw [phaseOf, hb, ← phaseOf, hhold] at hcases
    rcases hcases with ⟨_, hp, -⟩ | ⟨_, _, hp, -⟩ | ⟨hp, -⟩
    all_goals cases hp
  · rw [phaseOf, hb, Book.put_phase, Function.update_self] at hcases
    rcases hcases with ⟨_, hp, -⟩ | ⟨status, body, hp, hstatus, rfl⟩ | ⟨hp, -⟩
    · cases hp
    · cases hp
      exact .inl ⟨status, body, hstatus, rfl, hb⟩
    · cases hp
  · rw [phaseOf, hb, Book.put_phase, Function.update_self] at hcases
    rcases hcases with ⟨_, hp, -⟩ | ⟨_, _, hp, -⟩ | ⟨-, hfail⟩
    · cases hp
    · cases hp
    · exact .inr ⟨hfail, hb⟩

theorem exclusive_upto (hlast : ClaimsLast (wants arrivals) Outside.now
    (booksAfter env config unkeyed arrivals) turns) {mid : List (ι × Outside)} (hmid : mid <+: turns) :
    Exclusive (wants arrivals) (booksAfter env config unkeyed arrivals) mid := by
  obtain ⟨later, rfl⟩ := hmid
  exact history_booksAfter.exclusive hlast.of_append

theorem waits (hi : wants arrivals i = some l)
    (hfree : phaseOf env config unkeyed arrivals turns i ≠ .holding) {c : Cmd}
    (hc : c ∈ nextCommand ((requestsAfter env config unkeyed arrivals turns).rest i)) :
    slotKey l ∈ c.keys := by
  have horderly : Orderly config arrivals (requestsAfter env config unkeyed arrivals turns) :=
    orderly_requestsAfter turns
  have hslot := (horderly.slot i).trans hi
  unfold nextCommand at hc
  split at hc
  · next g c' k hrest =>
    cases hc
    have hkeeps : Keeps config.queue.idempotencyTtlS
        ((requestsAfter env config unkeyed arrivals turns).view i) c := horderly.obedient.allowed hrest
    have hphase : ((requestsAfter env config unkeyed arrivals turns).view i).phase ≠ .holding := hfree
    generalize (requestsAfter env config unkeyed arrivals turns).view i = v at hslot hkeeps hphase
    cases hkeeps with
    | apart hv hc =>
      rcases hv with hv | hv
      · rw [hv] at hslot
        cases hslot
      · exact absurd hv hphase
    | claim l' =>
      cases hslot
      simp [Cmd.keys, Redis.Command.keys]
    | look l' =>
      cases hslot
      simp [Cmd.keys, Redis.Command.keys]
    | store | release => exact absurd rfl hphase
  · cases hc

/-- While no claim runs out under a working request, every key sees at most one success
until what was stored for it runs out. -/
theorem atMostOnce (httl : 0 < config.queue.idempotencyTtlS)
    (hlast : ClaimsLast (wants arrivals) Outside.now (booksAfter env config unkeyed arrivals) turns) :
    AtMostOnce env config unkeyed arrivals turns where
  single mid hmid i j l hi hj hholdi hholdj :=
    (exclusive_upto hlast hmid i l hi hholdi).2 j hj hholdj
  waiting mid _ i l hi hfree c hc := waits hi hfree hc
  stored := by
    intro before i x l response hpre hi hhold hended hstatus later _ hlater j hj
    have hexclusive := exclusive_upto hlast ((List.prefix_append _ _).trans hpre)
    rcases hended.of_holding httl hi hhold with ⟨status, body, -, hresponse, hb⟩ | ⟨hfail, -⟩
    · cases hresponse
      have hstands : Stands (wants arrivals)
          (fun j ↦ phaseOf env config unkeyed arrivals before j = .idle ∨
            phaseOf env config unkeyed arrivals before j = .refused) l (envelope status body)
          (x.now + config.queue.idempotencyTtlS * 1000)
          (booksAfter env config unkeyed arrivals (before ++ [(i, x)] ++ later)) := by
        apply history_booksAfter.stands _ hlater
        rw [hb]
        exact hexclusive.stands hi hhold (fun j _ hasks ↦ hasks)
      refine ⟨hstands.free j hj, fun hasks ended hj' ↦ ?_⟩
      have htold := hstands.told j hj hasks
      rcases hj'.cases httl hj with ⟨found, hp, rfl⟩ | ⟨_, _, hp, -⟩ | ⟨hp, -⟩
      · rw [phaseOf] at hp
        rw [hp] at htold
        rcases htold with h | h | h
        · cases h
        · cases h
        · cases h
          exact replay_envelope status body
      all_goals
        rw [phaseOf] at hp
        rw [hp] at htold
        rcases htold with h | h | h
        all_goals cases h
    · exact absurd (hfail response rfl) (not_le.mpr hstatus)
  refused before j x _ hj := (history_booksAfter.step before (j, x)).slots_of_refused hj
  freed := by
    intro before i x l ended _ hi hhold hended hfail
    rcases hended.of_holding httl hi hhold with ⟨status, body, hstatus, rfl, -⟩ | ⟨-, hb⟩
    · exact absurd (hfail _ rfl) (not_le.mpr hstatus)
    · rw [hb, Book.put_slots, Function.update_self]

/-- While no claim runs out under a working request, requests store and release their own
claims only. -/
theorem writesBackOwn (hlast : ClaimsLast (wants arrivals) Outside.now
    (booksAfter env config unkeyed arrivals) turns) :
    WritesBackOwn env config unkeyed arrivals turns := by
  intro before i x l hpre hi hhold _
  exact (exclusive_upto hlast ((List.prefix_append _ _).trans hpre) i l hi hhold).1

end Ownership

def repeated (_ : Bool) : Arrival := keyed "acme" "order"

def oneByOne (at' : ℤ) : List (Bool × Outside) :=
  List.replicate 5 (false, { now := 0 }) ++ List.replicate 2 (true, { now := at' })

theorem atMostOnce_oneByOne :
    AtMostOnce (fun _ ↦ none) .shipped unkeyed repeated (oneByOne 1) :=
  atMostOnce (by decide) (by decide +kernel)

theorem writesBackOwn_oneByOne :
    WritesBackOwn (fun _ ↦ none) .shipped unkeyed repeated (oneByOne 1) :=
  writesBackOwn (by decide +kernel)

def succeeded (p : Requests Bool) (i : Bool) : Bool :=
  match p.rest i with
  | .done response => response.status < 400
  | _ => false

/-- A day after the first request has succeeded its answer is gone, and the second one is
served anew. -/
theorem dayLater_served_again :
    ClaimsLast (wants repeated) Outside.now (booksAfter (fun _ ↦ none) .shipped unkeyed repeated)
        ((oneByOne 86400001).take 6) ∧
      succeeded (requestsAfter (fun _ ↦ none) .shipped unkeyed repeated
        ((oneByOne 86400001).take 5)) false = true ∧
      phaseOf (fun _ ↦ none) .shipped unkeyed repeated ((oneByOne 86400001).take 6) true =
        .holding := by
  refine ⟨by decide +kernel, by decide +kernel, by decide +kernel⟩

def overtaken : List (Bool × Outside) :=
  [(false, { now := 0 }), (true, { now := 86400001 })] ++
    List.replicate 3 (false, { now := 86400002 })

/-- The first request then writes its answer over the second one's claim. -/
theorem overtaken_not_writesBackOwn :
    LeftBy (wants repeated) (booksAfter (fun _ ↦ none) .shipped unkeyed repeated) overtaken
        "acme:order" true ∧
      ¬ WritesBackOwn (fun _ ↦ none) .shipped unkeyed repeated
        (overtaken ++ [(false, { now := 86400002 })]) := by
  have hslots : ∀ n < 4, (booksAfter (fun _ ↦ none) .shipped unkeyed repeated
        (overtaken.take (n + 2))).slots "acme:order" =
      (booksAfter (fun _ ↦ none) .shipped unkeyed repeated overtaken).slots "acme:order" := by
    decide +kernel
  have hholds : ∀ n < 5,
      phaseOf (fun _ ↦ none) .shipped unkeyed repeated (overtaken.take (n + 1)) false = .holding := by
    decide +kernel
  constructor
  · refine ⟨by decide, [(false, { now := 0 })], { now := 86400001 }, ⟨_, rfl⟩,
      .inl ⟨by decide +kernel, by decide +kernel⟩, fun mid hmid hmid' ↦ ?_⟩
    have hlow : 2 ≤ mid.length := hmid.length_le
    have hhigh : mid.length ≤ 5 := hmid'.length_le
    obtain ⟨n, hn⟩ := Nat.exists_eq_add_of_le' hlow
    rw [List.prefix_iff_eq_take.mp hmid', hn]
    exact hslots n (by omega)
  · intro h
    have hleft := h overtaken false { now := 86400002 } "acme:order" List.prefix_rfl (by decide)
      (by decide +kernel) (by decide +kernel)
    obtain ⟨-, earlier, y, hpre, hwrites, hsame⟩ := hleft
    have htake : earlier ++ [(false, y)] = overtaken.take (earlier.length + 1) := by
      simpa using List.prefix_iff_eq_take.mp hpre
    have hlength : (earlier ++ [(false, y)]).length ≤ 5 := hpre.length_le
    rw [List.length_append, List.length_singleton] at hlength
    rcases hwrites with ⟨hidle, -⟩ | ⟨-, v, hsettled⟩
    · cases hn : earlier.length with
      | zero =>
        have hfirst := hsame _ List.prefix_rfl hpre
        rw [htake, hn] at hfirst
        revert hfirst
        decide +kernel
      | succ n =>
        have hearlier : earlier = overtaken.take (n + 1) := by
          rw [← hn]
          exact List.prefix_iff_eq_take.mp ((List.prefix_append _ _).trans hpre)
        have hhold := hholds n (by omega)
        rw [← hearlier] at hhold
        cases hhold.symm.trans hidle
    · have hhold := hholds earlier.length (by omega)
      rw [← htake] at hhold
      cases hhold.symm.trans hsettled

end HealingGateway.Main
