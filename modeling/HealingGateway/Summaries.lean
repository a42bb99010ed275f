import HealingGateway.Health
import Mathlib.Algebra.Order.Field.Basic
import Mathlib.Tactic.Linarith

namespace HealingGateway.Health

open Numerals

abbrev Reading := Outcome × Decimal

namespace Reading

def counts (r : Reading) : Bool := r.1.isOk || r.1.trippable

def latency (r : Reading) : ℚ := r.2.toFloat

end Reading

def readingOf? (member : String) : Option Reading := (readMember member).toOption

/-- Every member can be read. -/
def Readable (members : List String) : Prop := ∀ m ∈ members, (readingOf? m).isSome

instance (members : List String) : Decidable (Readable members) :=
  inferInstanceAs (Decidable (∀ m ∈ members, _))

def readings (members : List String) : List Reading := members.filterMap readingOf?

/-- The names of the failures among some calls, callers' faults included. -/
def failures (rs : List Reading) : List String :=
  (rs.filter (fun r ↦ !r.1.isOk)).map (·.1.value)

/-- A snapshot says what these calls say. -/
structure Summarises (provider : String) (rs : List Reading) (snap : HealthSnapshot) : Prop where
  provider : snap.provider = provider
  samples : snap.samples = rs.length
  successes : snap.successes = rs.countP (·.1.isOk)
  trippableErrors : snap.trippableErrors = rs.countP (·.1.trippable)
  healthSamples : snap.healthSamples = (rs.filter Reading.counts).length
  successRate : snap.successRate =
    if snap.healthSamples = 0 then 1 else (snap.successes : ℚ) / snap.healthSamples
  trippableErrorRate : snap.trippableErrorRate =
    if snap.healthSamples = 0 then 0 else (snap.trippableErrors : ℚ) / snap.healthSamples
  errorsByType : ∀ name, snap.errorsByType.lookup name =
    if name ∈ failures rs then some ((failures rs).count name) else none
  errors_sum : (snap.errorsByType.map Prod.snd).sum = (failures rs).length
  percentiles : (snap.p50Ms, snap.p95Ms, snap.p99Ms) =
    Health.percentiles Floats.binary64 ((rs.filter Reading.counts).map Reading.latency)

theorem percentiles_of_two (rnd : ℚ → ℚ) {latencies : List ℚ} (h : 2 ≤ latencies.length) :
    percentiles rnd latencies = (Quantiles.inclusiveCut rnd 100 50 latencies,
      Quantiles.inclusiveCut rnd 100 95 latencies, Quantiles.inclusiveCut rnd 100 99 latencies) := by
  match latencies with
  | _ :: _ :: _ => rfl

theorem percentiles_perm {latencies latencies' : List ℚ} (h : latencies.Perm latencies') (rnd : ℚ → ℚ) :
    percentiles rnd latencies = percentiles rnd latencies' := by
  match latencies with
  | [] => rw [List.nil_perm.mp h]
  | [l] => rw [List.singleton_perm.mp h]
  | _ :: _ :: _ =>
    have hlen := h.length_eq
    rw [percentiles_of_two rnd (by simp), percentiles_of_two rnd (by rw [← hlen]; simp)]
    simp only [Quantiles.inclusiveCut_perm h]

def Tally.countReading (t : Tally) (r : Reading) : Tally := t.count r.1 r.2

theorem readable_cons {m : String} {members : List String} :
    Readable (m :: members) ↔ (∃ r, readMember m = .ok r) ∧ Readable members := by
  simp only [Readable, List.forall_mem_cons, readingOf?]
  refine and_congr_left (fun _ ↦ ?_)
  cases readMember m with
  | ok r => exact iff_of_true rfl ⟨r, rfl⟩
  | error e => exact iff_of_false (by simp [Except.toOption]) (by simp)

theorem readings_cons {m : String} {r : Reading} (h : readMember m = .ok r)
    (members : List String) : readings (m :: members) = r :: readings members := by
  rw [readings, List.filterMap_cons, readingOf?, h]
  rfl

theorem length_readings {members : List String} (h : Readable members) :
    (readings members).length = members.length := by
  induction members with
  | nil => rfl
  | cons m members ih =>
    obtain ⟨⟨r, hr⟩, h⟩ := readable_cons.mp h
    rw [readings_cons hr, List.length_cons, List.length_cons, ih h]

theorem foldlM_tallyMember_readings {members : List String} (h : Readable members) (t : Tally) :
    members.foldlM tallyMember t = .ok ((readings members).foldl Tally.countReading t) := by
  induction members generalizing t with
  | nil => rfl
  | cons m members ih =>
    obtain ⟨⟨r, hr⟩, h⟩ := readable_cons.mp h
    simp only [readings_cons hr, List.foldl_cons, List.foldlM_cons, tallyMember, hr]
    exact ih h (t.countReading r)

section Loop

variable (rs : List Reading) (t : Tally)

theorem successes_countReading : (rs.foldl Tally.countReading t).successes =
    t.successes + rs.countP (·.1.isOk) := by
  induction rs generalizing t with
  | nil => rfl
  | cons r rs ih =>
    rw [List.foldl_cons, ih, List.countP_cons]
    by_cases h : r.1.isOk = true <;> simp [Tally.countReading, Tally.count, h]
    omega

theorem trippable_countReading : (rs.foldl Tally.countReading t).trippable =
    t.trippable + rs.countP (·.1.trippable) := by
  induction rs generalizing t with
  | nil => rfl
  | cons r rs ih =>
    rw [List.foldl_cons, ih, List.countP_cons]
    by_cases h : r.1.trippable = true <;> simp [Tally.countReading, Tally.count, h]
    omega

theorem latencies_countReading : (rs.foldl Tally.countReading t).latencies =
    t.latencies ++ (rs.filter Reading.counts).map Reading.latency := by
  induction rs generalizing t with
  | nil => simp
  | cons r rs ih =>
    rw [List.foldl_cons, ih]
    have hr : r.counts = (r.1.isOk || r.1.trippable) := rfl
    cases h : r.counts with
    | true => simp [Tally.countReading, Tally.count, ← hr, h, Reading.latency]
    | false => simp [Tally.countReading, Tally.count, ← hr, h]

theorem errors_countReading : (rs.foldl Tally.countReading t).errors =
    (failures rs).foldl (fun d name ↦ Dicts.bump name d) t.errors := by
  induction rs generalizing t with
  | nil => rfl
  | cons r rs ih =>
    rw [List.foldl_cons, ih]
    by_cases h : r.1.isOk = true
    · simp [failures, Tally.countReading, Tally.count, h]
    · simp [failures, Tally.countReading, Tally.count, h, Dicts.bump]

end Loop

theorem length_filter_counts (rs : List Reading) :
    (rs.filter Reading.counts).length =
      rs.countP (·.1.isOk) + rs.countP (·.1.trippable) := by
  induction rs with
  | nil => rfl
  | cons r rs ih =>
    have hr : r.counts = (r.1.isOk || r.1.trippable) := rfl
    rw [List.countP_cons, List.countP_cons, List.filter_cons, hr]
    by_cases hok : r.1.isOk = true
    · simp [hok, Outcome.trippable_of_isOk hok, ih]
      omega
    · by_cases ht : r.1.trippable = true <;> simp [hok, ht, ih]
      omega

theorem summarise_readings (provider : String) {members : List String} (h : Readable members) :
    ∃ snap, summarise provider members = .ok snap ∧
      Summarises provider (readings members) snap := by
  unfold summarise
  split
  · next hnil =>
    subst hnil
    exact ⟨_, rfl, rfl, rfl, rfl, rfl, rfl, rfl, rfl, fun _ ↦ rfl, rfl, rfl⟩
  · refine ⟨((readings members).foldl Tally.countReading {}).snapshot provider members.length,
      ?_, ?_⟩
    · simp only [foldlM_tallyMember_readings h]
      rfl
    · refine ⟨rfl, (length_readings h).symm, ?_, ?_, ?_, ?_, ?_, fun name ↦ ?_, ?_, ?_⟩
      all_goals simp only [Tally.snapshot, successes_countReading, trippable_countReading,
        errors_countReading, latencies_countReading, List.nil_append, Nat.zero_add,
        length_filter_counts]
      · exact Dicts.lookup_tally _ _
      · exact Dicts.sum_tally _

/-- A member that spells a fault of the caller. -/
def isFault (member : String) : Bool := (readingOf? member).any (·.1.callerFault)

/-- A snapshot adds up: its counts to its samples, its rates to one. -/
structure AddsUp (members : List String) (snap : HealthSnapshot) : Prop where
  samples : snap.samples = members.length
  partition : snap.samples = snap.successes + snap.trippableErrors + members.countP isFault
  errors : (snap.errorsByType.map Prod.snd).sum = snap.samples - snap.successes
  healthSamples : snap.healthSamples = snap.successes + snap.trippableErrors
  rates : 0 ≤ snap.successRate ∧ snap.successRate ≤ 1 ∧ 0 ≤ snap.trippableErrorRate ∧
    snap.trippableErrorRate ≤ 1
  total : 0 < snap.healthSamples → snap.successRate + snap.trippableErrorRate = 1
  quiet : snap.healthSamples = 0 → snap.successRate = 1 ∧ snap.trippableErrorRate = 0

/-- Two snapshots say the same about the provider. -/
structure SameHealth (snap snap' : HealthSnapshot) : Prop where
  healthSamples : snap'.healthSamples = snap.healthSamples
  successRate : snap'.successRate = snap.successRate
  trippableErrorRate : snap'.trippableErrorRate = snap.trippableErrorRate
  p50 : snap'.p50Ms = snap.p50Ms
  p95 : snap'.p95Ms = snap.p95Ms
  p99 : snap'.p99Ms = snap.p99Ms

section Laws

variable {provider : String} {rs rs' : List Reading} {snap snap' : HealthSnapshot}

theorem counts_eq_not_callerFault (r : Reading) : r.counts = !r.1.callerFault := by
  rw [Outcome.callerFault_eq, Reading.counts, Bool.not_and, Bool.not_not, Bool.not_not]

theorem countP_isFault {members : List String} :
    members.countP isFault = (readings members).countP (·.1.callerFault) := by
  induction members with
  | nil => rfl
  | cons m members ih =>
    rw [List.countP_cons, ih, isFault, readings, readings, List.filterMap_cons]
    cases readingOf? m with
    | none => simp
    | some r => simp [List.countP_cons]

theorem length_eq_counts_add (rs : List Reading) :
    rs.length = (rs.filter Reading.counts).length + rs.countP (·.1.callerFault) := by
  rw [List.length_eq_countP_add_countP Reading.counts, List.countP_eq_length_filter]
  refine congrArg _ (List.countP_congr (fun r _ ↦ ?_))
  simp [counts_eq_not_callerFault]

theorem length_failures (rs : List Reading) :
    (failures rs).length = rs.length - rs.countP (·.1.isOk) := by
  rw [failures, List.length_map, ← List.countP_eq_length_filter,
    List.length_eq_countP_add_countP (·.1.isOk)]
  simp

theorem Summarises.addsUp {members : List String} (hread : Readable members)
    (h : Summarises provider (readings members) snap) : AddsUp members snap := by
  have hhealth : snap.healthSamples = snap.successes + snap.trippableErrors := by
    rw [h.healthSamples, length_filter_counts, h.successes, h.trippableErrors]
  have hsum : (snap.healthSamples : ℚ) = snap.successes + snap.trippableErrors := by
    exact_mod_cast hhealth
  have hs : (0 : ℚ) ≤ snap.successes := Nat.cast_nonneg _
  have ht : (0 : ℚ) ≤ snap.trippableErrors := Nat.cast_nonneg _
  refine ⟨h.samples.trans (length_readings hread), ?_, ?_, hhealth, ?_, fun hpos ↦ ?_, fun hz ↦ ?_⟩
  · rw [countP_isFault, ← hhealth, h.samples, h.healthSamples]
    exact length_eq_counts_add _
  · rw [h.errors_sum, h.samples, h.successes, length_failures]
  · rw [h.successRate, h.trippableErrorRate, hsum]
    split
    · exact ⟨zero_le_one, le_rfl, le_rfl, zero_le_one⟩
    · exact ⟨div_nonneg hs (add_nonneg hs ht), div_le_one_of_le₀ (by linarith) (add_nonneg hs ht),
        div_nonneg ht (add_nonneg hs ht), div_le_one_of_le₀ (by linarith) (add_nonneg hs ht)⟩
  · have hne : (snap.healthSamples : ℚ) ≠ 0 := by exact_mod_cast hpos.ne'
    rw [h.successRate, h.trippableErrorRate, if_neg hpos.ne', if_neg hpos.ne', ← add_div, ← hsum,
      div_self hne]
  · rw [h.successRate, h.trippableErrorRate, if_pos hz, if_pos hz]
    exact ⟨rfl, rfl⟩

/-- Only the calls that count matter to what a snapshot says about the provider. -/
theorem Summarises.sameHealth (h : Summarises provider rs snap)
    (h' : Summarises provider rs' snap')
    (hp : (rs'.filter Reading.counts).Perm (rs.filter Reading.counts)) : SameHealth snap snap' := by
  have hsamples : snap'.healthSamples = snap.healthSamples := by
    rw [h'.healthSamples, h.healthSamples, hp.length_eq]
  have hok : ∀ rs : List Reading, rs.countP (·.1.isOk) =
      (rs.filter Reading.counts).countP (·.1.isOk) := by
    intro rs
    rw [List.countP_filter]
    exact List.countP_congr (fun r _ ↦ by simp +contextual [Reading.counts])
  have hsuccesses : snap'.successes = snap.successes := by
    rw [h'.successes, h.successes, hok rs', hok rs, hp.countP_eq]
  have htrippable : snap'.trippableErrors = snap.trippableErrors := by
    have hlen := length_filter_counts rs
    have hlen' := length_filter_counts rs'
    rw [← h.healthSamples, ← h.successes, ← h.trippableErrors] at hlen
    rw [← h'.healthSamples, ← h'.successes, ← h'.trippableErrors] at hlen'
    omega
  have hpercentiles : (snap'.p50Ms, snap'.p95Ms, snap'.p99Ms) = (snap.p50Ms, snap.p95Ms, snap.p99Ms) := by
    rw [h'.percentiles, h.percentiles, percentiles_perm (hp.map Reading.latency)]
  simp only [Prod.mk.injEq] at hpercentiles
  refine ⟨hsamples, ?_, ?_, hpercentiles.1, hpercentiles.2.1, hpercentiles.2.2⟩
  · rw [h'.successRate, h.successRate, hsamples, hsuccesses]
  · rw [h'.trippableErrorRate, h.trippableErrorRate, hsamples, htrippable]

theorem filter_counts_faults {faults : List String} (h : ∀ m ∈ faults, isFault m = true) :
    (readings faults).filter Reading.counts = [] := by
  refine List.filter_eq_nil_iff.mpr (fun r hr ↦ ?_)
  obtain ⟨m, hm, hmr⟩ := List.mem_filterMap.mp hr
  have hf := h m hm
  rw [isFault, hmr] at hf
  rw [counts_eq_not_callerFault]
  simpa using hf

theorem readable_of_isFault {faults : List String} (h : ∀ m ∈ faults, isFault m = true) :
    Readable faults := by
  intro m hm
  have hf := h m hm
  rw [isFault, Option.any_eq_true] at hf
  obtain ⟨r, hr, -⟩ := hf
  rw [hr]
  rfl

end Laws

/-- The summary of a window adds up, and says the same about the provider whatever the order
of the members is and whichever faults of callers come in or go. -/
theorem summary_laws (provider : String) {members : List String} (hread : Readable members) :
    ∃ snap, summarise provider members = .ok snap ∧ AddsUp members snap ∧
      ∀ members' faults faults', (∀ m ∈ faults ++ faults', isFault m = true) →
        (members' ++ faults').Perm (members ++ faults) →
        ∃ snap', summarise provider members' = .ok snap' ∧ SameHealth snap snap' := by
  obtain ⟨snap, hsnap, hsum⟩ := summarise_readings provider hread
  refine ⟨snap, hsnap, hsum.addsUp hread, fun members' faults faults' hfaults hperm ↦ ?_⟩
  rw [List.forall_mem_append] at hfaults
  have hread' : Readable members' := by
    intro m hm
    rcases List.mem_append.mp (hperm.subset (List.mem_append_left _ hm)) with hm | hm
    · exact hread m hm
    · exact readable_of_isFault hfaults.1 m hm
  obtain ⟨snap', hsnap', hsum'⟩ := summarise_readings provider hread'
  refine ⟨snap', hsnap', hsum.sameHealth hsum' ?_⟩
  have hcounts := (hperm.filterMap readingOf?).filter Reading.counts
  rw [List.filterMap_append, List.filterMap_append, List.filter_append, List.filter_append] at hcounts
  have hnil := filter_counts_faults hfaults.1
  have hnil' := filter_counts_faults hfaults.2
  rw [readings] at hnil hnil'
  rwa [hnil, hnil', List.append_nil, List.append_nil] at hcounts

/-- A success and a content filter. -/
theorem summary_laws_mixed :
    ∃ snap, summarise "groq" ["1000:0:ok:100.0", "1001:1:content_filter:5.0"] = .ok snap ∧
      snap.samples = 2 ∧ snap.successRate = 1 := by
  obtain ⟨snap, hsnap, hadds, -⟩ := summary_laws "groq"
    (show Readable ["1000:0:ok:100.0", "1001:1:content_filter:5.0"] by decide +kernel)
  refine ⟨snap, hsnap, hadds.samples, ?_⟩
  have h : (summarise "groq" ["1000:0:ok:100.0", "1001:1:content_filter:5.0"]).map
      (·.successRate) = .ok 1 := by decide +kernel
  rw [hsnap] at h
  exact Except.ok.inj h

end HealingGateway.Health
