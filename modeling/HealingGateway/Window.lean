import HealingGateway.Summaries

namespace HealingGateway.Health

open SortedSets Numerals

/-- One recorded call. -/
structure Sample where
  recordedAt : ℤ
  uuid : Uuid
  outcome : Outcome
  latencyMs : ℚ

namespace Sample

def text (s : Sample) : String := memberText s.recordedAt s.uuid.token s.outcome s.latencyMs

def item (s : Sample) : ℤ ×ₗ String := toLex (s.recordedAt, s.text)

def counts (s : Sample) : Bool := s.outcome.isOk || s.outcome.trippable

def latency (s : Sample) : ℚ := (roundTenth s.latencyMs).toRat

end Sample

/-- The calls of a log that the window at `now` covers and that count. -/
def evidence (window now : ℤ) (calls : List Sample) : List Sample :=
  calls.filter (fun s ↦ decide (now - window < s.recordedAt ∧ s.recordedAt ≤ now) && s.counts)

def trippableRate (ev : List Sample) : ℚ := ev.countP (·.outcome.trippable) / ev.length

/-- The p95 of some calls, by an arithmetic that rounds. -/
def p95 (rnd : ℚ → ℚ) (ev : List Sample) : ℚ := (percentiles rnd (ev.map (fun s ↦ rnd s.latency))).2.1

theorem notMem_intString (n : ℤ) : ':' ∉ (intString n).toList := by
  simpa [intString] using notMem_intText (by decide) (by decide) n

theorem notMem_token (u : Uuid) : ':' ∉ u.token.toList := by
  intro h
  simp only [Uuid.token, String.toList_ofList] at h
  rcases u.digit _ (List.mem_of_mem_take h) with hd | ⟨hd, _⟩ <;> revert hd <;> decide

theorem notMem_outcome (o : Outcome) : ':' ∉ o.value.toList := by
  cases o <;> decide

theorem split_memberText (now : ℤ) (u : Uuid) (o : Outcome) (latencyMs : ℚ) :
    Texts.split ':' 3 (memberText now u.token o latencyMs) =
      [intString now, u.token, o.value, decimalString (roundTenth latencyMs)] := by
  have htext : (memberText now u.token o latencyMs).toList =
      (intString now).toList ++ ':' :: (u.token.toList ++ ':' :: (o.value.toList ++
        ':' :: (decimalString (roundTenth latencyMs)).toList)) := by
    simp [memberText]
  rw [Texts.split, htext, Texts.splitAt_sep (notMem_intString now),
    Texts.splitAt_sep (notMem_token u), Texts.splitAt_sep (notMem_outcome o), Texts.splitAt_zero]
  simp only [List.map_cons, List.map_nil, String.ofList_toList]

theorem readMember_text (s : Sample) :
    readMember s.text = .ok (s.outcome, roundTenth s.latencyMs) := by
  simp only [readMember, Sample.text, split_memberText, Outcome.ofValue?_value,
    parseDecimal_decimalString]

theorem token_eq_of_text_eq {s s' : Sample} (h : s.text = s'.text) :
    s.uuid.token = s'.uuid.token := by
  have hs := congrArg (Texts.split ':' 3) h
  simp only [Sample.text, split_memberText, List.cons.injEq] at hs
  exact hs.2.1

/-- What a call's member spells. -/
def Sample.reading (s : Sample) : Reading := (s.outcome, roundTenth s.latencyMs)

theorem readingOf?_text (s : Sample) : readingOf? s.text = some s.reading := by
  rw [readingOf?, readMember_text]
  rfl

theorem readable_texts (calls : List Sample) : Readable (calls.map Sample.text) := by
  intro m hm
  obtain ⟨s, -, rfl⟩ := List.mem_map.mp hm
  rw [readingOf?_text]
  rfl

theorem readings_texts (calls : List Sample) :
    readings (calls.map Sample.text) = calls.map Sample.reading := by
  induction calls with
  | nil => rfl
  | cons s calls ih => rw [List.map_cons, readings_cons (readMember_text s), ih, List.map_cons]; rfl

theorem filter_readings (calls : List Sample) :
    (calls.map Sample.reading).filter Reading.counts =
      (calls.filter Sample.counts).map Sample.reading := by
  rw [List.filter_map]
  rfl

theorem countP_trippable_filter (calls : List Sample) :
    (calls.filter Sample.counts).countP (·.outcome.trippable) =
      calls.countP (·.outcome.trippable) := by
  rw [List.countP_filter]
  refine List.countP_congr (fun s _ ↦ ?_)
  simp only [Sample.counts, Bool.and_eq_true, Bool.or_eq_true]
  exact ⟨fun h ↦ h.1, fun h ↦ ⟨h, .inr h⟩⟩

/-- What `summarise` finds in the members of some calls, as far as the breaker reads it. -/
theorem summarise_texts (provider : String) (calls : List Sample) :
    ∃ snap, summarise provider (calls.map Sample.text) = .ok snap ∧
      snap.healthSamples = (calls.filter Sample.counts).length ∧
      snap.trippableErrorRate = trippableRate (calls.filter Sample.counts) ∧
      snap.p95Ms = p95 Floats.binary64 (calls.filter Sample.counts) := by
  obtain ⟨snap, hsnap, hsum⟩ := summarise_readings provider (readable_texts calls)
  rw [readings_texts] at hsum
  have hsamples : snap.healthSamples = (calls.filter Sample.counts).length := by
    rw [hsum.healthSamples, filter_readings, List.length_map]
  have htrippable : snap.trippableErrors = calls.countP (·.outcome.trippable) := by
    rw [hsum.trippableErrors, List.countP_map]
    rfl
  refine ⟨snap, hsnap, hsamples, ?_, ?_⟩
  · rw [hsum.trippableErrorRate, trippableRate, countP_trippable_filter, htrippable, hsamples]
    split
    · next h => simp [h]
    · rfl
  · have hpercentiles := hsum.percentiles
    rw [filter_readings, List.map_map] at hpercentiles
    exact congrArg (·.2.1) hpercentiles

theorem trippableRate_perm {ev ev' : List Sample} (h : ev.Perm ev') :
    trippableRate ev = trippableRate ev' := by
  rw [trippableRate, trippableRate, h.countP_eq, h.length_eq]

theorem p95_perm {ev ev' : List Sample} (h : ev.Perm ev') (rnd : ℚ → ℚ) : p95 rnd ev = p95 rnd ev' := by
  rw [p95, p95, percentiles_perm (h.map _)]

end HealingGateway.Health
