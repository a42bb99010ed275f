import HealingGateway.Library.Histories
import HealingGateway.Trip

namespace HealingGateway.Breaker

open Health Redis

def Op.silence : Op → Op
  | .observe o o' outcome latencyMs =>
    if outcome.callerFault then .read o' else .observe o o' outcome latencyMs
  | op => op

def withoutCallerFaults (history : List Op) : List Op := history.map Op.silence

variable (config : GatewayConfig) (provider : String)

/-- Removing the callers' faults changes no report, at any point of the history and at any
instant from then on, and no fault of a caller opens a closed circuit. -/
structure Inert (history : List Op) : Prop where
  agrees : ∀ before after, history = before ++ after →
    ∀ o : Outside, (∀ u ∈ before.flatMap Op.times, u ≤ o.now) →
      reported config provider o (run config provider before).db =
        reported config provider o (run config provider (withoutCallerFaults before)).db
  keeps : ∀ before o o' outcome latencyMs after,
    history = before ++ .observe o o' outcome latencyMs :: after → outcome.callerFault = true →
    reported config provider o' (run config provider before).db = .ok .closed →
    persisted config provider o'
      (run config provider (before ++ [.observe o o' outcome latencyMs])).db ≠ .ok .opened

/-- Whenever a caller's fault is recorded on a closed circuit, the window as it stood before
was not due to open the circuit at that instant. -/
def NeverDue (budgetMs : Numerals.Decimal) (history : List Op) : Prop :=
  ∀ before o o' outcome latencyMs after,
    history = before ++ .observe o o' outcome latencyMs :: after → outcome.callerFault = true →
    reported config provider o' (run config provider before).db = .ok .closed →
    dueAt config provider budgetMs o' (run config provider before).db = false

def Similar (m m' : Monitor) : Prop :=
  m.circuit = m'.circuit ∧ m.calls.filter Sample.counts = m'.calls.filter Sample.counts

theorem evidence_eq (window now : ℤ) (calls : List Sample) :
    evidence window now calls = (calls.filter Sample.counts).filter
      (fun s ↦ decide (now - window < s.recordedAt ∧ s.recordedAt ≤ now)) := by
  rw [evidence, List.filter_filter]

theorem counts_of_callerFault {o : Outcome} (h : o.callerFault = true) :
    (o.isOk || o.trippable) = false := by
  cases o <;> first | rfl | cases h

section Similarity

variable (budgetMs : Numerals.Decimal) {m m' : Monitor}

theorem Similar.trans {m'' : Monitor} (h : Similar m m') (h' : Similar m' m'') : Similar m m'' :=
  ⟨h.1.trans h'.1, h.2.trans h'.2⟩

theorem Similar.tripsAt (h : Similar m m') (now : ℤ) :
    m.tripsAt config budgetMs now ↔ m'.tripsAt config budgetMs now := by
  rw [Monitor.tripsAt, Monitor.tripsAt, evidence_eq, evidence_eq, h.2]

theorem Similar.read (h : Similar m m') (now : ℤ) :
    Similar (m.read config now) (m'.read config now) := by
  unfold Monitor.read
  rw [h.1]
  refine ⟨rfl, ?_⟩
  simp only
  split
  · rfl
  · exact h.2

theorem Similar.note (h : Similar m m') (s : Sample) : Similar (m.note s) (m'.note s) := by
  refine ⟨h.1, ?_⟩
  simp only [Monitor.note, List.filter_append, h.2]

theorem Similar.record (h : Similar m m') (now : ℤ) (outcome : Outcome) :
    Similar (m.record config budgetMs now outcome) (m'.record config budgetMs now outcome) := by
  refine ⟨?_, (h.read config now).2⟩
  simp only [Monitor.record, h.1, h.tripsAt config budgetMs now]

theorem Similar.step (h : Similar m m') (op : Op) :
    Similar (m.step config budgetMs op) (m'.step config budgetMs op) := by
  cases op with
  | read o => exact h.read config o.now
  | allows o => exact h.read config o.now
  | observe o o' outcome latencyMs => exact (h.note _).record config budgetMs o'.now outcome

theorem tripsAt_note_callerFault {s : Sample} (hf : s.outcome.callerFault = true) (now : ℤ) :
    (m.note s).tripsAt config budgetMs now ↔ m.tripsAt config budgetMs now := by
  rw [Monitor.tripsAt, Monitor.note, evidence_append_later (counts_of_callerFault hf)]
  rfl

theorem similar_callerFault {s : Sample} (hf : s.outcome.callerFault = true) (now : ℤ)
    (hdue : m.circuit = .closed → ¬ m.tripsAt config budgetMs now) :
    Similar ((m.note s).record config budgetMs now s.outcome) (m.read config now) := by
  have hcounts := counts_of_callerFault hf
  rw [Bool.or_eq_false_iff] at hcounts
  refine ⟨?_, ?_⟩
  · simp only [Monitor.record, Monitor.read, Circuit.record, tripsAt_note_callerFault _ _ hf]
    simp only [Monitor.note]
    cases hc : m.circuit.advance config now with
    | closed =>
      have ht := hdue (closed_of_advance (by rw [hc]; rfl))
      simp [ht]
    | opened t cooldown => rfl
    | halfOpen cooldown n => simp [Circuit.probe, hcounts]
  · have hs : s.counts = false := by simp [Sample.counts, hcounts]
    change (if m.circuit.cooled now then [] else m.calls ++ [s]).filter Sample.counts =
      (if m.circuit.cooled now then [] else m.calls).filter Sample.counts
    by_cases hcool : m.circuit.cooled now = true <;> simp [hcool, hs]

end Similarity

section Silencing

variable {config provider} {p : ProviderConfig}

theorem times_silence (op : Op) : op.silence.times.Sublist op.times := by
  cases op with
  | observe o o' outcome latencyMs =>
    by_cases hf : outcome.callerFault = true <;> simp [Op.silence, hf, Op.times]
  | read o => exact .refl _
  | allows o => exact .refl _

theorem samples_silence (op : Op) : op.silence.samples.Sublist op.samples := by
  cases op with
  | observe o o' outcome latencyMs =>
    by_cases hf : outcome.callerFault = true <;> simp [Op.silence, hf, Op.samples]
  | read o => exact .refl _
  | allows o => exact .refl _

theorem flatMap_silence {β : Type} {f : Op → List β} (hf : ∀ op, (f op.silence).Sublist (f op))
    (history : List Op) :
    ((withoutCallerFaults history).flatMap f).Sublist (history.flatMap f) := by
  induction history with
  | nil => exact .slnil
  | cons op history ih => exact (hf op).append ih

theorem chronological_of_append {before after : List Op} (h : Chronological (before ++ after)) :
    Chronological before := by
  rw [Chronological, List.flatMap_append, List.pairwise_append] at h
  exact h.1

theorem tokens_of_append {before after : List Op} (h : (tokens (before ++ after)).Nodup) :
    (tokens before).Nodup := by
  rw [tokens, List.flatMap_append, List.map_append, List.nodup_append] at h
  exact h.1

/-- While no caller's fault meets a window that is due, the history and the history
without the callers' faults are at similar monitors. -/
theorem similar_run (hp : config.providers.lookup provider = some p) {history : List Op}
    (hchron : Chronological history) (htok : (tokens history).Nodup)
    (hdue : NeverDue config provider p.latencyBudgetMs history) :
    Similar (monitor config p.latencyBudgetMs history)
      (monitor config p.latencyBudgetMs (withoutCallerFaults history)) := by
  induction history using List.reverseRec with
  | nil => exact ⟨rfl, rfl⟩
  | append_singleton history op ih =>
    have hsim := ih (chronological_of_append hchron) (tokens_of_append htok)
      (fun before o o' outcome latencyMs after he ↦
        hdue before o o' outcome latencyMs (after ++ [op]) (by simp [he]))
    rw [withoutCallerFaults, List.map_append, List.map_singleton, monitor_append_singleton,
      monitor_append_singleton]
    cases op with
    | read o => exact hsim.step config p.latencyBudgetMs _
    | allows o => exact hsim.step config p.latencyBudgetMs _
    | observe o o' outcome latencyMs =>
      by_cases hf : outcome.callerFault = true
      · obtain ⟨_, _, hlater⟩ := chronological_append.mp hchron
        have hrep := (represents_run hp (chronological_of_append hchron) (tokens_of_append htok)).2 o'.now
          (fun u hu ↦ hlater u hu _ (by simp [Op.times]))
        simp only [Op.silence, if_pos hf]
        refine Similar.trans ?_ (hsim.read config o'.now)
        refine similar_callerFault config p.latencyBudgetMs hf o'.now (fun hc ↦ ?_)
        have hfalse := hdue history o o' outcome latencyMs [] rfl hf
          (by rw [reported_eq hrep.circuit, hc]; rfl)
        rw [dueAt_eq hrep] at hfalse
        exact of_decide_eq_false hfalse
      · simp only [Op.silence, if_neg hf]
        exact hsim.step config p.latencyBudgetMs _

theorem opens_callerFault_iff (hp : config.providers.lookup provider = some p)
    {history : List Op} {o o' : Outside} {outcome : Outcome} {latencyMs : ℚ}
    (hchron : Chronological (history ++ [.observe o o' outcome latencyMs]))
    (htok : (tokens (history ++ [.observe o o' outcome latencyMs])).Nodup)
    (hf : outcome.callerFault = true)
    (hclosed : reported config provider o' (run config provider history).db = .ok .closed) :
    persisted config provider o'
        (run config provider (history ++ [.observe o o' outcome latencyMs])).db = .ok .opened ↔
      dueAt config provider p.latencyBudgetMs o' (run config provider history).db = true := by
  obtain ⟨hcalls, hrep⟩ := represents_run hp hchron htok
  obtain ⟨_, _, hlater⟩ := chronological_append.mp hchron
  have hbefore := (represents_run hp (chronological_of_append hchron) (tokens_of_append htok)).2 o'.now
    (fun u hu ↦ hlater u hu _ (by simp [Op.times]))
  rw [reported_eq hbefore.circuit] at hclosed
  have hc := closed_of_advance (Except.ok.inj hclosed)
  rw [persisted_eq (hrep o'.now (times_le_last hchron)).circuit, monitor_append_singleton,
    Monitor.step, record_of_closed (m := (monitor config p.latencyBudgetMs history).note _) hc,
    dueAt_eq hbefore, decide_eq_true_eq]
  have hiff := tripsAt_note_callerFault config p.latencyBudgetMs
    (m := monitor config p.latencyBudgetMs history) (s := ⟨o.now, o.uuid, outcome, latencyMs⟩)
    hf o'.now
  by_cases ht : (monitor config p.latencyBudgetMs history).tripsAt config p.latencyBudgetMs o'.now
  · rw [if_pos (hiff.mpr ht)]
    exact iff_of_true rfl ht
  · rw [if_neg (fun h ↦ ht (hiff.mp h))]
    exact iff_of_false (by simp [Circuit.state]) ht

end Silencing

/-- Callers' faults are inert in a history exactly when none is recorded on a closed circuit
whose window was due already. -/
theorem inert_iff_neverDue {p : ProviderConfig} (hp : config.providers.lookup provider = some p)
    {history : List Op} (hchron : Chronological history) (htok : (tokens history).Nodup) :
    Inert config provider history ↔ NeverDue config provider p.latencyBudgetMs history := by
  constructor
  · intro h before o o' outcome latencyMs after he hf hclosed
    have he' : history = (before ++ [.observe o o' outcome latencyMs]) ++ after := by simp [he]
    subst he'
    by_contra hdue
    exact h.keeps before o o' outcome latencyMs after (by simp) hf hclosed
      ((opens_callerFault_iff hp (chronological_of_append hchron) (tokens_of_append htok) hf hclosed).mpr
        (by simpa using hdue))
  · intro hdue
    refine ⟨fun before after he o ho ↦ ?_, fun before o o' outcome latencyMs after he hf hclosed ↦ ?_⟩
    · subst he
      have hsim := similar_run hp (chronological_of_append hchron) (tokens_of_append htok)
        (fun b o o' outcome latencyMs a he ↦ hdue b o o' outcome latencyMs (a ++ after) (by simp [he]))
      have hrep := (represents_run hp (chronological_of_append hchron) (tokens_of_append htok)).2 o.now ho
      have hsub := flatMap_silence times_silence before
      have hrep' := (represents_run hp (List.Pairwise.sublist hsub (chronological_of_append hchron))
        (((flatMap_silence samples_silence before).map _).nodup (tokens_of_append htok))).2 o.now
          (fun u hu ↦ ho u (hsub.subset hu))
      rw [reported_eq hrep.circuit, reported_eq hrep'.circuit, hsim.1]
    · have he' : history = (before ++ [.observe o o' outcome latencyMs]) ++ after := by simp [he]
      subst he'
      rw [ne_eq, opens_callerFault_iff hp (chronological_of_append hchron) (tokens_of_append htok) hf
        hclosed, hdue before o o' outcome latencyMs after (by simp) hf hclosed]
      simp

def mixedFaults : List Op :=
  (List.range 7).map (fun (n : ℕ) ↦
    .observe { now := 1000 + n, uuid := .numbered n } { now := 1000 + n } .ok 100) ++
  (List.range 3).map (fun (n : ℕ) ↦
    .observe { now := 2000 + n, uuid := .numbered (7 + n) } { now := 2000 + n } .timeout 100) ++
  [.observe { now := 3000, uuid := .numbered 10 } { now := 3000 } .badRequest 100,
    .observe { now := 3001, uuid := .numbered 11 } { now := 3001 } .contentFilter 100,
    .observe { now := 3002, uuid := .numbered 12 } { now := 3002 } .timeout 100]

def undue (before : List Op) : Op → Bool
  | .observe _ o' outcome _ =>
    !outcome.callerFault || !dueAt .shipped "groq" ⟨50000, 0⟩ o' (run .shipped "groq" before).db
  | _ => true

theorem inert_iff_neverDue_mixedFaults : Inert .shipped "groq" mixedFaults := by
  refine (inert_iff_neverDue .shipped "groq" rfl (by decide +kernel) (by decide +kernel)).mpr ?_
  have hundue : ∀ before op after, mixedFaults = before ++ op :: after → undue before op = true := by
    decide +kernel
  intro before o o' outcome latencyMs after he hfault _
  simpa [undue, hfault] using hundue before _ after he

/-- Eight successes, eight timeouts half a minute later, and a bad request after the
successes have left the window. -/
def agedOut : List Op :=
  (List.range 8).map (fun (n : ℕ) ↦
    .observe { now := 1000 + n, uuid := .numbered n } { now := 1000 + n } .ok 100) ++
  (List.range 8).map (fun (n : ℕ) ↦
    .observe { now := 31000 + n, uuid := .numbered (8 + n) } { now := 31000 + n } .timeout 100) ++
  [.observe { now := 61500, uuid := .numbered 16 } { now := 61500 } .badRequest 100]

theorem agedOut_not_inert :
    Chronological agedOut ∧ (tokens agedOut).Nodup ∧
      reported .shipped "groq" { now := 61500 } (run .shipped "groq" agedOut).db = .ok .opened ∧
      reported .shipped "groq" { now := 61500 }
        (run .shipped "groq" (withoutCallerFaults agedOut)).db = .ok .closed ∧
      reported .shipped "groq" { now := 61500 } (run .shipped "groq" agedOut.dropLast).db =
        .ok .closed ∧
      ¬ Inert .shipped "groq" agedOut := by
  have hopened : reported .shipped "groq" { now := 61500 } (run .shipped "groq" agedOut).db =
      .ok .opened := by decide +kernel
  have hclosed : reported .shipped "groq" { now := 61500 }
      (run .shipped "groq" (withoutCallerFaults agedOut)).db = .ok .closed := by decide +kernel
  refine ⟨by decide +kernel, by decide +kernel, hopened, hclosed, by decide +kernel, fun h ↦ ?_⟩
  have hagrees := h.agrees agedOut [] (by simp) { now := 61500 } (by decide +kernel)
  rw [hopened, hclosed] at hagrees
  cases hagrees

end HealingGateway.Breaker
