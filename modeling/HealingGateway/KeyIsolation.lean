import HealingGateway.KeyHistories

namespace HealingGateway.Main

open Programs Programs.Prog JsonText Leases Idempotency Router

/-- One tenant's name goes on as the other's does, and its key takes up where that one's
ends. -/
def Confusable (a b : ChatRequest) : Prop :=
  a.body.stream = false ∧ b.body.stream = false ∧
    ∃ m k, b.metadata.tenant = a.metadata.tenant ++ ":" ++ m ∧ a.key = some (m ++ ":" ++ k) ∧
      b.key = some k

theorem label_eq_label {t k t' k' : String} (h : label t k = label t' k') :
    t = t' ∨ (∃ m, t' = t ++ ":" ++ m ∧ k = m ++ ":" ++ k') ∨
      ∃ m, t = t' ++ ":" ++ m ∧ k' = m ++ ":" ++ k := by
  have hlists : t.toList ++ ':' :: k.toList = t'.toList ++ ':' :: k'.toList := by
    simpa [label, ← String.toList_inj] using h
  have hcut : ∀ {s s' u u' : String} {m : List Char}, s'.toList = s.toList ++ m →
      ':' :: u.toList = m ++ ':' :: u'.toList →
      s = s' ∨ ∃ m, s' = s ++ ":" ++ m ∧ u = m ++ ":" ++ u' := by
    intro s s' u u' m hs hu
    cases m with
    | nil =>
      left
      rw [← String.toList_inj, hs, List.append_nil]
    | cons c m =>
      right
      injection hu with hc hu
      subst hc
      refine ⟨String.ofList m, ?_, ?_⟩
      · simp [← String.toList_inj, hs]
      · simp [← String.toList_inj, hu]
  rcases List.append_eq_append_iff.mp hlists with ⟨m, hs, hu⟩ | ⟨m, hs, hu⟩
  · rcases hcut hs hu with h | h
    · exact .inl h
    · exact .inr (.inl h)
  · rcases hcut hs hu with h | h
    · exact .inl h.symm
    · exact .inr (.inr h)

theorem slot_eq_some {r : ChatRequest} {l : String} (h : r.slot = some l) :
    r.body.stream = false ∧ ∃ k, r.key = some k ∧ l = label r.metadata.tenant k := by
  unfold ChatRequest.slot at h
  split at h
  · cases h
  · next hstream =>
    obtain ⟨k, hk, rfl⟩ := Option.map_eq_some_iff.mp h
    exact ⟨by simpa using hstream, k, hk, rfl⟩

/-- Requests of two tenants share a slot only if they can be confused. -/
theorem confusable_of_slot {a b : ChatRequest} {l : String} (ha : a.slot = some l)
    (hb : b.slot = some l) (hne : a.metadata.tenant ≠ b.metadata.tenant) :
    Confusable a b ∨ Confusable b a := by
  obtain ⟨hsa, k, hk, rfl⟩ := slot_eq_some ha
  obtain ⟨hsb, k', hk', hl⟩ := slot_eq_some hb
  rcases label_eq_label hl with h | ⟨m, ht, rfl⟩ | ⟨m, ht, rfl⟩
  · exact absurd h hne
  · exact .inl ⟨hsa, hsb, m, k', ht, hk, hk'⟩
  · exact .inr ⟨hsb, hsa, m, k, ht, hk', hk⟩

theorem Confusable.slot {a b : ChatRequest} (h : Confusable a b) :
    a.metadata.tenant ≠ b.metadata.tenant ∧ ∃ l, a.slot = some l ∧ b.slot = some l := by
  obtain ⟨hsa, hsb, m, k, ht, ha, hb⟩ := h
  constructor
  · intro h
    rw [ht, ← String.toList_inj] at h
    have hlength := congrArg List.length h
    simp at hlength
  · refine ⟨label b.metadata.tenant k, ?_, by simp [ChatRequest.slot, hsb, hb]⟩
    simp [ChatRequest.slot, hsa, ha, label, ht, String.append_assoc]

section Isolation

variable {ι : Type} [DecidableEq ι] (env : Environ) (config : GatewayConfig) (unkeyed : Unkeyed)
  (arrivals : ι → Arrival)

def tenantOf (i : ι) : String := (arrivals i).request.metadata.tenant

/-- What makes a request wait, and what is replayed to it, was left under its key by a
request of its own tenant. -/
def Isolated (turns : List (ι × Outside)) : Prop :=
  ∀ before j x l, before ++ [(j, x)] <+: turns → wants arrivals j = some l →
    ((booksAfter env config unkeyed arrivals before).phase j = .idle ∨
      (booksAfter env config unkeyed arrivals before).phase j = .refused) →
    (booksAfter env config unkeyed arrivals before).found x.now l ≠ none →
    ∀ i, LeftBy (wants arrivals) (booksAfter env config unkeyed arrivals) before l i →
      tenantOf arrivals i = tenantOf arrivals j

def Unambiguous : Prop := ∀ i j, ¬ Confusable (arrivals i).request (arrivals j).request

variable {env config unkeyed arrivals} {i j : ι} {l : String}

theorem body_of_slot {r : ChatRequest} (hl : r.slot = some l) (env : Environ)
    (config : GatewayConfig) (schedule : RaceSchedule) :
    ∃ k, chatCompletions env config schedule r =
      .call false (.redis (.set (slotKey l) inFlight true config.queue.idempotencyTtlS)) k := by
  obtain ⟨hstream, k, hkey, rfl⟩ := slot_eq_some hl
  unfold chatCompletions
  rw [hstream, hkey]
  simp only [Bool.false_eq_true, if_false, claim, redis, ask_bind, call_bind]
  exact ⟨_, rfl⟩

theorem books_claim (httl : 0 < config.queue.idempotencyTtlS) (hl : wants arrivals i = some l)
    (o : Outside) :
    booksAfter env config unkeyed arrivals [(i, o)] =
      (booksAfter env config unkeyed arrivals []).put i .holding l
        (some (inFlight, o.now + config.queue.idempotencyTtlS * 1000)) := by
  have h : Orderly config arrivals (requestsAfter env config unkeyed arrivals []) :=
    orderly_requestsAfter []
  have hfree : (book (requestsAfter env config unkeyed arrivals [])).found o.now l = none := by
    have hempty : (booksAfter env config unkeyed arrivals []).slots l = none :=
      history_booksAfter.empty l
    rw [Book.found, ← booksAfter, hempty]
    rfl
  obtain ⟨k, hk⟩ := body_of_slot hl env config (arrivals i).schedule
  have hset := answers_setNx h httl o l inFlight
  rw [booksAfter, requestsAfter, ← List.nil_append [(i, o)], Pool.run_append_singleton,
    ← requestsAfter]
  rw [if_pos hfree] at hset
  have hview : (requestsAfter env config unkeyed arrivals []).view i = ⟨some l, .idle⟩ :=
    congrArg (fun s ↦ Stage.mk s .idle) hl
  rw [book_put hk hset, hview]
  simp [Stage.watch, entryOf, booksAfter]

theorem not_isolated (httl : 0 < config.queue.idempotencyTtlS)
    (h : Confusable (arrivals i).request (arrivals j).request) (o : Outside) :
    ¬ Isolated env config unkeyed arrivals [(i, o), (j, o)] := by
  obtain ⟨htenant, l, hi, hj⟩ := h.slot
  have hne : j ≠ i := by
    rintro rfl
    exact htenant rfl
  have hbooks : booksAfter env config unkeyed arrivals [(i, o)] =
      (booksAfter env config unkeyed arrivals []).put i .holding l
        (some (inFlight, o.now + config.queue.idempotencyTtlS * 1000)) := books_claim httl hi o
  have hleft : LeftBy (wants arrivals) (booksAfter env config unkeyed arrivals) ([] ++ [(i, o)]) l i := by
    refine leftBy_new hi (.inl ⟨rfl, ?_⟩)
    rw [List.nil_append, hbooks, Book.put_phase, Function.update_self]
  intro hisolated
  refine htenant (hisolated [(i, o)] j o l List.prefix_rfl hj (.inl ?_) ?_ i hleft)
  · rw [hbooks, Book.put_phase, Function.update_of_ne hne]
    rfl
  · have hslots := congrFun (congrArg Book.slots hbooks) l
    rw [Book.put_slots, Function.update_self] at hslots
    rw [Book.found_of_slots hslots (by omega)]
    simp

theorem idle_of_ttlS (httl : config.queue.idempotencyTtlS ≤ 0) (turns : List (ι × Outside)) (i : ι) :
    (booksAfter env config unkeyed arrivals turns).phase i = .idle := by
  induction turns using List.reverseRec generalizing i with
  | nil => rfl
  | append_singleton turns turn ih =>
    have horderly : Orderly config arrivals (requestsAfter env config unkeyed arrivals turns) :=
      orderly_requestsAfter turns
    have hstep := horderly.step_book turn.2 turn.1
    rw [booksAfter, requestsAfter, Pool.run_append_singleton, ← requestsAfter]
    rcases Pool.step_cases (keyProtocol config) turn.2.answers turn.1
      (requestsAfter env config unkeyed arrivals turns) with hs | ⟨g, c, k, hi⟩
    · rw [hs]
      exact ih i
    · have hkeeps : Keeps config.queue.idempotencyTtlS
          ((requestsAfter env config unkeyed arrivals turns).view turn.1) c :=
        horderly.obedient.allowed hi
      have hidle : ((requestsAfter env config unkeyed arrivals turns).view turn.1).phase = .idle :=
        ih turn.1
      generalize hv : (requestsAfter env config unkeyed arrivals turns).view turn.1 = v
        at hkeeps hidle
      cases hkeeps with
      | apart hv hc =>
        rw [book_apart hi hc]
        exact ih i
      | claim l =>
        rw [book_same hi (answers_set_none httl turn.2 _ _ _ _) rfl]
        exact ih i
      | look | store | release => cases hidle

/-- Tenants are isolated in every history exactly when no two requests can be confused, as
far as anything is kept at all. -/
theorem isolated_iff_unambiguous :
    (∀ turns, Isolated env config unkeyed arrivals turns) ↔
      (0 < config.queue.idempotencyTtlS → Unambiguous arrivals) := by
  constructor
  · intro h httl i j hconf
    exact not_isolated httl hconf { now := 0 } (h _)
  · intro h turns before j x l hpre hj hasks hfound i hleft
    by_contra hne
    by_cases httl : 0 < config.queue.idempotencyTtlS
    · rcases confusable_of_slot hleft.1 hj hne with hconf | hconf
      · exact h httl i j hconf
      · exact h httl j i hconf
    · obtain ⟨-, earlier, y, -, hwrites, -⟩ := hleft
      rcases hwrites with ⟨-, hholds⟩ | ⟨hholds, -⟩
      all_goals
        rw [idle_of_ttlS (not_lt.mp httl)] at hholds
        cases hholds

end Isolation

def keyed (tenant key : String) : Arrival where
  request := {
    body := .ofText "hi"
    metadata := ⟨tenant, "chat", "r1", "batch.generate"⟩
    idempotencyKey := some key }

def unkeyed : Unkeyed := ⟨fun _ ↦ none, fun _ ↦ rfl⟩

def namesakes : ℕ → Arrival
  | 0 => keyed "a" "b:c"
  | _ => keyed "a:b" "c"

def replays (p : Requests ℕ) (i j : ℕ) : Bool :=
  match p.rest i, p.rest j with
  | .done response, .done stored => response.replayed && !stored.replayed &&
      response.status = stored.status && dumps response.body = dumps stored.body
  | _, _ => false

/-- The second tenant is handed what the first one was accepted for. -/
theorem namesakes_not_isolated :
    replays (requestsAfter (fun _ ↦ none) .shipped unkeyed namesakes
      (List.replicate 5 (0, { now := 0 }) ++ List.replicate 2 (1, { now := 1 }))) 1 0 = true ∧
    ¬ ∀ turns, Isolated (fun _ ↦ none) .shipped unkeyed namesakes turns := by
  refine ⟨by decide +kernel, fun h ↦ ?_⟩
  have hconf : Confusable (namesakes 0).request (namesakes 1).request :=
    ⟨rfl, rfl, "b", "c", by decide, by decide, by decide⟩
  exact not_isolated (by decide) hconf { now := 0 } (h _)

end HealingGateway.Main
