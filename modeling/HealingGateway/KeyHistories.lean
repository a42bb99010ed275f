import HealingGateway.KeyedRequests
import HealingGateway.Library.Pools
import HealingGateway.Outside
import Mathlib.Tactic.Linarith

namespace HealingGateway.Main

open Programs Programs.Prog JsonText Leases Idempotency Router

/-- A store under no key of which anything was kept yet. -/
structure Unkeyed where
  db : Redis.Db
  vacant : ∀ l, db (slotKey l) = none

/-- A request, and how its race would be timed. -/
structure Arrival where
  request : ChatRequest
  schedule : RaceSchedule := ⟨0, [], 0⟩

def Arrival.body (env : Environ) (config : GatewayConfig) (a : Arrival) : Gateway Response :=
  chatCompletions env config a.schedule a.request

def entryOf : Option Redis.Entry → Option (String × ℤ)
  | some ⟨.str text, some t⟩ => some (text, t)
  | _ => none

def Tidy (db : Redis.Db) : Prop :=
  ∀ l, db (slotKey l) = none ∨ ∃ text t, db (slotKey l) = some ⟨.str text, some t⟩

section Tidy

variable {db : Redis.Db} {l : String}

theorem Tidy.live (h : Tidy db) (l : String) (now : ℤ) :
    Redis.asString (Redis.live now db (slotKey l)) =
        .ok (((entryOf (db (slotKey l))).filter (fun e ↦ decide (now ≤ e.2))).map Prod.fst) ∧
      (Redis.live now db (slotKey l)).isSome =
        (((entryOf (db (slotKey l))).filter (fun e ↦ decide (now ≤ e.2))).map Prod.fst).isSome := by
  rcases h l with h | ⟨text, t, h⟩
  · rw [Redis.live_of_none h, h]
    exact ⟨rfl, rfl⟩
  · by_cases ht : now ≤ t
    · have hlive : Redis.live now db (slotKey l) = some ⟨.str text, some t⟩ := by
        simp [Redis.live, h, Redis.Entry.expired, ht]
      rw [hlive, h]
      simp [entryOf, Redis.asString, ht]
    · have hlive : Redis.live now db (slotKey l) = none := by
        simp only [Redis.live, h, Redis.Entry.expired]
        simpa using not_le.mp ht
      rw [hlive, h]
      simp [entryOf, Redis.asString, not_le.mp ht]

theorem Tidy.update (h : Tidy db) {e : Option Redis.Entry}
    (he : e = none ∨ ∃ text t, e = some ⟨.str text, some t⟩) :
    Tidy (Function.update db (slotKey l) e) := by
  intro l'
  by_cases hl : l' = l
  · subst hl
    rwa [Function.update_self]
  · rw [Function.update_of_ne (by simpa using hl)]
    exact h l'

theorem Tidy.congr {db' : Redis.Db} (h : Tidy db) (hdb : ∀ l, db' (slotKey l) = db (slotKey l)) :
    Tidy db' := by
  intro l
  rw [hdb]
  exact h l

end Tidy

section Requests

variable {ι : Type} (env : Environ) (config : GatewayConfig) (unkeyed : Unkeyed)
  (arrivals : ι → Arrival)

abbrev Requests (ι : Type) := Pool ι Cmd Reply Exn Response Stage Redis.Db

def wants (i : ι) : Option String := (arrivals i).request.slot

def book (p : Requests ι) : Book ι String String where
  phase i := (p.view i).phase
  slots l := entryOf (p.store (slotKey l))

/-- Requests in order: each keeps to its own key, and the keys hold what they should. -/
structure Orderly (p : Requests ι) : Prop where
  obedient : p.Obedient (keyProtocol config) (fun _ ↦ Ends config.queue.idempotencyTtlS)
  slot : ∀ i, (p.view i).slot = (arrivals i).request.slot
  tidy : Tidy p.store

variable {env config unkeyed arrivals} {p : Requests ι} {i : ι} {o : Outside}

theorem Orderly.found (h : Orderly config arrivals p) (now : ℤ) (l : String) :
    Redis.asString (Redis.live now p.store (slotKey l)) = .ok ((book p).found now l) ∧
      (Redis.live now p.store (slotKey l)).isSome = ((book p).found now l).isSome :=
  h.tidy.live l now

theorem answers_get (h : Orderly config arrivals p) (o : Outside) (l : String) :
    o.answers (.redis (.get (slotKey l))) p.store = (.ok ((book p).found o.now l), p.store) :=
  Outside.answers_redis (by simp only [Redis.exec, (h.found o.now l).1])

theorem answers_delete (o : Outside) (db : Redis.Db) (key : String) :
    ∃ b, o.answers (.redis (.delete key)) db = (.ok b, Function.update db key none) :=
  ⟨_, Outside.answers_redis rfl⟩

theorem answers_set (httl : 0 < config.queue.idempotencyTtlS) (o : Outside) (db : Redis.Db)
    (key text : String) :
    o.answers (.redis (.set key text false config.queue.idempotencyTtlS)) db =
      (.ok true, Function.update db key
        (some ⟨.str text, some (o.now + config.queue.idempotencyTtlS * 1000)⟩)) :=
  Outside.answers_redis (by simp only [Redis.exec, if_neg (not_le.mpr httl)]; rfl)

theorem answers_setNx (h : Orderly config arrivals p) (httl : 0 < config.queue.idempotencyTtlS)
    (o : Outside) (l text : String) :
    o.answers (.redis (.set (slotKey l) text true config.queue.idempotencyTtlS)) p.store =
      if (book p).found o.now l = none then
        (.ok true, Function.update p.store (slotKey l)
          (some ⟨.str text, some (o.now + config.queue.idempotencyTtlS * 1000)⟩))
      else (.ok false, p.store) := by
  have hlive := (h.found o.now l).2
  split
  · next hfound =>
    rw [hfound] at hlive
    exact Outside.answers_redis (by
      simp only [Redis.exec, if_neg (not_le.mpr httl), hlive, Option.isSome_none]; rfl)
  · next hfound =>
    rw [Option.isSome_iff_ne_none.mpr hfound] at hlive
    exact Outside.answers_redis (by
      simp only [Redis.exec, if_neg (not_le.mpr httl), hlive, true_and, if_true])

theorem answers_set_none (httl : config.queue.idempotencyTtlS ≤ 0) (o : Outside) (db : Redis.Db)
    (key text : String) (nx : Bool) :
    o.answers (.redis (.set key text nx config.queue.idempotencyTtlS)) db =
      (.error (errorExn .invalidExpire), db) := by
  simp only [Outside.answers, Redis.exec, if_pos httl, Except.mapError]

theorem Orderly.answered (h : Orderly config arrivals p) (o : Outside) {v : Stage} {c : Cmd}
    (hc : Keeps config.queue.idempotencyTtlS v c) :
    (keyProtocol config).possible v c (o.answers c p.store).1 := by
  intro hkey httl
  cases hc with
  | apart hv hc => exact absurd hc hkey
  | claim l =>
    rw [answers_setNx h httl]
    split <;> rfl
  | look l =>
    rw [answers_get h]
    rfl
  | store l text =>
    rw [answers_set httl]
    rfl
  | release l =>
    obtain ⟨b, hb⟩ := answers_delete o p.store (slotKey l)
    rw [hb]
    rfl

theorem Orderly.tidy_after (h : Orderly config arrivals p) (o : Outside) {v : Stage} {c : Cmd}
    (hc : Keeps config.queue.idempotencyTtlS v c) : Tidy (o.answers c p.store).2 := by
  cases hc with
  | apart hv hc => exact h.tidy.congr (fun l ↦ o.answers_frame (hc l) p.store)
  | claim l =>
    by_cases httl : 0 < config.queue.idempotencyTtlS
    · rw [answers_setNx h httl]
      split
      · exact h.tidy.update (.inr ⟨_, _, rfl⟩)
      · exact h.tidy
    · rw [answers_set_none (not_lt.mp httl)]
      exact h.tidy
  | look l =>
    rw [answers_get h]
    exact h.tidy
  | store l text =>
    by_cases httl : 0 < config.queue.idempotencyTtlS
    · rw [answers_set httl]
      exact h.tidy.update (.inr ⟨_, _, rfl⟩)
    · rw [answers_set_none (not_lt.mp httl)]
      exact h.tidy
  | release l =>
    obtain ⟨b, hb⟩ := answers_delete o p.store (slotKey l)
    rw [hb]
    exact h.tidy.update (.inl rfl)

section After

variable [DecidableEq ι] (env config unkeyed arrivals)

/-- The requests after some turns. Each turn is one command of one request, with what the
outside answers to it. -/
def requestsAfter (turns : List (ι × Outside)) : Requests ι :=
  Pool.run (keyProtocol config) Outside.answers
    ⟨fun i ↦ (arrivals i).body env config, fun i ↦ ⟨(arrivals i).request.slot, .idle⟩, unkeyed.db⟩
    turns

def booksAfter (turns : List (ι × Outside)) : Book ι String String :=
  book (requestsAfter env config unkeyed arrivals turns)

end After

variable [DecidableEq ι]

theorem book_apart {g : Bool} {c : Cmd} {k : Reply c → Gateway Response}
    (hi : p.rest i = .call g c k) (hc : Apart c) :
    book (p.step (keyProtocol config) o.answers i) = book p := by
  have hview : (keyProtocol config).watch (p.view i) g c (o.answers c p.store).1 = p.view i :=
    Stage.watch_apart hc _
  have hstore : ∀ l, (o.answers c p.store).2 (slotKey l) = p.store (slotKey l) :=
    fun l ↦ o.answers_frame (hc l) p.store
  rw [Pool.step_call hi, hview, Function.update_eq_self]
  simp only [book, hstore]

theorem book_put {g : Bool} {c : Cmd} {k : Reply c → Gateway Response}
    (hi : p.rest i = .call g c k) {l : String} {e : Option Redis.Entry} {r : Reply c}
    (hc : o.answers c p.store = (r, Function.update p.store (slotKey l) e)) :
    book (p.step (keyProtocol config) o.answers i) =
      (book p).put i ((p.view i).watch c r).phase l (entryOf e) := by
  rw [Pool.step_call hi, hc]
  simp only [book, Book.put, Book.mk.injEq]
  constructor
  · funext j
    by_cases hj : j = i
    · subst hj
      simp [keyProtocol]
    · simp [Function.update_of_ne hj]
  · funext l'
    by_cases hl : l' = l
    · subst hl
      simp
    · rw [Function.update_of_ne hl, Function.update_of_ne (by simpa using hl)]

theorem book_turnTo {g : Bool} {c : Cmd} {k : Reply c → Gateway Response}
    (hi : p.rest i = .call g c k) {r : Reply c} (hc : o.answers c p.store = (r, p.store)) :
    book (p.step (keyProtocol config) o.answers i) =
      (book p).turnTo i ((p.view i).watch c r).phase := by
  rw [Pool.step_call hi, hc]
  simp only [book, Book.turnTo, Book.mk.injEq, and_true]
  funext j
  by_cases hj : j = i
  · subst hj
    simp [keyProtocol]
  · simp [Function.update_of_ne hj]

theorem book_same {g : Bool} {c : Cmd} {k : Reply c → Gateway Response}
    (hi : p.rest i = .call g c k) {r : Reply c} (hc : o.answers c p.store = (r, p.store))
    (hr : (p.view i).watch c r = p.view i) :
    book (p.step (keyProtocol config) o.answers i) = book p := by
  rw [book_turnTo hi hc, hr]
  simp only [Book.turnTo, book, Function.update_eq_self_iff.mpr]

theorem Orderly.step_book (h : Orderly config arrivals p) (o : Outside) (i : ι) :
    Step (wants arrivals) inFlight (config.queue.idempotencyTtlS * 1000) o.now i (book p)
      (book (p.step (keyProtocol config) o.answers i)) := by
  rcases p.step_cases (keyProtocol config) o.answers i with hs | ⟨g, c, k, hi⟩
  · rw [hs]
    exact .aside
  have hslot := h.slot i
  have hkeeps : Keeps config.queue.idempotencyTtlS (p.view i) c := h.obedient.allowed hi
  generalize hv : p.view i = v at hslot hkeeps
  have hphase : (book p).phase i = v.phase := congrArg Stage.phase hv
  cases hkeeps with
  | apart hv hc =>
    rw [book_apart hi hc]
    exact .aside
  | claim l =>
    by_cases httl : 0 < config.queue.idempotencyTtlS
    · have hset := answers_setNx h httl o l inFlight
      by_cases hfree : (book p).found o.now l = none
      · rw [if_pos hfree] at hset
        rw [book_put hi hset, hv]
        simp only [Stage.watch, Option.map_some, ne_eq, not_true, if_false, if_true, entryOf]
        exact .claim hslot.symm hphase hfree
      · rw [if_neg hfree] at hset
        rw [book_turnTo hi hset, hv]
        simp only [Stage.watch, Option.map_some, ne_eq, not_true, if_false, if_true]
        exact .refuse hslot.symm hphase hfree
    · rw [book_same hi (answers_set_none (not_lt.mp httl) o p.store _ _ _) rfl]
      exact .aside
  | look l =>
    rw [book_turnTo hi (answers_get h o l), hv]
    simp only [Stage.watch, Option.map_some, ne_eq, not_true, if_false]
    exact .tell hslot.symm hphase
  | store l text =>
    by_cases httl : 0 < config.queue.idempotencyTtlS
    · rw [book_put hi (answers_set httl o p.store _ _), hv]
      simp only [Stage.watch, Option.map_some, ne_eq, not_true, if_false, Bool.false_eq_true, entryOf]
      exact .settle text hslot.symm hphase
    · rw [book_same hi (answers_set_none (not_lt.mp httl) o p.store _ _ _) rfl]
      exact .aside
  | release l =>
    obtain ⟨b, hb⟩ := answers_delete o p.store (slotKey l)
    rw [book_put hi hb, hv]
    simp only [Stage.watch, Option.map_some, ne_eq, not_true, if_false, entryOf]
    exact .free hslot.symm hphase

theorem Orderly.step (h : Orderly config arrivals p) (o : Outside) (i : ι) :
    Orderly config arrivals (p.step (keyProtocol config) o.answers i) := by
  have hobedient := h.obedient.step (fun c hc ↦ h.answered o hc) (i := i)
  rcases p.step_cases (keyProtocol config) o.answers i with hs | ⟨g, c, k, hi⟩
  · rwa [hs]
  · refine ⟨hobedient, ?_, ?_⟩
    all_goals rw [Pool.step_call hi]
    · intro j
      by_cases hj : j = i
      · subst hj
        simpa [keyProtocol] using h.slot j
      · simpa [Function.update_of_ne hj] using h.slot j
    · exact h.tidy_after o (h.obedient.allowed hi)

theorem orderly_requestsAfter (turns : List (ι × Outside)) :
    Orderly config arrivals (requestsAfter env config unkeyed arrivals turns) := by
  induction turns using List.reverseRec with
  | nil =>
    refine ⟨fun i ↦ ?_, fun i ↦ rfl, fun l ↦ .inl (unkeyed.vacant l)⟩
    exact obeys_chatCompletions env config (arrivals i).schedule (arrivals i).request
  | append_singleton turns turn ih =>
    rw [requestsAfter, Pool.run_append_singleton]
    exact ih.step turn.2 turn.1

/-- The keys' history is that of slots which are leased out. -/
theorem history_booksAfter :
    History (wants arrivals) inFlight (config.queue.idempotencyTtlS * 1000) Outside.now
      (booksAfter env config unkeyed arrivals) := by
  refine ⟨fun l ↦ ?_, fun i ↦ rfl, fun turns turn ↦ ?_⟩
  · have hvacant : (requestsAfter env config unkeyed arrivals []).store (slotKey l) = none :=
      unkeyed.vacant l
    simp only [booksAfter, book, hvacant, entryOf]
  · rw [booksAfter, booksAfter, requestsAfter, requestsAfter, Pool.run_append_singleton]
    exact (orderly_requestsAfter turns).step_book turn.2 turn.1

end Requests

end HealingGateway.Main
