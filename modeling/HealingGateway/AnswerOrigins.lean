import HealingGateway.Integrity

namespace HealingGateway.Service

open Programs Programs.Prog Main Idempotency

section Origins

variable {ι : Type}

/-- What a task was told by what was done so far. -/
def toldTo (acts : List (Deed ι)) (i : ι) : Told := fun c r ↦ ∃ o g, (⟨i, o, g, c, r⟩ : Deed ι) ∈ acts

theorem toldTo_append {acts : List (Deed ι)} (later : List (Deed ι)) {i : ι} {c : Cmd} {r : Reply c}
    (h : toldTo acts i c r) : toldTo (acts ++ later) i c r := by
  obtain ⟨o, g, hmem⟩ := h
  exact ⟨o, g, List.mem_append_left _ hmem⟩

variable [DecidableEq ι]

theorem toldTo_of_asked {allowed : Seen → Cmd → Prop} {acts : List (Deed ι)} {i : ι} (c : Cmd) (r : Reply c)
    (h : Asked ((remembering allowed).after [] (Pool.share i acts)) c r) : toldTo acts i c r :=
  Pool.mem_after_remembering h

variable {env : Environ} {config : GatewayConfig} {encoders : Encoders} {tasks : ι → Task}
  {turns : List (ι × (Outside × Fate))} {k text : String}

theorem put_of_stored {x : Redis.Piece}
    (h : Redis.Stored (after env config encoders tasks turns).store k x) :
    ∃ a ∈ deeds env config encoders tasks turns, ∃ c, a.cmd = .redis c ∧ Redis.Puts k c x := by
  rw [after, Pool.store_run_eq] at h
  revert h
  refine Pool.replay_rule (I := fun acts db ↦ Redis.Stored db k x →
    ∃ a ∈ acts, ∃ c, a.cmd = Cmd.redis c ∧ Redis.Puts k c x) ?_ (fun before a db _ ih h ↦ ?_)
  · rintro ⟨v, t, hv, -⟩
    cases hv
  · have hstep : Redis.Stored db k x ∨ ∃ c, a.cmd = .redis c ∧ Redis.Puts k c x := by
      rcases a.outside.1.meets_store a.outside.2 a.cmd db with hs | hs
      · rw [meets, hs] at h
        exact .inl h
      · rw [meets, hs] at h
        obtain ⟨i, o, g, c, r⟩ := a
        cases c with
        | redis c => exact (Redis.stored_exec h).imp_right (fun hputs ↦ ⟨c, rfl, hputs⟩)
        | _ => exact .inl h
    obtain h | ⟨c, hc, hputs⟩ := hstep
    · obtain ⟨b, hb, hputs⟩ := ih h
      exact ⟨b, List.mem_append_left _ hb, hputs⟩
    · exact ⟨a, by simp, c, hc, hputs⟩

theorem exec_of_meets {o : Outside × Fate} {c : Redis.Command} {db : Redis.Db} {r : Redis.Reply c}
    (h : (.ok r : Except Exn (Redis.Reply c)) = (meets o (.redis c) db).1) :
    (Redis.exec o.1.now c db).1 = .ok r := by
  rw [meets, Outside.meets_ok (r := r) h.symm, Outside.answers] at h
  cases hexec : (Redis.exec o.1.now c db).1 with
  | ok r' =>
    rw [hexec] at h
    cases h
    rfl
  | error e =>
    rw [hexec] at h
    cases h

/-- A text that is found under a key was set by an earlier deed. -/
theorem set_of_get {before later : List (Deed ι)} {i : ι} {o : Outside × Fate} {g : Bool}
    (h : deeds env config encoders tasks turns =
      before ++ ⟨i, o, g, .redis (.get k), .ok (some text)⟩ :: later) :
    ∃ a ∈ before, ∃ nx ex, a.cmd = .redis (.set k text nx ex) := by
  obtain ⟨turns₁, turns₂, -, rfl, hreply⟩ := exists_after h
  obtain ⟨a, ha, c, hc, hputs⟩ := put_of_stored (Redis.stored_of_get (exec_of_meets hreply))
  cases hputs with
  | set s nx ex => exact ⟨a, ha, nx, ex, hc⟩

end Origins

section Chats

variable {env : Environ} {config : GatewayConfig} {encoders : Encoders} {ι : Type} [DecidableEq ι]
  {tasks : ι → Task} {turns : List (ι × (Outside × Fate))}

theorem Task.Asks.obeys {task : Task} {c : ChatRequest} (h : task.Asks config c) :
    (task.body env config encoders).Obeys (remembering (settles env config c)) []
      (fun v r ↦ ∀ response, r = .ok (some response) → Came env config c v response ∨ Erred response) := by
  cases h with
  | intro schedule body provider headers hm =>
    refine obeys_request lasting_came (fun _ _ _ ↦ trivial) ?_
    change (ofExcept (headers.metadata config) >>= _).Obeys _ _ _
    rw [hm]
    exact settles_chatCompletions

/-- What is stored for a slot was the honest answer to a request of that slot. -/
theorem honest_of_settled {before later : List (Deed ι)} {a : Deed ι} {l value : String} {nx : Bool} {ex : ℤ}
    (h : deeds env config encoders tasks turns = before ++ a :: later)
    (ha : a.cmd = .redis (.set (slotKey l) value nx ex)) :
    value = inFlight ∨ ∃ c status body, (tasks a.thread).Asks config c ∧ c.slot = some l ∧ status < 400 ∧
      value = envelope status body ∧ Honest env config (toldTo before a.thread) c status body := by
  have hissues := within_deeds env config encoders tasks turns a (by simp [h])
  have hslot : ∀ {l ttlS}, ((tasks a.thread).warrant env config).slots l ttlS →
      ∃ c, (tasks a.thread).Asks config c ∧ c.slot = some l := by
    intro l ttlS hl
    generalize htask : tasks a.thread = task at hl
    cases task with
    | lifespan | worker => exact hl.elim
    | request q =>
      obtain ⟨route, headers⟩ := q
      cases route with
      | chat schedule body provider =>
        obtain ⟨-, m, hm, hslot⟩ := hl
        exact ⟨_, .intro schedule body provider headers hm, hslot⟩
      | _ => exact hl.elim
  rw [ha] at hissues
  generalize hcmd : Redis.Command.set (slotKey l) value nx ex = cmd at hissues
  cases hissues with
  | inward h => cases h
  | store hstores =>
    cases hstores with
    | inject =>
      have hkey := (Redis.Command.set.inj hcmd).1
      simp [slotKey, Chaos.key, ← String.toList_inj] at hkey
    | claimSlot => exact .inl (Redis.Command.set.inj hcmd).2.1
    | settleSlot hl =>
      obtain ⟨hkey, rfl, rfl, rfl⟩ := Redis.Command.set.inj hcmd
      obtain rfl := slotKey_inj.mp hkey
      obtain ⟨c, hc, hslot⟩ := hslot hl
      have hallowed := Pool.allowed_of_acts h hc.obeys (fun _ _ _ ↦ trivial)
      rw [ha] at hallowed
      obtain ⟨status, body, hstatus, hvalue, hhonest⟩ := hallowed l rfl
      exact .inr ⟨c, status, body, hc, hslot, hstatus, hvalue, hhonest.mono toldTo_of_asked⟩
    | _ => cases hcmd

end Chats

def keyedHeaders : Headers := { callerHeaders "batch.generate" with idempotencyKey := some "k-1" }

def dawn : Bool → Task := fun _ ↦ .request ⟨.chat ⟨0, [], 0⟩ (.ofText "hello") none, keyedHeaders⟩

def dawnTurns : List (Bool × (Outside × Fate)) :=
  (List.range 9).map (fun n ↦ (decide (n < 6), { now := n, completion := fun _ ↦ .ok reply }, .answered))

def endedReplayed (rest : Gateway (Option Response)) : Bool :=
  match rest with
  | .done (some response) => response.replayed
  | _ => false

theorem done_of_endedReplayed {rest : Gateway (Option Response)} (h : endedReplayed rest = true) :
    ∃ response, rest = .done (some response) ∧ response.replayed = true := by
  unfold endedReplayed at h
  split at h
  · next response => exact ⟨response, rfl, h⟩
  · cases h

theorem endedReplayed_dawn :
    endedReplayed ((after (fun _ ↦ some "key") .shipped {} dawn dawnTurns).rest false) = true := by
  decide +kernel

end HealingGateway.Service
