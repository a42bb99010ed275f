import HealingGateway.Trip

namespace HealingGateway.Breaker

open Programs Programs.Prog Health Redis

/-- One call on a provider's circuit or on its window, with what the outside answers to it. -/
inductive Action
  | read (o : Outside)
  | allows (o : Outside)
  | record (o : Outside) (outcome : Outcome)
  | note (o : Outside) (outcome : Outcome) (latencyMs : ℚ)

namespace Action

variable (config : GatewayConfig) (provider : String)

def outside : Action → Outside
  | read o => o
  | allows o => o
  | record o _ => o
  | note o _ _ => o

def outcome? : Action → Option Outcome
  | record _ outcome => some outcome
  | _ => none

def asks : Action → Bool
  | note .. => false
  | _ => true

def exec : Action → Db → Db
  | read o, db => ((stateOf config provider none).run o.answers db).2
  | allows o, db => ((Breaker.allows config provider none).run o.answers db).2
  | record o outcome, db => ((Breaker.record config provider outcome none).run o.answers db).2
  | note o outcome latencyMs, db =>
    ((Health.record config provider outcome latencyMs none none).run o.answers db).2

end Action

variable (config : GatewayConfig) (provider : String)

def execAll (history : List Action) (db : Db) : Db :=
  history.foldl (fun db a ↦ a.exec config provider db) db

def storeAfter (history : List Action) : Db := execAll config provider history (fun _ ↦ none)

@[simp] theorem storeAfter_append (history later : List Action) :
    storeAfter config provider (history ++ later) =
      execAll config provider later (storeAfter config provider history) := by
  simp [storeAfter, execAll]

@[simp] theorem execAll_append (history later : List Action) (db : Db) :
    execAll config provider (history ++ later) db =
      execAll config provider later (execAll config provider history db) := by
  simp [execAll]

@[simp] theorem execAll_cons (a : Action) (later : List Action) (db : Db) :
    execAll config provider (a :: later) db =
      execAll config provider later (a.exec config provider db) := rfl

@[simp] theorem execAll_nil (db : Db) : execAll config provider [] db = db := rfl

def Circuit.act (due : Bool) (c : Circuit) : Action → Circuit
  | .read o => c.advance config o.now
  | .allows o => c.advance config o.now
  | .record o outcome => c.record config o.now outcome due
  | .note .. => c

section Steps

variable {config provider} {o : Outside} {db : Db} {c : Circuit} {p : ProviderConfig}

theorem Circuit.advance_of_cooled {now : ℤ} (h : c.cooled now = true) :
    c.advance config now = .halfOpen (c.cooldown config) 0 := if_pos h

theorem Circuit.advance_of_not_cooled {now : ℤ} (h : ¬ c.cooled now = true) :
    c.advance config now = c := if_neg h

@[simp] theorem Circuit.advance_closed (now : ℤ) :
    Circuit.closed.advance config now = .closed := rfl

@[simp] theorem Circuit.advance_halfOpen (now : ℤ) (cooldown : Numerals.Decimal) (n : ℤ) :
    (Circuit.halfOpen cooldown n).advance config now = .halfOpen cooldown n := rfl

@[simp] theorem Circuit.cooldown_advance (now : ℤ) :
    (c.advance config now).cooldown config = c.cooldown config := by
  unfold Circuit.advance
  split <;> rfl

/-- Every action moves the kept circuit as the abstract one moves. -/
theorem Kept.exec (h : Kept config provider c db)
    (hp : config.providers.lookup provider = some p) (a : Action) :
    ∃ due, Kept config provider (c.act config due a) (a.exec config provider db) := by
  cases a with
  | read o =>
    obtain ⟨s, db', hrun, -, hkept⟩ := h.stateOf (o := o)
    rw [Action.exec, hrun]
    exact ⟨false, hkept⟩
  | allows o =>
    obtain ⟨s, db', hrun, -, hkept⟩ := h.stateOf (o := o)
    rw [Action.exec, allows_store, hrun]
    exact ⟨false, hkept⟩
  | record o outcome => exact h.record hp outcome
  | note o outcome latencyMs =>
    obtain ⟨r, db', hrun, hkept⟩ := h.note (o := o) outcome latencyMs
    rw [Action.exec, hrun]
    exact ⟨false, hkept⟩

theorem kept_empty : Kept config provider .closed (fun _ ↦ none) :=
  ⟨⟨[], .inl ⟨rfl, rfl⟩, rfl⟩, .inl rfl⟩

theorem kept_storeAfter (hp : config.providers.lookup provider = some p) (history : List Action) :
    ∃ c, Kept config provider c (storeAfter config provider history) := by
  induction history using List.reverseRec with
  | nil => exact ⟨.closed, kept_empty⟩
  | append_singleton history a ih =>
    obtain ⟨c, hkept⟩ := ih
    obtain ⟨due, hkept⟩ := hkept.exec hp a
    rw [storeAfter_append]
    exact ⟨_, hkept⟩

theorem run_allows {s : CircuitState} {db' : Db}
    (h : (stateOf config provider none).run o.answers db = (.ok s, db')) :
    ((allows config provider none).run o.answers db).1 = .ok (match s.state with
      | .closed => (true, "")
      | .opened => (false, "circuit open, retry in " ++
          Numerals.intString (Numerals.roundHalfEven s.retryInS) ++ "s")
      | .halfOpen => probeDraw config o.draw) := by
  rw [allows, run_bind_ok _ h]
  cases s.state <;> rfl

end Steps

end HealingGateway.Breaker
