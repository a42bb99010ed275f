import HealingGateway.Effects

namespace HealingGateway

open Programs Programs.Prog Numerals JsonText

/-- A `uuid4` whose first two digits spell `n % 256`. -/
def Uuid.numbered (n : ℕ) : Uuid where
  digits := Nat.digitChar (n / 16 % 16) :: Nat.digitChar (n % 16) :: List.replicate 30 '0'
  length_digits := rfl
  digit := by
    have h : ∀ k < 16, (Nat.digitChar k).isDigit = true ∨
        'a' ≤ Nat.digitChar k ∧ Nat.digitChar k ≤ 'f' := by decide
    intro c hc
    rcases List.mem_cons.mp hc with rfl | hc
    · exact h _ (by omega)
    rcases List.mem_cons.mp hc with rfl | hc
    · exact h _ (by omega)
    · rw [List.eq_of_mem_replicate hc]
      decide

/-- What everything but the store answers to a gateway process. -/
structure Outside where
  now : ℤ
  perf : ℚ := 0
  draw : ℚ := 0
  uniform : ℚ → ℚ → ℚ := fun low _ ↦ low
  uuid : Uuid := .numbered 0
  sleep : ℚ → Except Exn Unit := fun _ ↦ .ok ()
  completion : List (String × Json) → Except Exn Json := fun _ ↦ .ok .null
  llmProvider : String → Except Exn String := fun _ ↦ .ok ""
  cost : Json → String → Option String → Except Exn Decimal := fun _ _ _ ↦ .ok ⟨0, 0⟩

/-- A store that answers every command, beside one state of the outside. -/
def Outside.answers (o : Outside) : Handler Cmd Reply Redis.Db
  | .redis c, db => ((Redis.exec o.now c db).1.mapError errorExn, (Redis.exec o.now c db).2)
  | .time, db => (o.now / 1000, db)
  | .perfCounter, db => (o.perf, db)
  | .random, db => (o.draw, db)
  | .uniform low high, db => (o.uniform low high, db)
  | .uuid4, db => (o.uuid, db)
  | .sleep s, db => (o.sleep s, db)
  | .acompletion kwargs, db => (o.completion kwargs, db)
  | .llmProvider model, db => (o.llmProvider model, db)
  | .completionCost response model provider, db => (o.cost response model provider, db)
  | .metric _, db => ((), db)

theorem Outside.answers_redis {o : Outside} {c : Redis.Command} {r : Redis.Reply c}
    {db db' : Redis.Db} (h : Redis.exec o.now c db = (.ok r, db')) :
    o.answers (.redis c) db = (.ok r, db') := by
  simp only [Outside.answers, h]
  rfl

@[simp] theorem Outside.answers_metric (o : Outside) (m : Metric) (db : Redis.Db) :
    o.answers (.metric m) db = ((), db) := rfl

theorem Outside.answers_frame (o : Outside) {c : Cmd} {k : String} (hk : k ∉ c.keys)
    (db : Redis.Db) : (o.answers c db).2 k = db k := by
  cases c with
  | redis c => exact Redis.exec_frame hk o.now db
  | _ => rfl

theorem Outside.floor_now (o : Outside) : ((o.now : ℚ) / 1000 * 1000).floor = o.now := by
  rw [div_mul_cancel₀ _ (by norm_num)]
  exact Rat.floor_intCast o.now

@[simp] theorem Outside.run_nowMs (o : Outside) (db : Redis.Db) :
    nowMs.run o.answers db = (.ok o.now, db) := by
  simp only [nowMs, ask_bind, run_call, Outside.answers, pure_eq, run_done, o.floor_now]

theorem Outside.run_nowOr_none {α : Type} (o : Outside) (f : ℤ → Gateway α) (db : Redis.Db) :
    (nowOr none >>= f).run o.answers db = (f o.now).run o.answers db :=
  run_bind_ok _ (o.run_nowMs db)

/-- Turns of tasks follow each other in time. -/
def InTime {ι : Type} (turns : List (ι × Outside)) : Prop :=
  turns.Pairwise (fun turn later ↦ turn.2.now ≤ later.2.now)

instance {ι : Type} (turns : List (ι × Outside)) : Decidable (InTime turns) :=
  inferInstanceAs (Decidable (List.Pairwise _ _))

theorem InTime.of_append {ι : Type} {turns later : List (ι × Outside)} (h : InTime (turns ++ later)) :
    InTime turns := (List.pairwise_append.mp h).1

end HealingGateway
