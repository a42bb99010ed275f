import HealingGateway.Library.Protocols
import HealingGateway.Library.Redis
import HealingGateway.Records

namespace HealingGateway

open Programs Programs.Prog Numerals JsonText

/-- The 32 lowercase hexadecimal digits of a `uuid4().hex`. -/
structure Uuid where
  digits : List Char
  length_digits : digits.length = 32
  digit : ∀ c ∈ digits, c.isDigit = true ∨ 'a' ≤ c ∧ c ≤ 'f'

namespace Uuid

def hex (u : Uuid) : String := String.ofList u.digits

/-- `hex[:8]`. -/
def token (u : Uuid) : String := String.ofList (u.digits.take 8)

end Uuid

/-- What a gateway process asks of the world outside it. -/
inductive Cmd
  | redis (c : Redis.Command)
  | time
  | perfCounter
  | random
  | uniform (low high : ℚ)
  | uuid4
  | sleep (seconds : ℚ)
  | acompletion (kwargs : List (String × Json))
  | llmProvider (model : String)
  | completionCost (response : Json) (model : String) (provider : Option String)
  | metric (m : Metric)

@[reducible] def Reply : Cmd → Type
  | .redis c => Except Exn (Redis.Reply c)
  | .time => ℚ
  | .perfCounter => ℚ
  | .random => ℚ
  | .uniform .. => ℚ
  | .uuid4 => Uuid
  | .sleep _ => Except Exn Unit
  | .acompletion _ => Except Exn Json
  | .llmProvider _ => Except Exn String
  | .completionCost .. => Except Exn Decimal
  | .metric _ => Unit

def Cmd.quiet : Cmd → Bool
  | .redis _ | .acompletion _ => false
  | _ => true

def Cmd.inward : Cmd → Bool
  | .redis _ | .acompletion _ | .metric _ => false
  | _ => true

def Cmd.counts : Cmd → Bool
  | .metric (.response ..) => true
  | _ => false

def Cmd.records : Cmd → Bool
  | .metric (.observe ..) | .redis (.pipeline _) | .redis (.hgetall _) => true
  | _ => false

def Cmd.keys : Cmd → List String
  | .redis c => c.keys
  | _ => []

theorem Cmd.keys_of_quiet {c : Cmd} (h : c.quiet = true) : c.keys = [] := by
  cases c <;> first | rfl | cases h

theorem Cmd.quiet_of_inward {c : Cmd} (h : c.inward = true) : c.quiet = true := by
  cases c <;> first | rfl | cases h

theorem Cmd.counts_of_inward {c : Cmd} (h : c.inward = true) : c.counts = false := by
  cases c <;> first | rfl | cases h

theorem Cmd.records_of_inward {c : Cmd} (h : c.inward = true) : c.records = false := by
  cases c <;> first | rfl | cases h

abbrev Gateway := Prog Cmd Reply Exn

def redis (c : Redis.Command) : Gateway (Redis.Reply c) := do
  let reply ← ask (Cmd.redis c)
  ofExcept reply

def metric (m : Metric) : Gateway Unit := ask (Cmd.metric m)

/-- `int(time.time() * 1000)`. -/
def nowMs : Gateway ℤ := do
  let t : ℚ ← ask Cmd.time
  return (t * 1000).floor

def nowOr : Option ℤ → Gateway ℤ
  | some now => return now
  | none => nowMs

def orRaise {α : Type} (e : Exn) : Option α → Gateway α
  | some a => return a
  | none => throw e

def exceptException {α : Type} (p : Gateway α) (handler : Exn → Gateway α) : Gateway α :=
  swallow Exn.isException p handler

def errorExn : Redis.Error → Exn
  | .wrongType => .raised ["ResponseError", "RedisError", "Exception", "BaseException"]
      "WRONGTYPE Operation against a key holding the wrong kind of value"
  | .invalidExpire => .raised ["ResponseError", "RedisError", "Exception", "BaseException"]
      "invalid expire time in 'set' command"

@[simp] theorem nowOr_some (now : ℤ) : nowOr (some now) = done now := rfl

@[simp] theorem orRaise_some {α : Type} (e : Exn) (a : α) : orRaise e (some a) = done a := rfl

@[simp] theorem orRaise_none {α : Type} (e : Exn) :
    (orRaise e none : Gateway α) = throw e := rfl

section Runs

variable {σ α : Type} (h : Handler Cmd Reply σ)

@[simp] theorem run_redis (c : Redis.Command) (s : σ) :
    (redis c).run h s = ((h (.redis c) s).1, (h (.redis c) s).2) := by
  simp [redis]

theorem run_redis_bind {c : Redis.Command} {r : Redis.Reply c} {s s' : σ}
    (hc : h (.redis c) s = (.ok r, s')) (f : Redis.Reply c → Gateway α) :
    (redis c >>= f).run h s = (f r).run h s' :=
  run_bind_ok h (by rw [run_redis, hc])

theorem run_redis_bind_error {c : Redis.Command} {e : Exn} {s s' : σ}
    (hc : h (.redis c) s = (.error e, s')) (f : Redis.Reply c → Gateway α) :
    (redis c >>= f).run h s = (.error e, s') :=
  run_bind_error h (by rw [run_redis, hc])

end Runs

section Only

variable {allowed : Cmd → Prop}

theorem only_redis {c : Redis.Command} (h : allowed (.redis c)) : (redis c).Only allowed :=
  (only_ask h).bind (fun _ ↦ only_ofExcept _)

theorem only_nowMs (h : allowed .time) : nowMs.Only allowed := (only_ask h).bind (fun _ ↦ trivial)

theorem only_nowOr (h : allowed .time) (now? : Option ℤ) : (nowOr now?).Only allowed := by
  cases now? with
  | none => exact only_nowMs h
  | some now => trivial

theorem only_orRaise {α : Type} (e : Exn) (a : Option α) : (orRaise e a).Only allowed := by
  cases a <;> trivial

end Only

theorem obeys_redis {V : Type} {π : Protocol Cmd Reply V} {v : V} {c : Redis.Command}
    {Q : V → Except Exn (Redis.Reply c) → Prop} :
    (redis c).Obeys π v Q ↔ π.allowed v (.redis c) ∧
      ∀ r, π.possible v (.redis c) r → Q (π.watch v false (.redis c) r) r := by
  rw [redis, ask_bind, obeys_call]
  refine and_congr_right (fun _ ↦ forall_congr' (fun r ↦ imp_congr_right (fun _ ↦ ?_)))
  cases r <;> rfl

end HealingGateway
