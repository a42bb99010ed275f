import Mathlib.Logic.Basic
import Mathlib.Data.List.Basic

namespace HealingGateway

/-- The normalized result of a provider call. -/
inductive Outcome
  | ok | rateLimit | timeout | serverError | contentFilter | auth | modelNotFound | badRequest
  deriving DecidableEq

namespace Outcome

def value : Outcome → String
  | ok => "ok"
  | rateLimit => "rate_limit"
  | timeout => "timeout"
  | serverError => "server_error"
  | contentFilter => "content_filter"
  | auth => "auth"
  | modelNotFound => "model_not_found"
  | badRequest => "bad_request"

def all : List Outcome :=
  [ok, rateLimit, timeout, serverError, contentFilter, auth, modelNotFound, badRequest]

/-- `Outcome(name)`, where an unknown name is a `ValueError`. -/
def ofValue? (name : String) : Option Outcome := all.find? (fun o ↦ o.value = name)

@[simp] theorem ofValue?_value (o : Outcome) : ofValue? o.value = some o := by
  cases o <;> decide

def trippable : Outcome → Bool
  | rateLimit | timeout | serverError | auth | modelNotFound => true
  | _ => false

def isOk (o : Outcome) : Bool := o = ok

def callerFault (o : Outcome) : Bool := o = contentFilter || o = badRequest

/-- Every outcome is exactly one of a success, a failure of the provider and a fault of
the caller. -/
theorem callerFault_eq (o : Outcome) : o.callerFault = (!o.isOk && !o.trippable) := by
  cases o <;> rfl

theorem trippable_of_isOk {o : Outcome} (h : o.isOk = true) : o.trippable = false := by
  cases o <;> first | rfl | cases h

end Outcome

/-- A raised exception: the names of its class and of that class's bases, nearest
first, and its text. `HTTPException` keeps its status and its detail. -/
inductive Exn
  | raised (mro : List String) (text : String)
  | http (status : ℕ) (detail : String)
  deriving DecidableEq

namespace Exn

def mro : Exn → List String
  | raised mro _ => mro
  | http .. => ["HTTPException", "Exception", "BaseException"]

def text : Exn → String
  | raised _ text => text
  | http _ detail => detail

def isInstance (e : Exn) (cls : String) : Bool := cls ∈ e.mro

/-- What `except Exception` catches. -/
def isException (e : Exn) : Bool := e.isInstance "Exception"

def typeName (e : Exn) : String := e.mro.headD ""

def valueError (text : String) : Exn := raised ["ValueError", "Exception", "BaseException"] text

def keyError (key : String) : Exn :=
  raised ["KeyError", "LookupError", "Exception", "BaseException"] key

def attributeError (name : String) : Exn :=
  raised ["AttributeError", "Exception", "BaseException"] name

def overflowError (text : String) : Exn :=
  raised ["OverflowError", "ArithmeticError", "Exception", "BaseException"] text

def typeError (text : String) : Exn := raised ["TypeError", "Exception", "BaseException"] text

/-- What a cancelled task is thrown at its next await. -/
def cancelled : Exn := raised ["CancelledError", "BaseException"] ""

end Exn

/-- Read in order: the first class the exception is an instance of decides. -/
def exceptionTaxonomy : List (String × Outcome) :=
  [("RateLimitError", .rateLimit),
    ("Timeout", .timeout),
    ("APIConnectionError", .timeout),
    ("AuthenticationError", .auth),
    ("PermissionDeniedError", .auth),
    ("ContentPolicyViolationError", .contentFilter),
    ("ContextWindowExceededError", .badRequest),
    ("NotFoundError", .modelNotFound),
    ("UnprocessableEntityError", .badRequest),
    ("BadRequestError", .badRequest),
    ("ServiceUnavailableError", .serverError),
    ("InternalServerError", .serverError),
    ("BadGatewayError", .serverError),
    ("APIError", .serverError)]

def classifyException (e : Exn) : Outcome :=
  if e.isInstance "TimeoutError" then .timeout
  else
    match exceptionTaxonomy.find? (fun row ↦ e.isInstance row.1) with
    | some row => row.2
    | none => .serverError

theorem classifyException_ne_ok (e : Exn) : classifyException e ≠ .ok := by
  have htable : ∀ row ∈ exceptionTaxonomy, row.2 ≠ .ok := by decide
  unfold classifyException
  split
  · decide
  · split
    · next hrow => exact htable _ (List.mem_of_find?_eq_some hrow)
    · decide

end HealingGateway
