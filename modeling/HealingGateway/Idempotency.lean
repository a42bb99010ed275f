import HealingGateway.Effects
import HealingGateway.Library.JsonRoundTrip

namespace HealingGateway.Idempotency

open Programs Programs.Prog JsonText

def inFlight : String := "in_flight"

def key (tenant k : String) : String := "idem:" ++ tenant ++ ":" ++ k

/-- What a key is filed under, behind the prefix all of them share. -/
def label (tenant k : String) : String := tenant ++ ":" ++ k

def slotKey (label : String) : String := "idem:" ++ label

theorem key_eq (tenant k : String) : key tenant k = slotKey (label tenant k) := by
  simp only [key, slotKey, label, String.append_assoc]

@[simp] theorem slotKey_inj {l l' : String} : slotKey l = slotKey l' ↔ l = l' := by
  simp [slotKey]

def orInFlight : Option String → String
  | none => inFlight
  | some text => if text = "" then inFlight else text

def claim (tenant k : String) (ttlS : ℤ) : Gateway (Option String) := do
  let owned ← redis (.set (key tenant k) inFlight true ttlS)
  match owned with
  | true => return none
  | false => do
    let stored ← redis (.get (key tenant k))
    return some (orInFlight stored)

def envelope (status : ℤ) (body : Json) : String :=
  dumps (.obj [("status", .int status), ("body", body)])

def store (tenant k : String) (status : ℤ) (body : Json) (ttlS : ℤ) : Gateway Unit := do
  let _ ← redis (.set (key tenant k) (envelope status body) false ttlS)

def release (tenant k : String) : Gateway Unit := do
  let _ ← redis (.delete (key tenant k))

theorem envelope_ne_inFlight (status : ℤ) (body : Json) : envelope status body ≠ inFlight := by
  intro h
  obtain ⟨cs, hcs⟩ := dumps_obj_toList [("status", .int status), ("body", body)]
  have htext : (envelope status body).toList = inFlight.toList := by rw [h]
  rw [envelope, hcs] at htext
  cases htext

theorem orInFlight_envelope (status : ℤ) (body : Json) :
    orInFlight (some (envelope status body)) = envelope status body := by
  have hne : envelope status body ≠ "" := dumps_ne_empty _
  rw [orInFlight, if_neg hne]

end HealingGateway.Idempotency
