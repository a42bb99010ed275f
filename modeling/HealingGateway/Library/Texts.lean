import Mathlib.Data.List.Basic
import Mathlib.Data.String.Basic

namespace Texts

def splitAt (sep : Char) : ℕ → List Char → List (List Char)
  | 0, cs => [cs]
  | n + 1, cs =>
    match cs.dropWhile (· ≠ sep) with
    | [] => [cs]
    | _ :: rest => cs.takeWhile (· ≠ sep) :: splitAt sep n rest

/-- `text.split(sep, n)`. -/
def split (sep : Char) (n : ℕ) (s : String) : List String :=
  (splitAt sep n s.toList).map String.ofList

def reprChar (quote c : Char) : List Char :=
  if c = quote ∨ c = '\\' then ['\\', c]
  else if c = '\n' then ['\\', 'n']
  else if c = '\r' then ['\\', 'r']
  else if c = '\t' then ['\\', 't']
  else if c < ' ' ∨ c = '\x7f' then
    ['\\', 'x', Nat.digitChar (c.toNat / 16), Nat.digitChar (c.toNat % 16)]
  else [c]

/-- `repr(s)`: single quotes, unless only those stand in the text. -/
def repr (s : String) : String :=
  let quote := if '\'' ∈ s.toList ∧ '"' ∉ s.toList then '"' else '\''
  String.ofList (quote :: s.toList.flatMap (reprChar quote) ++ [quote])

theorem takeWhile_sep {sep : Char} {cs : List Char} (h : sep ∉ cs) (rest : List Char) :
    (cs ++ sep :: rest).takeWhile (· ≠ sep) = cs ∧
      (cs ++ sep :: rest).dropWhile (· ≠ sep) = sep :: rest := by
  have hp : ∀ c ∈ cs, decide (c ≠ sep) = true := fun c hc ↦
    decide_eq_true (fun he ↦ h (he ▸ hc))
  rw [List.takeWhile_append_of_pos hp, List.dropWhile_append_of_pos hp]
  simp

@[simp] theorem splitAt_zero (sep : Char) (cs : List Char) : splitAt sep 0 cs = [cs] := rfl

theorem splitAt_sep {sep : Char} {cs : List Char} (h : sep ∉ cs) (n : ℕ) (rest : List Char) :
    splitAt sep (n + 1) (cs ++ sep :: rest) = cs :: splitAt sep n rest := by
  obtain ⟨ht, hd⟩ := takeWhile_sep h rest
  simp only [splitAt, ht, hd]

example : repr "it's" = "\"it's\"" := by decide

example : split ':' 3 "12:ab:ok:3.5" = ["12", "ab", "ok", "3.5"] := by decide

end Texts
