import HealingGateway.Library.Numerals

namespace JsonText

open Numerals

/-- A JSON value. Object members stand in text order. -/
inductive Json
  | null
  | bool (b : Bool)
  | int (n : ℤ)
  | float (d : Decimal)
  | str (s : String)
  | arr (items : List Json)
  | obj (members : List (String × Json))

def hexDigit (n : ℕ) : Char := Nat.digitChar (n % 16)

def hexValue (c : Char) : Option ℕ :=
  if c.isDigit then some (c.toNat - '0'.toNat)
  else if 'a' ≤ c ∧ c ≤ 'f' then some (c.toNat - 'a'.toNat + 10)
  else none

def unitText (n : ℕ) : List Char :=
  ['\\', 'u', hexDigit (n / 4096), hexDigit (n / 256), hexDigit (n / 16), hexDigit n]

def readUnit : List Char → Option (ℕ × List Char)
  | a :: b :: c :: d :: rest => do
    some ((← hexValue a) * 4096 + (← hexValue b) * 256 + (← hexValue c) * 16 + (← hexValue d), rest)
  | _ => none

def shortEscape (c : Char) : Option Char :=
  match c with
  | '"' => some '"'
  | '\\' => some '\\'
  | '\n' => some 'n'
  | '\r' => some 'r'
  | '\t' => some 't'
  | '\x08' => some 'b'
  | '\x0c' => some 'f'
  | _ => none

def shortUnescape (c : Char) : Option Char :=
  match c with
  | '"' => some '"'
  | '\\' => some '\\'
  | '/' => some '/'
  | 'n' => some '\n'
  | 'r' => some '\r'
  | 't' => some '\t'
  | 'b' => some '\x08'
  | 'f' => some '\x0c'
  | _ => none

/-- One character inside a string: everything outside printable ASCII is escaped,
and a character past the basic plane becomes a surrogate pair. -/
def escape (c : Char) : List Char :=
  match shortEscape c with
  | some e => ['\\', e]
  | none =>
    if ' ' ≤ c ∧ c ≤ '~' then [c]
    else if c.toNat < 0x10000 then unitText c.toNat
    else unitText (0xD800 + (c.toNat - 0x10000) / 0x400) ++
      unitText (0xDC00 + (c.toNat - 0x10000) % 0x400)

def stringText (s : String) : List Char := '"' :: (s.toList.flatMap escape ++ ['"'])

def readEscape : List Char → Option (Char × List Char)
  | 'u' :: cs => do
    let (high, rest) ← readUnit cs
    if 0xD800 ≤ high ∧ high < 0xDC00 then
      match rest with
      | '\\' :: 'u' :: rest => do
        let (low, rest) ← readUnit rest
        if 0xDC00 ≤ low ∧ low < 0xE000 then
          some (Char.ofNat (0x10000 + (high - 0xD800) * 0x400 + (low - 0xDC00)), rest)
        else none
      | _ => none
    else if 0xDC00 ≤ high ∧ high < 0xE000 then none
    else some (Char.ofNat high, rest)
  | c :: rest => (shortUnescape c).map (·, rest)
  | [] => none

def readChar : List Char → Option (Char × List Char)
  | '\\' :: cs => readEscape cs
  | c :: cs => if c < ' ' then none else some (c, cs)
  | [] => none

def readString : ℕ → List Char → Option (List Char × List Char)
  | _, '"' :: rest => some ([], rest)
  | 0, _ => none
  | fuel + 1, cs => do
    let (c, rest) ← readChar cs
    let (s, rest) ← readString fuel rest
    some (c :: s, rest)

mutual

/-- `json.dumps` with its default separators. -/
def render : Json → List Char
  | .null => ['n', 'u', 'l', 'l']
  | .bool true => ['t', 'r', 'u', 'e']
  | .bool false => ['f', 'a', 'l', 's', 'e']
  | .int n => intText n
  | .float d => decimalText d
  | .str s => stringText s
  | .arr items => '[' :: renderItems items
  | .obj members => '{' :: renderMembers members

def renderItems : List Json → List Char
  | [] => [']']
  | [j] => render j ++ [']']
  | j :: j' :: rest => render j ++ ',' :: ' ' :: renderItems (j' :: rest)

def renderMembers : List (String × Json) → List Char
  | [] => ['}']
  | [(k, j)] => stringText k ++ ':' :: ' ' :: (render j ++ ['}'])
  | (k, j) :: m :: rest =>
    stringText k ++ ':' :: ' ' :: (render j ++ ',' :: ' ' :: renderMembers (m :: rest))

end

def isSpace (c : Char) : Bool := c = ' ' || c = '\t' || c = '\n' || c = '\r'

def skipSpace (cs : List Char) : List Char := cs.dropWhile isSpace

def startsNumber (c : Char) : Bool := c = '-' || c.isDigit

def readNumber (cs : List Char) : Option (Json × List Char) := do
  match ← readNumeral cs with
  | (.int n, rest) => some (.int n, rest)
  | (.decimal d, rest) => some (.float d, rest)

mutual

def readValue : ℕ → List Char → Option (Json × List Char)
  | 0, _ => none
  | fuel + 1, cs =>
    match skipSpace cs with
    | [] => none
    | c :: cs =>
      if startsNumber c then readNumber (c :: cs)
      else if c = '"' then do
        let (s, rest) ← readString fuel cs
        some (.str (String.ofList s), rest)
      else if c = '[' then do
        match skipSpace cs with
        | ']' :: rest => some (.arr [], rest)
        | cs => do
          let (items, rest) ← readItems fuel cs
          some (.arr items, rest)
      else if c = '{' then do
        match skipSpace cs with
        | '}' :: rest => some (.obj [], rest)
        | cs => do
          let (members, rest) ← readMembers fuel cs
          some (.obj members, rest)
      else
        match c :: cs with
        | 'n' :: 'u' :: 'l' :: 'l' :: rest => some (.null, rest)
        | 't' :: 'r' :: 'u' :: 'e' :: rest => some (.bool true, rest)
        | 'f' :: 'a' :: 'l' :: 's' :: 'e' :: rest => some (.bool false, rest)
        | _ => none

def readItems : ℕ → List Char → Option (List Json × List Char)
  | 0, _ => none
  | fuel + 1, cs => do
    let (j, rest) ← readValue fuel cs
    match skipSpace rest with
    | ',' :: rest => do
      let (items, rest) ← readItems fuel rest
      some (j :: items, rest)
    | ']' :: rest => some ([j], rest)
    | _ => none

def readMembers : ℕ → List Char → Option (List (String × Json) × List Char)
  | 0, _ => none
  | fuel + 1, cs => do
    match skipSpace cs with
    | '"' :: cs => do
      let (k, rest) ← readString fuel cs
      match skipSpace rest with
      | ':' :: rest => do
        let (j, rest) ← readValue fuel rest
        match skipSpace rest with
        | ',' :: rest => do
          let (members, rest) ← readMembers fuel rest
          some ((String.ofList k, j) :: members, rest)
        | '}' :: rest => some ([(String.ofList k, j)], rest)
        | _ => none
      | _ => none
    | _ => none

end

def dumps (j : Json) : String := String.ofList (render j)

def loads (s : String) : Option Json :=
  match readValue (s.toList.length + 1) s.toList with
  | some (j, rest) => if skipSpace rest = [] then some j else none
  | none => none

def Json.get? (j : Json) (name : String) : Option Json :=
  match j with
  | .obj members => members.lookup name
  | _ => none

def Json.obj? : Json → Option (List (String × Json))
  | .obj members => some members
  | _ => none

def Json.str? : Json → Option String
  | .str s => some s
  | _ => none

end JsonText
