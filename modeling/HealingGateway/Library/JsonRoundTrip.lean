import HealingGateway.Library.JsonText

namespace JsonText

open Numerals

theorem hexDigit_cases {n : ℕ} (P : Char → ℕ → Prop)
    (h : ∀ k < 16, P (Nat.digitChar k) k) : P (hexDigit n) (n % 16) :=
  h _ (Nat.mod_lt _ (by decide))

theorem hexValue_hexDigit (n : ℕ) : hexValue (hexDigit n) = some (n % 16) :=
  hexDigit_cases (fun c k ↦ hexValue c = some k) (by decide)

theorem readUnit_unitText {n : ℕ} (hn : n < 65536) (rest : List Char) :
    readUnit ((unitText n).drop 2 ++ rest) = some (n, rest) := by
  have hsum : n / 4096 % 16 * 4096 + n / 256 % 16 * 256 + n / 16 % 16 * 16 + n % 16 = n := by omega
  simp only [unitText, List.drop_succ_cons, List.drop_zero, List.cons_append, List.nil_append,
    readUnit, hexValue_hexDigit, Option.bind_eq_bind, Option.bind_some, hsum]

theorem char_range (c : Char) : c.toNat < 0xD800 ∨ 0xE000 ≤ c.toNat ∧ c.toNat < 0x110000 := by
  rcases c.valid with h | ⟨h, h'⟩
  · exact .inl h
  · exact .inr ⟨h, h'⟩

theorem shortUnescape_shortEscape {c e : Char} (h : shortEscape c = some e) :
    shortUnescape e = some c ∧ e ≠ 'u' := by
  unfold shortEscape at h
  split at h <;> cases h <;> exact ⟨rfl, by decide⟩

theorem readChar_unit {c : Char} (hc : c.toNat < 0x10000) (rest : List Char) :
    readChar (unitText c.toNat ++ rest) = some (c, rest) := by
  have hu := readUnit_unitText hc rest
  have hne : ¬ (0xD800 ≤ c.toNat ∧ c.toNat < 0xDC00) ∧ ¬ (0xDC00 ≤ c.toNat ∧ c.toNat < 0xE000) := by
    have hr := char_range c
    omega
  simp only [unitText, List.drop_succ_cons, List.drop_zero, List.cons_append,
    List.nil_append] at hu
  simp only [unitText, List.cons_append, List.nil_append, readChar, readEscape, hu,
    Option.bind_eq_bind, Option.bind_some, if_neg hne.1, if_neg hne.2, Char.ofNat_toNat]

theorem readChar_surrogates {c : Char} (hc : ¬ c.toNat < 0x10000) (rest : List Char) :
    readChar (unitText (0xD800 + (c.toNat - 0x10000) / 0x400) ++
      unitText (0xDC00 + (c.toNat - 0x10000) % 0x400) ++ rest) = some (c, rest) := by
  have hr := char_range c
  obtain ⟨high, hhigh⟩ : ∃ n, n = 0xD800 + (c.toNat - 0x10000) / 0x400 := ⟨_, rfl⟩
  obtain ⟨low, hlow⟩ : ∃ n, n = 0xDC00 + (c.toNat - 0x10000) % 0x400 := ⟨_, rfl⟩
  have hhigh' : 0xD800 ≤ high ∧ high < 0xDC00 := by omega
  have hlow' : 0xDC00 ≤ low ∧ low < 0xE000 := by omega
  have hsum : 0x10000 + (high - 0xD800) * 0x400 + (low - 0xDC00) = c.toNat := by omega
  have hu := readUnit_unitText (show high < 65536 by omega) (unitText low ++ rest)
  have hu' := readUnit_unitText (show low < 65536 by omega) rest
  rw [← hhigh, ← hlow, List.append_assoc]
  simp only [unitText, List.drop_succ_cons, List.drop_zero, List.cons_append,
    List.nil_append] at hu hu'
  simp only [unitText, List.cons_append, List.nil_append, readChar, readEscape, hu, hu',
    Option.bind_eq_bind, Option.bind_some, if_pos hhigh', if_pos hlow', hsum, Char.ofNat_toNat]

theorem readChar_escape (c : Char) (rest : List Char) :
    readChar (escape c ++ rest) = some (c, rest) := by
  unfold escape
  split
  · next e he =>
    obtain ⟨hu, hne⟩ := shortUnescape_shortEscape he
    simp only [List.cons_append, List.nil_append, readChar]
    unfold readEscape
    split
    · next heq => exact absurd (List.cons.inj heq).1 hne
    · next heq => obtain ⟨rfl, rfl⟩ := List.cons.inj heq; simp [hu]
    · next heq => cases heq
  · next he =>
    split
    · next hp =>
      have hb : c ≠ '\\' := by rintro rfl; simp [shortEscape] at he
      simp only [List.cons_append, List.nil_append]
      unfold readChar
      split
      · next heq => exact absurd (List.cons.inj heq).1 hb
      · next heq =>
        obtain ⟨rfl, rfl⟩ := List.cons.inj heq
        exact if_neg (Char.not_lt.mpr hp.1)
      · next heq => cases heq
    · split
      · next hc => exact readChar_unit hc rest
      · next hc => exact readChar_surrogates hc rest

theorem escape_head (c : Char) : ∃ d ds, escape c = d :: ds ∧ d ≠ '"' := by
  unfold escape
  split
  · exact ⟨_, _, rfl, by decide⟩
  · next he =>
    split
    · exact ⟨c, [], rfl, by rintro rfl; simp [shortEscape] at he⟩
    · split <;> exact ⟨_, _, rfl, by decide⟩

theorem readString_text (s rest : List Char) {fuel : ℕ} (hf : s.length ≤ fuel) :
    readString fuel (s.flatMap escape ++ '"' :: rest) = some (s, rest) := by
  induction s generalizing fuel with
  | nil => cases fuel <;> rfl
  | cons c s ih =>
    cases fuel with
    | zero => simp at hf
    | succ fuel =>
      obtain ⟨d, ds, hd, hne⟩ := escape_head c
      have hread := readChar_escape c (s.flatMap escape ++ '"' :: rest)
      rw [List.flatMap_cons, List.append_assoc]
      rw [hd, List.cons_append] at hread ⊢
      unfold readString
      split
      · next heq => exact absurd (List.cons.inj heq).1 hne
      · next hz _ => cases hz
      · next hn _ =>
        cases hn
        simp only [hread, Option.bind_eq_bind, Option.bind_some,
          ih (show s.length ≤ fuel by simpa using hf)]

theorem length_le_stringText (s : String) : s.toList.length + 2 ≤ (stringText s).length := by
  have h : ∀ cs : List Char, cs.length ≤ (cs.flatMap escape).length := by
    intro cs
    induction cs with
    | nil => simp
    | cons c cs ih =>
      obtain ⟨d, ds, hd, _⟩ := escape_head c
      simp only [List.flatMap_cons, List.length_append, List.length_cons, hd]
      omega
  have hs := h s.toList
  simp only [stringText, List.length_cons, List.length_append, List.length_nil]
  omega

def Closed (rest : List Char) : Prop := Stops rest ∧ rest.head? ≠ some '.'

theorem closed_cons {c : Char} (hd : c.isDigit = false) (hp : c ≠ '.') (rest : List Char) :
    Closed (c :: rest) :=
  ⟨fun d hd' ↦ by
    obtain rfl : c = d := by simpa using hd'
    exact hd, by simpa using hp⟩

theorem closed_nil : Closed [] := ⟨stops_nil, by simp⟩

theorem skipSpace_cons {c : Char} (hc : isSpace c = false) (cs : List Char) :
    skipSpace (c :: cs) = c :: cs := by
  simp [skipSpace, hc]

theorem startsNumber_spec {c : Char} (hc : startsNumber c = true) :
    isSpace c = false ∧ c ≠ ']' := by
  constructor
  · by_contra hs
    simp only [isSpace, Bool.or_eq_true, decide_eq_true_eq, Bool.not_eq_false] at hs
    rcases hs with ((rfl | rfl) | rfl) | rfl <;> exact absurd hc (by decide)
  · rintro rfl
    exact absurd hc (by decide)

theorem signText_append_head (n : ℤ) {ds : List Char} (hd : ∀ c ∈ ds, c.isDigit = true)
    (hne : ds ≠ []) (rest : List Char) :
    ∃ c cs, signText n ++ ds ++ rest = c :: cs ∧ startsNumber c = true := by
  unfold signText
  split
  · exact ⟨'-', ds ++ rest, by simp, by decide⟩
  · cases ds with
    | nil => exact absurd rfl hne
    | cons d ds => exact ⟨d, ds ++ rest, by simp, by simp [startsNumber, hd d (by simp)]⟩

theorem intText_head (n : ℤ) : ∃ c cs, intText n = c :: cs ∧ startsNumber c = true := by
  simpa [intText] using
    signText_append_head n (fun _ hc ↦ natText_isDigit hc) (natText_ne_nil n.natAbs) []

theorem decimalText_head (d : Decimal) :
    ∃ c cs, decimalText d = c :: cs ∧ startsNumber c = true :=
  signText_append_head d.mantissa (fun _ hc ↦ natText_isDigit hc) (natText_ne_nil _) _

theorem render_head (j : Json) : ∃ c cs, render j = c :: cs ∧ isSpace c = false ∧ c ≠ ']' := by
  cases j with
  | null => exact ⟨_, _, rfl, by decide, by decide⟩
  | bool b => cases b <;> exact ⟨_, _, rfl, by decide, by decide⟩
  | int n =>
    obtain ⟨c, cs, h, hc⟩ := intText_head n
    exact ⟨c, cs, h, startsNumber_spec hc⟩
  | float d =>
    obtain ⟨c, cs, h, hc⟩ := decimalText_head d
    exact ⟨c, cs, h, startsNumber_spec hc⟩
  | str s => exact ⟨_, _, rfl, by decide, by decide⟩
  | arr items => exact ⟨_, _, rfl, by decide, by decide⟩
  | obj members => exact ⟨_, _, rfl, by decide, by decide⟩

theorem length_render_pos (j : Json) : 0 < (render j).length := by
  obtain ⟨c, cs, h, _⟩ := render_head j
  rw [h]
  exact Nat.succ_pos _

theorem readValue_number {cs rest : List Char} {j : Json} {fuel : ℕ}
    (hhead : ∃ c cs', cs = c :: cs' ∧ startsNumber c = true)
    (hread : readNumber (cs ++ rest) = some (j, rest)) :
    readValue (fuel + 1) (cs ++ rest) = some (j, rest) := by
  obtain ⟨c, cs', rfl, hc⟩ := hhead
  rw [List.cons_append] at hread ⊢
  simp only [readValue, skipSpace_cons (startsNumber_spec hc).1, if_pos hc, hread]

theorem readValue_string (s : String) (rest : List Char) {fuel : ℕ}
    (hf : (stringText s).length ≤ fuel + 1) :
    readValue (fuel + 1) (stringText s ++ rest) = some (.str s, rest) := by
  have hlen := length_le_stringText s
  have hread := readString_text s.toList rest (show s.toList.length ≤ fuel by omega)
  have hn : startsNumber '"' = false := by decide
  simp only [stringText, List.cons_append, List.append_assoc, List.nil_append, readValue,
    skipSpace_cons (show isSpace '"' = false by decide), hn, Bool.false_eq_true, if_false,
    if_true, hread, Option.bind_eq_bind, Option.bind_some, String.ofList_toList]

theorem renderItems_head (j : Json) (items : List Json) (rest : List Char) :
    ∃ c cs, renderItems (j :: items) ++ rest = c :: cs ∧ isSpace c = false ∧ c ≠ ']' := by
  obtain ⟨c, cs, h, hc⟩ := render_head j
  cases items <;> simp only [renderItems, h, List.cons_append] <;> exact ⟨_, _, rfl, hc⟩

theorem readValue_arr {items : List Json} {rest : List Char} {fuel : ℕ}
    (hread : items ≠ [] → readItems fuel (renderItems items ++ rest) = some (items, rest)) :
    readValue (fuel + 1) ('[' :: (renderItems items ++ rest)) = some (.arr items, rest) := by
  have hn : startsNumber '[' = false := by decide
  simp only [readValue, skipSpace_cons (show isSpace '[' = false by decide), hn,
    Bool.false_eq_true, if_false, show ('[' : Char) ≠ '"' by decide, if_true]
  cases items with
  | nil => simp [renderItems, skipSpace_cons (show isSpace ']' = false by decide)]
  | cons j items =>
    obtain ⟨c, cs, h, hc, hne⟩ := renderItems_head j items rest
    have hread' := hread (by simp)
    rw [h] at hread' ⊢
    rw [skipSpace_cons hc]
    split
    · next heq => exact absurd (List.cons.inj heq).1 hne
    · rw [hread']
      rfl

theorem renderMembers_head (m : String × Json) (members : List (String × Json))
    (rest : List Char) : ∃ cs, renderMembers (m :: members) ++ rest = '"' :: cs := by
  obtain ⟨k, j⟩ := m
  cases members <;> simp only [renderMembers, stringText, List.cons_append] <;> exact ⟨_, rfl⟩

theorem readValue_obj {members : List (String × Json)} {rest : List Char} {fuel : ℕ}
    (hread : members ≠ [] →
      readMembers fuel (renderMembers members ++ rest) = some (members, rest)) :
    readValue (fuel + 1) ('{' :: (renderMembers members ++ rest)) = some (.obj members, rest) := by
  have hn : startsNumber '{' = false := by decide
  simp only [readValue, skipSpace_cons (show isSpace '{' = false by decide), hn,
    Bool.false_eq_true, if_false, show ('{' : Char) ≠ '"' by decide,
    show ('{' : Char) ≠ '[' by decide, if_true]
  cases members with
  | nil => simp [renderMembers, skipSpace_cons (show isSpace '}' = false by decide)]
  | cons m members =>
    obtain ⟨cs, h⟩ := renderMembers_head m members rest
    have hread' := hread (by simp)
    rw [h] at hread' ⊢
    rw [skipSpace_cons (by decide)]
    split
    · next heq => exact absurd (List.cons.inj heq).1 (by decide)
    · rw [hread']
      rfl

theorem skipSpace_space (cs : List Char) : skipSpace (' ' :: cs) = skipSpace cs := rfl

theorem readValue_space (fuel : ℕ) (cs : List Char) :
    readValue fuel (' ' :: cs) = readValue fuel cs := by
  cases fuel <;> simp only [readValue, skipSpace_space]

theorem readItems_space (fuel : ℕ) (cs : List Char) :
    readItems fuel (' ' :: cs) = readItems fuel cs := by
  cases fuel <;> simp only [readItems, readValue_space]

theorem readMembers_space (fuel : ℕ) (cs : List Char) :
    readMembers fuel (' ' :: cs) = readMembers fuel cs := by
  cases fuel <;> simp only [readMembers, skipSpace_space]

mutual

/-- Reading what was rendered gives the value back, with any text behind it that does
not continue a number. Each level of nesting costs one unit of fuel and at least one
character, so the length of the text is fuel enough. -/
theorem readValue_render : ∀ (j : Json) (rest : List Char) (fuel : ℕ), Closed rest →
    (render j).length ≤ fuel → readValue (fuel + 1) (render j ++ rest) = some (j, rest)
  | .null, rest, fuel, _, _ => rfl
  | .bool true, rest, fuel, _, _ => rfl
  | .bool false, rest, fuel, _, _ => rfl
  | .int n, rest, fuel, hr, _ => by
    refine readValue_number (intText_head n) ?_
    simp only [render, readNumber, readNumeral_intText n hr.1 hr.2, Option.bind_eq_bind, Option.bind_some]
  | .float d, rest, fuel, hr, _ => by
    refine readValue_number (decimalText_head d) ?_
    simp only [render, readNumber, readNumeral_decimalText d hr.1, Option.bind_eq_bind, Option.bind_some]
  | .str s, rest, fuel, _, hf => readValue_string s rest (by simp only [render] at hf; omega)
  | .arr items, rest, fuel, _, hf => by
    simp only [render, List.length_cons] at hf
    simp only [render, List.cons_append]
    exact readValue_arr (fun hne ↦ readItems_render items rest fuel hne (by omega))
  | .obj members, rest, fuel, _, hf => by
    simp only [render, List.length_cons] at hf
    simp only [render, List.cons_append]
    exact readValue_obj (fun hne ↦ readMembers_render members rest fuel hne (by omega))

theorem readItems_render : ∀ (items : List Json) (rest : List Char) (fuel : ℕ), items ≠ [] →
    (renderItems items).length < fuel →
    readItems fuel (renderItems items ++ rest) = some (items, rest)
  | [], _, _, hne, _ => absurd rfl hne
  | [j], rest, fuel, _, hf => by
    have hlen := length_render_pos j
    simp only [renderItems, List.length_append, List.length_singleton] at hf
    obtain ⟨fuel, rfl⟩ : ∃ n, fuel = n + 2 := ⟨fuel - 2, by omega⟩
    have hj := readValue_render j (']' :: rest) fuel (closed_cons (by decide) (by decide) rest)
      (by omega)
    simp only [renderItems, List.append_assoc, List.singleton_append, readItems, hj,
      Option.bind_eq_bind, Option.bind_some, skipSpace_cons (show isSpace ']' = false by decide)]
  | j :: j' :: items, rest, fuel, _, hf => by
    have hlen := length_render_pos j
    simp only [renderItems, List.length_append, List.length_cons] at hf
    obtain ⟨fuel, rfl⟩ : ∃ n, fuel = n + 2 := ⟨fuel - 2, by omega⟩
    have hj := readValue_render j (',' :: ' ' :: (renderItems (j' :: items) ++ rest)) fuel
      (closed_cons (by decide) (by decide) _) (by omega)
    have hrest := readItems_render (j' :: items) rest (fuel + 1) (by simp) (by omega)
    simp only [renderItems, List.append_assoc, List.cons_append]
    rw [readItems, hj]
    simp only [Option.bind_eq_bind, Option.bind_some,
      skipSpace_cons (show isSpace ',' = false by decide), readItems_space, hrest]

theorem readMembers_render : ∀ (members : List (String × Json)) (rest : List Char) (fuel : ℕ),
    members ≠ [] → (renderMembers members).length < fuel →
    readMembers fuel (renderMembers members ++ rest) = some (members, rest)
  | [], _, _, hne, _ => absurd rfl hne
  | [(k, j)], rest, fuel, _, hf => by
    have hlen := length_render_pos j
    have hk := length_le_stringText k
    simp only [renderMembers, List.length_append, List.length_cons, List.length_nil] at hf
    obtain ⟨fuel, rfl⟩ : ∃ n, fuel = n + 2 := ⟨fuel - 2, by omega⟩
    have hj := readValue_render j ('}' :: rest) fuel (closed_cons (by decide) (by decide) rest)
      (by omega)
    have hname := readString_text k.toList (':' :: ' ' :: (render j ++ '}' :: rest))
      (show k.toList.length ≤ fuel + 1 by omega)
    simp only [renderMembers, stringText, List.append_assoc, List.cons_append, List.nil_append,
      readMembers, skipSpace_cons (show isSpace '"' = false by decide), hname,
      Option.bind_eq_bind, Option.bind_some, skipSpace_cons (show isSpace ':' = false by decide),
      readValue_space, hj, skipSpace_cons (show isSpace '}' = false by decide),
      String.ofList_toList]
  | (k, j) :: m :: members, rest, fuel, _, hf => by
    have hlen := length_render_pos j
    have hk := length_le_stringText k
    simp only [renderMembers, List.length_append, List.length_cons] at hf
    obtain ⟨fuel, rfl⟩ : ∃ n, fuel = n + 2 := ⟨fuel - 2, by omega⟩
    have hj := readValue_render j (',' :: ' ' :: (renderMembers (m :: members) ++ rest)) fuel
      (closed_cons (by decide) (by decide) _) (by omega)
    have hname := readString_text k.toList
      (':' :: ' ' :: (render j ++ ',' :: ' ' :: (renderMembers (m :: members) ++ rest)))
      (show k.toList.length ≤ fuel + 1 by omega)
    have hrest := readMembers_render (m :: members) rest (fuel + 1) (by simp) (by omega)
    simp only [renderMembers, stringText, List.append_assoc, List.cons_append, List.nil_append]
    rw [readMembers]
    simp only [skipSpace_cons (show isSpace '"' = false by decide), hname,
      Option.bind_eq_bind, Option.bind_some, skipSpace_cons (show isSpace ':' = false by decide),
      readValue_space, hj, skipSpace_cons (show isSpace ',' = false by decide),
      readMembers_space, hrest, String.ofList_toList]

end

/-- `json.loads(json.dumps(j))` is `j`. -/
@[simp] theorem loads_dumps (j : Json) : loads (dumps j) = some j := by
  have h := readValue_render j [] (render j).length closed_nil le_rfl
  rw [List.append_nil] at h
  simp only [loads, dumps, String.toList_ofList, h]
  rfl

theorem dumps_obj_toList (members : List (String × Json)) :
    ∃ cs, (dumps (.obj members)).toList = '{' :: cs := by
  simp only [dumps, String.toList_ofList, render]
  exact ⟨_, rfl⟩

theorem dumps_ne_empty (j : Json) : dumps j ≠ "" := by
  intro h
  have hl := congrArg (fun s ↦ s.toList.length) h
  have hpos := length_render_pos j
  simp only [dumps, String.toList_ofList] at hl
  rw [hl] at hpos
  exact absurd hpos (by decide)

end JsonText
