import AgentHost.Lib.Doubles
import AgentHost.Lib.Texts

/-!
# Reading JSON texts

`JSON.parse`: the value that a text stands for, where it stands for one.

* `JsonParse.parse` — the parser.  A lone surrogate escape stands for `U+FFFD`, as a `String` holds
  no surrogate.
* `JsonParse.numberOfText` — the number that a text stands for outside JSON.
* `Json.wellFormed` — a value whose integers are held exactly and whose objects name each member
  once.
* `JsonParse.parse_stringify` — **Main**: the text of such a value stands for that value.
* `Json.stringify_injective` — so different values of this kind have different texts.
-/

namespace JsonParse

/-! ### Characters -/

/-- The white space of JSON texts. -/
def isWhite (c : Char) : Bool := c.toNat = 32 || c.toNat = 9 || c.toNat = 10 || c.toNat = 13

def skipWhite (text : List Char) : List Char := text.dropWhile isWhite

/-- A hexadecimal digit. -/
def hexValue (c : Char) : Option Nat :=
  if 48 ≤ c.toNat ∧ c.toNat ≤ 57 then some (c.toNat - 48)
  else if 97 ≤ c.toNat ∧ c.toNat ≤ 102 then some (c.toNat - 87)
  else if 65 ≤ c.toNat ∧ c.toNat ≤ 70 then some (c.toNat - 55)
  else none

/-- Four hexadecimal digits. -/
def hexUnit : List Char → Option (Nat × List Char)
  | a :: b :: c :: d :: rest => do
    let a ← hexValue a
    let b ← hexValue b
    let c ← hexValue c
    let d ← hexValue d
    return (((a * 16 + b) * 16 + c) * 16 + d, rest)
  | _ => none

/-! ### Strings -/

/-- The second unit of a surrogate pair, where it follows. -/
def lowSurrogate (text : List Char) : Option (Nat × List Char) :=
  match text with
  | '\\' :: 'u' :: rest => (hexUnit rest).filter fun p => 0xDC00 ≤ p.1 && p.1 ≤ 0xDFFF
  | _ => none

/-- A character that is written as `\uXXXX`, after the `u`. -/
def escapedUnit (text : List Char) : Option (Char × List Char) := do
  let (unit, rest) ← hexUnit text
  if 0xD800 ≤ unit ∧ unit ≤ 0xDBFF then
    match lowSurrogate rest with
    | some (low, rest) =>
      some (Char.ofNat (0x10000 + (unit - 0xD800) * 0x400 + (low - 0xDC00)), rest)
    | none => some (Char.ofNat 0xFFFD, rest)
  else if 0xDC00 ≤ unit ∧ unit ≤ 0xDFFF then some (Char.ofNat 0xFFFD, rest)
  else some (Char.ofNat unit, rest)

/-- An escaped character, after the backslash. -/
def escaped : List Char → Option (Char × List Char)
  | [] => none
  | c :: rest =>
    if c.toNat = 34 ∨ c.toNat = 92 ∨ c.toNat = 47 then some (c, rest)
    else if c.toNat = 98 then some (Char.ofNat 8, rest)
    else if c.toNat = 116 then some (Char.ofNat 9, rest)
    else if c.toNat = 110 then some (Char.ofNat 10, rest)
    else if c.toNat = 102 then some (Char.ofNat 12, rest)
    else if c.toNat = 114 then some (Char.ofNat 13, rest)
    else if c.toNat = 117 then escapedUnit rest
    else none

/-- The characters of a string up to its closing quote; `fuel` is the number of characters. -/
def stringBody : Nat → List Char → Option (List Char × List Char)
  | 0, _ => none
  | _ + 1, [] => none
  | fuel + 1, c :: rest =>
    if c.toNat = 34 then some ([], rest)
    else if c.toNat = 92 then do
      let (d, rest) ← escaped rest
      let (cs, rest) ← stringBody fuel rest
      return (d :: cs, rest)
    else if c.toNat < 32 then none
    else do
      let (cs, rest) ← stringBody fuel rest
      return (c :: cs, rest)

/-- A string, after its opening quote. -/
def string (text : List Char) : Option (String × List Char) :=
  (stringBody text.length text).map fun p => (String.ofList p.1, p.2)

/-! ### Numbers -/

/-- The digits at the beginning of a text. -/
def digits (text : List Char) : List Char × List Char := text.span Char.isDigit

/-- The digits behind a decimal point, where there is one. -/
def fraction : List Char → Option (List Char × List Char)
  | c :: rest =>
    if c.toNat = 46 then if (digits rest).1.isEmpty then none else some (digits rest)
    else some ([], c :: rest)
  | [] => some ([], [])

/-- The exponent, where there is one. -/
def exponent : List Char → Option (Int × List Char)
  | c :: rest =>
    if c.toNat = 101 ∨ c.toNat = 69 then
      let (negative, rest) :=
        match rest with
        | '-' :: rest => (true, rest)
        | '+' :: rest => (false, rest)
        | rest => (false, rest)
      let (ds, rest) := digits rest
      if ds.isEmpty then none
      else
        let power : Int := Nat.ofDigitChars 10 ds 0
        some (if negative then -power else power, rest)
    else some (0, c :: rest)
  | [] => some (0, [])

/-- Digits with a decimal exponent. -/
def scaled (ds : List Char) (scale : Int) : ℚ :=
  let value : ℚ := Nat.ofDigitChars 10 ds 0
  if 0 ≤ scale then value * 10 ^ scale.toNat else value / 10 ^ (-scale).toNat

/-- A number without its sign. -/
def magnitude (text : List Char) : Option (ℚ × List Char) := do
  let (whole, rest) := digits text
  if whole.isEmpty || (whole.head? == some '0' && whole.length != 1) then none
  else
    let (part, rest) ← fraction rest
    let (power, rest) ← exponent rest
    return (scaled (whole ++ part) (power - part.length), rest)

def number : List Char → Option (JsonValue × List Char)
  | '-' :: rest => (magnitude rest).map fun p => (.number (Doubles.nearest (-p.1)), p.2)
  | text => (magnitude text).map fun p => (.number (Doubles.nearest p.1), p.2)

/-- A decimal numeral that is a whole text; a leading zero and a point at either end are allowed. -/
def decimal (text : List Char) : Option ℚ := do
  let (whole, rest) := digits text
  let (part, rest) :=
    match rest with
    | '.' :: rest => digits rest
    | rest => ([], rest)
  if whole.isEmpty && part.isEmpty then none
  else
    let (power, rest) ← exponent rest
    if rest.isEmpty then some (scaled (whole ++ part) (power - part.length)) else none

/-- A numeral of another base, after what names the base. -/
def radix (base : Nat) (text : List Char) : Option ℚ := do
  let ds ← text.mapM hexValue
  if ds.isEmpty || ds.any (base ≤ ·) then none
  else some (ds.foldl (fun value d => value * base + d) 0 : Nat)

/-- `Number(text)`; `none` where it is infinite or not a number. -/
def numberOfText (text : String) : Option ℚ :=
  let exact : Option ℚ :=
    match Texts.trim text.toList with
    | [] => some 0
    | '0' :: 'x' :: rest | '0' :: 'X' :: rest => radix 16 rest
    | '0' :: 'o' :: rest | '0' :: 'O' :: rest => radix 8 rest
    | '0' :: 'b' :: rest | '0' :: 'B' :: rest => radix 2 rest
    | '-' :: rest => (decimal rest).map Neg.neg
    | '+' :: rest => decimal rest
    | rest => decimal rest
  exact.bind Doubles.nearest

/-! ### Values -/

/-- A member of an object: the last one with a name counts. -/
def addMember (members : List (String × JsonValue)) (name : String) (value : JsonValue) :
    List (String × JsonValue) :=
  if members.any fun member => member.1 = name then
    members.map fun member => if member.1 = name then (name, value) else member
  else members ++ [(name, value)]

/-- What follows a text at the beginning of another one. -/
def after (start : String) (text : List Char) : Option (List Char) :=
  if start.toList.isPrefixOf text then some (text.drop start.length) else none

mutual

/-- A value; `fuel` bounds the nesting and the number of members. -/
def value : Nat → List Char → Option (JsonValue × List Char)
  | 0, _ => none
  | fuel + 1, text =>
    match skipWhite text with
    | [] => none
    | c :: rest =>
      if c.toNat = 34 then (string rest).map fun p => (.string p.1, p.2)
      else if c.toNat = 91 then
        match skipWhite rest with
        | ']' :: rest => some (.array [], rest)
        | rest => (items fuel rest).map fun p => (.array p.1, p.2)
      else if c.toNat = 123 then
        match skipWhite rest with
        | '\x7d' :: rest => some (.object [], rest)
        | rest => (members fuel [] rest).map fun p => (.object p.1, p.2)
      else if c.toNat = 110 then (after "ull" rest).map fun rest => (.null, rest)
      else if c.toNat = 116 then (after "rue" rest).map fun rest => (.bool true, rest)
      else if c.toNat = 102 then (after "alse" rest).map fun rest => (.bool false, rest)
      else number (c :: rest)

/-- The items of an array, up to its end. -/
def items : Nat → List Char → Option (List JsonValue × List Char)
  | 0, _ => none
  | fuel + 1, text => do
    let (item, rest) ← value fuel text
    match skipWhite rest with
    | ',' :: rest => (items fuel rest).map fun p => (item :: p.1, p.2)
    | ']' :: rest => some ([item], rest)
    | _ => none

/-- The members of an object, up to its end, after those that were read. -/
def members : Nat → List (String × JsonValue) → List Char →
    Option (List (String × JsonValue) × List Char)
  | 0, _, _ => none
  | fuel + 1, read, text =>
    match skipWhite text with
    | '"' :: rest => do
      let (name, rest) ← string rest
      match skipWhite rest with
      | ':' :: rest => do
        let (v, rest) ← value fuel rest
        let read := addMember read name v
        match skipWhite rest with
        | ',' :: rest => members fuel read rest
        | '\x7d' :: rest => some (read, rest)
        | _ => none
      | _ => none
    | _ => none

end

/-- `JSON.parse`, where it does not throw. -/
def parse (text : String) : Option JsonValue :=
  match value (text.toList.length + 1) text.toList with
  | some (v, rest) => if (skipWhite rest).isEmpty then some v else none
  | none => none

end JsonParse

/-! ### Values that are read back -/

namespace Json

mutual

/-- A value whose integers are held exactly and whose objects name each member once. -/
def wellFormed : Json → Bool
  | .num n => decide (n.natAbs ≤ Doubles.maxSafeInteger)
  | .arr items => wellFormedItems items
  | .obj members => decide (members.map Prod.fst).Nodup && wellFormedMembers members
  | _ => true

def wellFormedItems : List Json → Bool
  | [] => true
  | j :: js => wellFormed j && wellFormedItems js

def wellFormedMembers : List (String × Json) → Bool
  | [] => true
  | (_, v) :: ms => wellFormed v && wellFormedMembers ms

end

end Json

namespace JsonParse

open Json

/-! ### Strings -/

theorem eq_ofNat {c : Char} {n : Nat} (h : c.toNat = n) : Char.ofNat n = c := by
  rw [← h, Char.ofNat_toNat]

theorem hexValue_hexDigit : ∀ n < 16, hexValue (hexDigit n) = some n := by decide

/-- What is escaped is read back. -/
theorem stringBody_escapeChar (c : Char) (fuel : Nat) (rest : List Char) :
    stringBody (fuel + 1) ((escapeChar c).toList ++ rest) =
      (stringBody fuel rest).map fun p => (c :: p.1, p.2) := by
  have hback : ∀ d : Char, ∀ tail, escaped (d :: tail) = some (c, rest) →
      stringBody (fuel + 1) ('\\' :: d :: tail) =
        (stringBody fuel rest).map fun p => (c :: p.1, p.2) := by
    intro d tail h
    rw [stringBody, if_neg (by decide), if_pos (by decide), h]
    show (stringBody fuel rest).bind _ = _
    cases hrest : stringBody fuel rest <;> rfl
  unfold escapeChar
  split
  next h => exact hback '"' rest (by rw [← eq_ofNat h]; rfl)
  split
  next h => exact hback '\\' rest (by rw [← eq_ofNat h]; rfl)
  split
  next h => exact hback 'b' rest (by rw [← eq_ofNat h]; rfl)
  split
  next h => exact hback 't' rest (by rw [← eq_ofNat h]; rfl)
  split
  next h => exact hback 'n' rest (by rw [← eq_ofNat h]; rfl)
  split
  next h => exact hback 'f' rest (by rw [← eq_ofNat h]; rfl)
  split
  next h => exact hback 'r' rest (by rw [← eq_ofNat h]; rfl)
  split
  next hcontrol =>
    -- the other control characters are written with four hexadecimal digits
    have hhigh := hexValue_hexDigit (c.toNat / 16) (by omega)
    have hlow := hexValue_hexDigit (c.toNat % 16) (by omega)
    have hunit : (((0 * 16 + 0) * 16 + c.toNat / 16) * 16 + c.toNat % 16) = c.toNat := by omega
    have hzero : hexValue '0' = some 0 := rfl
    have hread : escaped ('u' :: '0' :: '0' :: hexDigit (c.toNat / 16) ::
        hexDigit (c.toNat % 16) :: rest) = some (c, rest) := by
      have hunitRead : hexUnit ('0' :: '0' :: hexDigit (c.toNat / 16) ::
          hexDigit (c.toNat % 16) :: rest) = some (c.toNat, rest) := by
        simp only [hexUnit, hhigh, hlow, hzero, Option.bind_eq_bind, Option.bind_some,
          Option.pure_def, hunit]
      show escapedUnit _ = _
      rw [escapedUnit, hunitRead]
      show ite _ _ _ = _
      rw [if_neg (by omega), if_neg (by omega), Char.ofNat_toNat]
    have htext : ("\\u00" ++ String.singleton (hexDigit (c.toNat / 16)) ++
        String.singleton (hexDigit (c.toNat % 16))).toList ++ rest =
        '\\' :: 'u' :: '0' :: '0' :: hexDigit (c.toNat / 16) ::
          hexDigit (c.toNat % 16) :: rest := by
      simp
    rw [htext]
    exact hback 'u' _ hread
  next h34 h92 _ _ _ _ _ h32 =>
    have htext : (String.singleton c).toList ++ rest = c :: rest := by simp
    rw [htext, stringBody, if_neg h34, if_neg h92, if_neg h32]
    show (stringBody fuel rest).bind _ = _
    cases stringBody fuel rest <;> rfl

theorem stringBody_escapeChars (cs : List Char) (rest : List Char) (fuel : Nat)
    (hfuel : cs.length < fuel) :
    stringBody fuel ((escapeChars cs).toList ++ '"' :: rest) = some (cs, rest) := by
  induction cs generalizing fuel with
  | nil =>
    obtain ⟨fuel, rfl⟩ := Nat.exists_eq_add_of_lt hfuel
    rfl
  | cons c cs ih =>
    obtain ⟨fuel, rfl⟩ : ∃ k, fuel = k + 1 := ⟨fuel - 1, by omega⟩
    rw [escapeChars, String.toList_append, List.append_assoc, stringBody_escapeChar,
      ih fuel (by simpa using hfuel)]
    rfl

theorem length_le_escapeChars (cs : List Char) : cs.length ≤ (escapeChars cs).toList.length := by
  induction cs with
  | nil => exact Nat.le_refl 0
  | cons c cs ih =>
    have hpos : 0 < (escapeChar c).toList.length := by
      unfold escapeChar
      repeat' split
      all_goals simp
    rw [escapeChars, String.toList_append, List.length_append, List.length_cons]
    omega

/-- **Strings.** A quoted string is read back. -/
theorem string_quote (s : String) (rest : List Char) :
    string ((escapeChars s.toList).toList ++ '"' :: rest) = some (s, rest) := by
  have hlength := length_le_escapeChars s.toList
  rw [string, stringBody_escapeChars]
  · rw [Option.map_some, String.ofList_toList]
  · rw [List.length_append, List.length_cons]
    omega

theorem toList_quote (s : String) (rest : List Char) :
    (quote s).toList ++ rest = '"' :: ((escapeChars s.toList).toList ++ '"' :: rest) := by
  simp [quote, String.toList_append]

/-! ### Numbers -/

/-- A text at whose beginning a number ends. -/
def EndsNumber (rest : List Char) : Prop :=
  ∀ c ∈ rest.head?, c.isDigit = false ∧ c.toNat ≠ 46 ∧ c.toNat ≠ 101 ∧ c.toNat ≠ 69

theorem digits_append {ds rest : List Char} (hds : ∀ c ∈ ds, c.isDigit = true)
    (hrest : EndsNumber rest) : digits (ds ++ rest) = (ds, rest) := by
  rw [digits, List.span_eq_takeWhile_dropWhile, List.takeWhile_append_of_pos hds,
    List.dropWhile_append_of_pos hds]
  cases rest with
  | nil => simp
  | cons c rest =>
    have hc := (hrest c rfl).1
    simp [hc]

theorem fraction_of_endsNumber {rest : List Char} (h : EndsNumber rest) :
    fraction rest = some ([], rest) := by
  cases rest with
  | nil => rfl
  | cons c rest => rw [fraction, if_neg (h c rfl).2.1]

theorem exponent_of_endsNumber {rest : List Char} (h : EndsNumber rest) :
    exponent rest = some (0, rest) := by
  cases rest with
  | nil => rfl
  | cons c rest =>
    obtain ⟨_, _, hlower, hupper⟩ := h c rfl
    simp only [exponent, hlower, hupper, or_self, if_false]

theorem head_toDigits {m : Nat} (hm : 0 < m) : (Nat.toDigits 10 m).head? ≠ some '0' := by
  have hdigit : ∀ d < 10, 0 < d → d.digitChar ≠ '0' := by decide
  induction m using Nat.strong_induction_on with
  | _ m ih =>
    rw [Nat.toDigits_eq_if (by decide)]
    split
    · next hbase =>
      rw [List.head?_cons, ne_eq, Option.some.injEq]
      exact hdigit m hbase hm
    · rw [List.head?_append_of_ne_nil _ Nat.toDigits_ne_nil]
      exact ih (m / 10) (by omega) (by omega)

/-- No number but zero is written with a leading zero. -/
theorem leadingZero_toDigits (m : Nat) :
    ((Nat.toDigits 10 m).head? == some '0' && (Nat.toDigits 10 m).length != 1) = false := by
  obtain rfl | hm := Nat.eq_zero_or_pos m
  · rfl
  · rw [beq_eq_false_iff_ne.mpr (head_toDigits hm), Bool.false_and]

theorem magnitude_repr (m : Nat) {rest : List Char} (hrest : EndsNumber rest) :
    magnitude (Nat.toDigits 10 m ++ rest) = some ((m : ℚ), rest) := by
  have hds : ∀ c ∈ Nat.toDigits 10 m, c.isDigit = true := fun c hc =>
    Nat.isDigit_of_mem_toDigits (by decide) (by decide) hc
  have hempty : (Nat.toDigits 10 m).isEmpty = false := by
    rw [List.isEmpty_eq_false_iff]
    exact Nat.toDigits_ne_nil
  simp only [magnitude, digits_append hds hrest, hempty, leadingZero_toDigits, Bool.or_self,
    Bool.false_eq_true, if_false, fraction_of_endsNumber hrest, exponent_of_endsNumber hrest,
    Option.bind_eq_bind, Option.bind_some, Option.pure_def, List.append_nil, List.length_nil]
  simp [scaled, Nat.ofDigitChars_ten_toDigits]

/-- **Numbers.** An integer is read back. -/
theorem number_toString {n : Int} (h : n.natAbs ≤ Doubles.maxSafeInteger) {rest : List Char}
    (hrest : EndsNumber rest) :
    number ((toString n).toList ++ rest) = some (.number (some n), rest) := by
  cases n with
  | ofNat m =>
    have hdigit : ∃ c cs, Nat.toDigits 10 m ++ rest = c :: cs ∧ c ≠ '-' := by
      obtain ⟨c, cs, hcs⟩ := List.exists_cons_of_ne_nil (Nat.toDigits_ne_nil (n := m) (b := 10))
      refine ⟨c, cs ++ rest, by rw [hcs]; rfl, ?_⟩
      rintro rfl
      have hbad := Nat.isDigit_of_mem_toDigits (b := 10) (n := m) (by decide) (by decide)
        (hcs ▸ List.mem_cons_self)
      exact absurd hbad (by decide)
    have htext : (toString (Int.ofNat m)).toList = Nat.toDigits 10 m := Nat.toList_repr
    rw [htext]
    obtain ⟨c, cs, hcs, hc⟩ := hdigit
    have hread := magnitude_repr m hrest
    rw [hcs] at hread ⊢
    rw [number]
    · rw [hread]
      have hfinite := Doubles.nearest_intCast h
      simpa using hfinite
    · intro rest' heq
      exact hc (List.cons.inj heq).1
  | negSucc m =>
    have htext : (toString (Int.negSucc m)).toList = '-' :: Nat.toDigits 10 (m + 1) := by
      show ("-" ++ Nat.repr (m + 1)).toList = _
      rw [String.toList_append, Nat.toList_repr]
      rfl
    rw [htext, List.cons_append, number, magnitude_repr (m + 1) hrest]
    have hfinite := Doubles.nearest_intCast h
    have hcast : ((Int.negSucc m : Int) : ℚ) = -((m + 1 : Nat) : ℚ) := by
      rw [Int.cast_negSucc]
    rw [hcast] at hfinite ⊢
    simp only [Option.map_some, hfinite]

/-! ### Values -/

theorem skipWhite_cons {c : Char} {rest : List Char} (h : isWhite c = false) :
    skipWhite (c :: rest) = c :: rest := by
  rw [skipWhite, List.dropWhile_cons, h]
  rfl

theorem addMember_of_not_mem {read : List (String × JsonValue)} {name : String} {v : JsonValue}
    (h : name ∉ read.map Prod.fst) : addMember read name v = read ++ [(name, v)] := by
  rw [addMember, if_neg]
  rw [List.any_eq_true]
  rintro ⟨member, hmember, heq⟩
  exact h (List.mem_map.mpr ⟨member, hmember, of_decide_eq_true heq⟩)

/-- The name of the next member is new. -/
theorem not_mem_of_nodup_append {names rest : List String} {name : String}
    (h : (names ++ name :: rest).Nodup) : name ∉ names := by
  intro hmem
  exact (List.nodup_append.mp h).2.2 name hmem name List.mem_cons_self rfl

theorem endsNumber_cons {c : Char} (rest : List Char)
    (h : c.isDigit = false ∧ c.toNat ≠ 46 ∧ c.toNat ≠ 101 ∧ c.toNat ≠ 69) :
    EndsNumber (c :: rest) := by
  intro d hd
  obtain rfl := Option.some.inj hd
  exact h

theorem endsNumber_nil : EndsNumber [] := by
  intro c hc
  cases hc

/-- A number begins with its sign or a digit. -/
theorem toString_head (n : Int) : ∃ c cs, (toString n).toList = c :: cs ∧
    (c.toNat = 45 ∨ 48 ≤ c.toNat ∧ c.toNat ≤ 57) := by
  cases n with
  | ofNat m =>
    obtain ⟨c, cs, hcs⟩ := List.exists_cons_of_ne_nil (Nat.toDigits_ne_nil (n := m) (b := 10))
    have hdigit := Nat.isDigit_of_mem_toDigits (b := 10) (n := m) (by decide) (by decide)
      (hcs ▸ List.mem_cons_self)
    refine ⟨c, cs, Nat.toList_repr.trans hcs, .inr ?_⟩
    simp only [Char.isDigit, Bool.and_eq_true, decide_eq_true_eq, ge_iff_le,
      UInt32.le_iff_toNat_le] at hdigit
    exact hdigit
  | negSucc m =>
    refine ⟨'-', (Nat.repr (m + 1)).toList, ?_, .inl rfl⟩
    show ("-" ++ Nat.repr (m + 1)).toList = _
    rw [String.toList_append]
    rfl

/-- How the text of a value begins. -/
theorem stringify_head (j : Json) : ∃ c cs, (stringify j).toList = c :: cs ∧
    isWhite c = false ∧ c ≠ ']' := by
  cases j with
  | null => exact ⟨'n', _, rfl, by decide, by decide⟩
  | bool b =>
    cases b with
    | true => exact ⟨'t', _, rfl, by decide, by decide⟩
    | false => exact ⟨'f', _, rfl, by decide, by decide⟩
  | num n =>
    obtain ⟨c, cs, htext, hc⟩ := toString_head n
    refine ⟨c, cs, htext, ?_, ?_⟩
    · simp only [isWhite, Bool.or_eq_false_iff, decide_eq_false_iff_not]
      omega
    · rintro rfl
      revert hc
      decide
  | str s =>
    refine ⟨'"', (escapeChars s.toList ++ "\"").toList, ?_, by decide, by decide⟩
    simp [stringify, quote]
  | arr items =>
    refine ⟨'[', (joinComma (stringifyItems items) ++ "]").toList, ?_, by decide, by decide⟩
    simp [stringify]
  | obj members =>
    refine ⟨'\x7b', (joinComma (stringifyMembers members) ++ "\x7d").toList, ?_, by decide,
      by decide⟩
    simp [stringify]

/-- Texts with commas between them begin as the first one. -/
theorem joinComma_cons (text : String) (texts : List String) :
    ∃ tail, (joinComma (text :: texts)).toList = text.toList ++ tail := by
  cases texts with
  | nil => exact ⟨[], by simp [joinComma]⟩
  | cons text' texts => exact ⟨',' :: (joinComma (text' :: texts)).toList, by simp [joinComma]⟩

/-- The first member of an object is read. -/
theorem members_quote {fuel : Nat} {read : List (String × JsonValue)} {name : String}
    {text rest : List Char} {v : JsonValue} (hvalue : value fuel text = some (v, rest)) :
    members (fuel + 1) read ((quote name).toList ++ ':' :: text) =
      match skipWhite rest with
      | ',' :: rest => members fuel (addMember read name v) rest
      | '\x7d' :: rest => some (addMember read name v, rest)
      | _ => none := by
  have hquote : isWhite '"' = false := by decide
  have hcolon : isWhite ':' = false := by decide
  rw [toList_quote, members, skipWhite_cons hquote]
  show ((string _).bind _ : Option _) = _
  rw [string_quote, Option.bind_some]
  dsimp only
  rw [skipWhite_cons hcolon]
  show ((value fuel text).bind _ : Option _) = _
  rw [hvalue]
  rfl

/-- Every value that the fuel is enough for is read back. -/
def ReadsValues (fuel : Nat) : Prop :=
  ∀ (j : Json) (rest : List Char), j.wellFormed = true → EndsNumber rest →
    (stringify j).toList.length < fuel →
    value fuel ((stringify j).toList ++ rest) = some (.ofJson j, rest)

/-- Every list of items that the fuel is enough for is read back. -/
def ReadsItems (fuel : Nat) : Prop :=
  ∀ (j : Json) (js : List Json) (rest : List Char), Json.wellFormedItems (j :: js) = true →
    (joinComma (stringifyItems (j :: js))).toList.length + 1 < fuel →
    items fuel ((joinComma (stringifyItems (j :: js))).toList ++ ']' :: rest) =
      some (JsonValue.ofItems (j :: js), rest)

/-- Every list of members that the fuel is enough for is read back. -/
def ReadsMembers (fuel : Nat) : Prop :=
  ∀ (m : String × Json) (ms : List (String × Json)) (read : List (String × JsonValue))
    (rest : List Char), Json.wellFormedMembers (m :: ms) = true →
    (read.map Prod.fst ++ (m :: ms).map Prod.fst).Nodup →
    (joinComma (stringifyMembers (m :: ms))).toList.length + 1 < fuel →
    members fuel read ((joinComma (stringifyMembers (m :: ms))).toList ++ '\x7d' :: rest) =
      some (read ++ JsonValue.ofMembers (m :: ms), rest)

theorem value_number {fuel : Nat} {n : Int} (h : n.natAbs ≤ Doubles.maxSafeInteger)
    {rest : List Char} (hrest : EndsNumber rest) :
    value (fuel + 1) ((toString n).toList ++ rest) = some (.number (some n), rest) := by
  have hnumber := number_toString h hrest
  obtain ⟨c, cs, htext, hc⟩ := toString_head n
  rw [htext, List.cons_append] at hnumber ⊢
  have hwhite : isWhite c = false := by
    simp only [isWhite, Bool.or_eq_false_iff, decide_eq_false_iff_not]
    omega
  rw [value, skipWhite_cons hwhite]
  dsimp only
  rw [if_neg (by omega), if_neg (by omega), if_neg (by omega), if_neg (by omega),
    if_neg (by omega), if_neg (by omega)]
  exact hnumber

theorem value_array {fuel : Nat} (hread : ReadsItems fuel) {j : Json} {js : List Json}
    (h : Json.wellFormedItems (j :: js) = true) {rest : List Char}
    (hfuel : (stringify (.arr (j :: js))).toList.length < fuel + 1) :
    value (fuel + 1) ((stringify (.arr (j :: js))).toList ++ rest) =
      some (.ofJson (.arr (j :: js)), rest) := by
  have htext : (stringify (.arr (j :: js))).toList ++ rest =
      '[' :: ((joinComma (stringifyItems (j :: js))).toList ++ ']' :: rest) := by
    simp [stringify]
  have hlength : (stringify (.arr (j :: js))).toList.length =
      (joinComma (stringifyItems (j :: js))).toList.length + 2 := by
    simp [stringify]
  have hitems := hread j js rest h (by omega)
  rw [htext, value, skipWhite_cons (by decide)]
  dsimp only
  rw [if_neg (by decide), if_pos (by decide)]
  -- the first item is not the end of the array
  obtain ⟨c, cs, hhead, hwhite, hend⟩ := stringify_head j
  obtain ⟨tail, hjoin⟩ := joinComma_cons (stringify j) (stringifyItems js)
  have hfirst : (joinComma (stringifyItems (j :: js))).toList ++ ']' :: rest =
      c :: (cs ++ tail ++ ']' :: rest) := by
    show (joinComma (stringify j :: stringifyItems js)).toList ++ _ = _
    rw [hjoin, hhead]
    simp
  rw [hfirst] at hitems ⊢
  rw [skipWhite_cons hwhite]
  split
  · next heq => exact absurd (List.cons.inj heq).1 hend
  · rw [hitems]
    rfl

theorem value_object {fuel : Nat} (hread : ReadsMembers fuel) {m : String × Json}
    {ms : List (String × Json)} (h : (Json.obj (m :: ms)).wellFormed = true) {rest : List Char}
    (hfuel : (stringify (.obj (m :: ms))).toList.length < fuel + 1) :
    value (fuel + 1) ((stringify (.obj (m :: ms))).toList ++ rest) =
      some (.ofJson (.obj (m :: ms)), rest) := by
  have htext : (stringify (.obj (m :: ms))).toList ++ rest =
      '\x7b' :: ((joinComma (stringifyMembers (m :: ms))).toList ++ '\x7d' :: rest) := by
    simp [stringify]
  have hlength : (stringify (.obj (m :: ms))).toList.length =
      (joinComma (stringifyMembers (m :: ms))).toList.length + 2 := by
    simp [stringify]
  rw [Json.wellFormed, Bool.and_eq_true] at h
  have hmembers := hread m ms [] rest h.2 (of_decide_eq_true h.1) (by omega)
  rw [htext, value, skipWhite_cons (by decide)]
  dsimp only
  rw [if_neg (by decide), if_neg (by decide), if_pos (by decide)]
  obtain ⟨k, v⟩ := m
  obtain ⟨tail, hjoin⟩ := joinComma_cons (quote k ++ ":" ++ stringify v) (stringifyMembers ms)
  have hfirst : ∃ cs, (joinComma (stringifyMembers ((k, v) :: ms))).toList ++ '\x7d' :: rest =
      '"' :: cs := by
    show ∃ cs, (joinComma ((quote k ++ ":" ++ stringify v) ::
      stringifyMembers ms)).toList ++ _ = _
    rw [hjoin, String.toList_append, String.toList_append, List.append_assoc, List.append_assoc,
      List.append_assoc, toList_quote]
    exact ⟨_, rfl⟩
  obtain ⟨cs, hfirst⟩ := hfirst
  rw [hfirst] at hmembers ⊢
  rw [skipWhite_cons (by decide)]
  split
  · next heq => exact absurd (List.cons.inj heq).1 (by decide)
  · rw [hmembers]
    rfl

theorem readsValues_succ {fuel : Nat} (hitems : ReadsItems fuel) (hmembers : ReadsMembers fuel) :
    ReadsValues (fuel + 1) := by
  intro j rest h hrest hfuel
  match j with
  | .null => rfl
  | .bool true => rfl
  | .bool false => rfl
  | .num n => exact value_number (of_decide_eq_true h) hrest
  | .str s =>
    show value (fuel + 1) ((quote s).toList ++ rest) = _
    rw [toList_quote, value, skipWhite_cons (by decide)]
    show ((string _).map _ : Option _) = _
    rw [string_quote]
    rfl
  | .arr [] => rfl
  | .arr (j :: js) => exact value_array hitems h hfuel
  | .obj [] => rfl
  | .obj (m :: ms) => exact value_object hmembers h hfuel

theorem readsItems_succ {fuel : Nat} (hvalues : ReadsValues fuel) (hitems : ReadsItems fuel) :
    ReadsItems (fuel + 1) := by
  intro j js rest h hfuel
  rw [Json.wellFormedItems, Bool.and_eq_true] at h
  cases js with
  | nil =>
    rw [stringifyItems, stringifyItems, joinComma] at hfuel ⊢
    have hvalue := hvalues j (']' :: rest) h.1 (endsNumber_cons _ (by decide)) (by omega)
    rw [items, hvalue]
    rfl
  | cons k ks =>
    have htext : (joinComma (stringifyItems (j :: k :: ks))).toList =
        (stringify j).toList ++ ',' :: (joinComma (stringifyItems (k :: ks))).toList := by
      simp [stringifyItems, joinComma]
    have hlength := congrArg List.length htext
    rw [List.length_append, List.length_cons] at hlength
    rw [htext, List.append_assoc, List.cons_append]
    have hvalue := hvalues j
      (',' :: ((joinComma (stringifyItems (k :: ks))).toList ++ ']' :: rest)) h.1
      (endsNumber_cons _ (by decide)) (by omega)
    have hrest := hitems k ks rest h.2 (by omega)
    rw [items, hvalue]
    show ((items fuel _).map _ : Option _) = _
    rw [hrest]
    rfl

theorem readsMembers_succ {fuel : Nat} (hvalues : ReadsValues fuel)
    (hmembers : ReadsMembers fuel) : ReadsMembers (fuel + 1) := by
  rintro ⟨k, v⟩ ms read rest h hnames hfuel
  rw [Json.wellFormedMembers, Bool.and_eq_true] at h
  have hnew := not_mem_of_nodup_append hnames
  cases ms with
  | nil =>
    have htext : (joinComma (stringifyMembers [(k, v)])).toList ++ '\x7d' :: rest =
        (quote k).toList ++ ':' :: ((stringify v).toList ++ '\x7d' :: rest) := by
      simp [stringifyMembers, joinComma]
    have hlength : (stringify v).toList.length ≤
        (joinComma (stringifyMembers [(k, v)])).toList.length := by
      simp [stringifyMembers, joinComma]
      omega
    have hvalue := hvalues v ('\x7d' :: rest) h.1 (endsNumber_cons _ (by decide)) (by omega)
    rw [htext, members_quote hvalue, addMember_of_not_mem hnew]
    rfl
  | cons n ns =>
    have htext : (joinComma (stringifyMembers ((k, v) :: n :: ns))).toList ++ '\x7d' :: rest =
        (quote k).toList ++ ':' :: ((stringify v).toList ++
          ',' :: ((joinComma (stringifyMembers (n :: ns))).toList ++ '\x7d' :: rest)) := by
      simp [stringifyMembers, joinComma]
    have hlength : (stringify v).toList.length +
        (joinComma (stringifyMembers (n :: ns))).toList.length + 1 ≤
          (joinComma (stringifyMembers ((k, v) :: n :: ns))).toList.length := by
      simp only [stringifyMembers, joinComma, String.toList_append, List.length_append]
      have hcomma : ",".toList.length = 1 := rfl
      omega
    have hvalue := hvalues v
      (',' :: ((joinComma (stringifyMembers (n :: ns))).toList ++ '\x7d' :: rest)) h.1
      (endsNumber_cons _ (by decide)) (by omega)
    have hrest := hmembers n ns (read ++ [(k, .ofJson v)]) rest h.2 (by simpa using hnames)
      (by omega)
    rw [htext, members_quote hvalue, addMember_of_not_mem hnew]
    show members fuel _ _ = _
    rw [hrest]
    simp

/-- **Main.** The text of a well-formed value is read back, with enough fuel. -/
theorem readsValues (fuel : Nat) : ReadsValues fuel := by
  have hall : ReadsValues fuel ∧ ReadsItems fuel ∧ ReadsMembers fuel := by
    -- every recursive call of the parser has less fuel
    induction fuel with
    | zero =>
      exact ⟨fun _ _ _ _ h => absurd h (Nat.not_lt_zero _),
        fun _ _ _ _ h => absurd h (Nat.not_lt_zero _),
        fun _ _ _ _ _ _ h => absurd h (Nat.not_lt_zero _)⟩
    | succ fuel ih =>
      obtain ⟨hvalues, hitems, hmembers⟩ := ih
      exact ⟨readsValues_succ hitems hmembers, readsItems_succ hvalues hitems,
        readsMembers_succ hvalues hmembers⟩
  exact hall.1

/-- **Main.** Reading the text of a well-formed value yields the value. -/
theorem parse_stringify {j : Json} (h : j.wellFormed = true) :
    parse (stringify j) = some (.ofJson j) := by
  have hvalue := readsValues _ j [] h endsNumber_nil (Nat.lt_succ_self _)
  rw [List.append_nil] at hvalue
  rw [parse, hvalue]
  rfl

end JsonParse

/-! ### Texts of different values -/

namespace JsonValue

mutual

theorem ofJson_injective (j j' : Json) (h : ofJson j = ofJson j') : j = j' := by
  match j, j' with
  | .null, j' => cases j' <;> first | rfl | cases h
  | .bool b, j' => cases j' <;> first | cases h; done | (cases h; rfl)
  | .num n, j' =>
    cases j' with
    | num n' => simpa [ofJson] using h
    | _ => cases h
  | .str s, j' => cases j' <;> first | cases h; done | (cases h; rfl)
  | .arr items, j' =>
    cases j' with
    | arr items' => rw [ofItems_injective items items' (JsonValue.array.inj h)]
    | _ => cases h
  | .obj members, j' =>
    cases j' with
    | obj members' => rw [ofMembers_injective members members' (JsonValue.object.inj h)]
    | _ => cases h

theorem ofItems_injective (js js' : List Json) (h : ofItems js = ofItems js') : js = js' := by
  match js, js' with
  | [], [] => rfl
  | [], _ :: _ => cases h
  | _ :: _, [] => cases h
  | j :: js, j' :: js' =>
    obtain ⟨hhead, htail⟩ := List.cons.inj h
    rw [ofJson_injective j j' hhead, ofItems_injective js js' htail]

theorem ofMembers_injective (ms ms' : List (String × Json)) (h : ofMembers ms = ofMembers ms') :
    ms = ms' := by
  match ms, ms' with
  | [], [] => rfl
  | [], _ :: _ => cases h
  | _ :: _, [] => cases h
  | (k, v) :: ms, (k', v') :: ms' =>
    obtain ⟨hhead, htail⟩ := List.cons.inj h
    obtain ⟨hname, hvalue⟩ := Prod.mk.inj hhead
    rw [hname, ofJson_injective v v' hvalue, ofMembers_injective ms ms' htail]

end

end JsonValue

/-- Different well-formed values have different texts. -/
theorem Json.stringify_injective {j j' : Json} (h : j.wellFormed = true)
    (h' : j'.wellFormed = true) (htext : j.stringify = j'.stringify) : j = j' := by
  have hread := JsonParse.parse_stringify h
  rw [htext, JsonParse.parse_stringify h'] at hread
  exact (JsonValue.ofJson_injective j' j (Option.some.inj hread)).symm
