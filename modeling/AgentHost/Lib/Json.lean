import Mathlib.Data.Bool.AllAny
import Mathlib.Algebra.BigOperators.Group.List.Basic
import Mathlib.Tactic.Linarith

/-!
# JSON values, their text and its length in bytes

`Json.stringify` is the compact text of a value and `byteLength` the number of UTF-8 bytes
of a text.  What the proofs use is that the length is additive: an array or object of
members with weights `ws` takes `enclosedBytes ws` bytes, whatever the members are.
-/

/-- A JSON value with integral numbers; the members of an object are in their text order. -/
inductive Json
  | null
  | bool (b : Bool)
  | num (n : Int)
  | str (s : String)
  | arr (items : List Json)
  | obj (members : List (String × Json))

namespace Json

/-- The number of bytes of the UTF-8 encoding of a text. -/
def byteLength (s : String) : Nat := s.utf8ByteSize

/-! ### Text -/

/-- The lower-case hexadecimal digit of a number below 16. -/
def hexDigit (n : Nat) : Char := Char.ofNat (if n < 10 then 48 + n else 87 + n)

/-- The text of one character inside a quoted string. -/
def escapeChar (c : Char) : String :=
  if c.toNat = 34 then "\\\""
  else if c.toNat = 92 then "\\\\"
  else if c.toNat = 8 then "\\b"
  else if c.toNat = 9 then "\\t"
  else if c.toNat = 10 then "\\n"
  else if c.toNat = 12 then "\\f"
  else if c.toNat = 13 then "\\r"
  else if c.toNat < 32 then
    "\\u00" ++ String.singleton (hexDigit (c.toNat / 16)) ++
      String.singleton (hexDigit (c.toNat % 16))
  else String.singleton c

/-- The escaped characters of a string, in order. -/
def escapeChars : List Char → String
  | [] => ""
  | c :: cs => escapeChar c ++ escapeChars cs

/-- A string as a JSON text. -/
def quote (s : String) : String := "\"" ++ escapeChars s.toList ++ "\""

/-- The texts of a list of members, separated by commas. -/
def joinComma : List String → String
  | [] => ""
  | [x] => x
  | x :: y :: rest => x ++ "," ++ joinComma (y :: rest)

mutual

/-- The compact text of a value. -/
def stringify : Json → String
  | .null => "null"
  | .bool b => if b then "true" else "false"
  | .num n => toString n
  | .str s => quote s
  | .arr items => "[" ++ joinComma (stringifyItems items) ++ "]"
  | .obj members => "\x7b" ++ joinComma (stringifyMembers members) ++ "\x7d"

/-- The texts of the items of an array. -/
def stringifyItems : List Json → List String
  | [] => []
  | j :: js => stringify j :: stringifyItems js

/-- The texts of the members of an object. -/
def stringifyMembers : List (String × Json) → List String
  | [] => []
  | (k, v) :: ms => (quote k ++ ":" ++ stringify v) :: stringifyMembers ms

end

/-- The number of bytes of the text of a value. -/
def bytes (j : Json) : Nat := byteLength (stringify j)

/-- The number of bytes of a member `key: value` of an object. -/
def memberBytes (member : String × Json) : Nat :=
  byteLength (quote member.1) + 1 + bytes member.2

example : bytes (.obj [("a", .arr [.num 1, .str "x\n"]), ("b", .null)]) = 24 := by decide

/-! ### Characters -/

theorem printable_escapeChar (c d : Char) (h : d ∈ (escapeChar c).toList) : 32 ≤ d.toNat := by
  have hhex : ∀ n < 16, 32 ≤ (hexDigit n).toNat := by decide
  unfold escapeChar at h
  split at h
  next => simp at h; rcases h with rfl | rfl <;> decide
  split at h
  next => simp at h; subst h; decide
  split at h
  next => simp at h; rcases h with rfl | rfl <;> decide
  split at h
  next => simp at h; rcases h with rfl | rfl <;> decide
  split at h
  next => simp at h; rcases h with rfl | rfl <;> decide
  split at h
  next => simp at h; rcases h with rfl | rfl <;> decide
  split at h
  next => simp at h; rcases h with rfl | rfl <;> decide
  split at h
  next hcontrol =>
    have hhigh := hhex (c.toNat / 16) (by omega)
    have hlow := hhex (c.toNat % 16) (by omega)
    simp at h
    rcases h with rfl | rfl | rfl | rfl | rfl | rfl
    all_goals first | decide | assumption
  next hprintable =>
    simp at h
    obtain rfl := h
    omega

theorem printable_quote (s : String) (d : Char) (h : d ∈ (quote s).toList) : 32 ≤ d.toNat := by
  have hchars : ∀ cs : List Char, d ∈ (escapeChars cs).toList → 32 ≤ d.toNat := by
    intro cs
    induction cs with
    | nil => intro hd; cases hd
    | cons c cs ih =>
      rw [escapeChars, String.toList_append, List.mem_append]
      exact fun hd => hd.elim (printable_escapeChar c d) ih
  simp only [quote, String.toList_append, List.mem_append] at h
  rcases h with (h | h) | h
  · simp at h
    obtain rfl := h
    decide
  · exact hchars _ h
  · simp at h
    obtain rfl := h
    decide

theorem printable_joinComma {texts : List String}
    (h : ∀ text ∈ texts, ∀ d ∈ text.toList, 32 ≤ d.toNat) :
    ∀ d ∈ (joinComma texts).toList, 32 ≤ d.toNat := by
  induction texts with
  | nil => intro d hd; cases hd
  | cons x rest ih =>
    have hx := h x List.mem_cons_self
    have hrest := ih fun text htext => h text (List.mem_cons_of_mem _ htext)
    cases rest with
    | nil => exact hx
    | cons y rest =>
      intro d hd
      simp only [joinComma, String.toList_append, List.mem_append] at hd
      rcases hd with (hd | hd) | hd
      · exact hx d hd
      · simp at hd
        obtain rfl := hd
        decide
      · exact hrest d hd

mutual

/-- The text of a value has no control characters. -/
theorem printable_stringify (j : Json) : ∀ d ∈ (stringify j).toList, 32 ≤ d.toNat := by
  match j with
  | .null => exact List.all_iff_forall_prop.mp (by decide)
  | .bool true => exact List.all_iff_forall_prop.mp (by decide)
  | .bool false => exact List.all_iff_forall_prop.mp (by decide)
  | .num n =>
    intro d hd
    have hdigits : ∀ m : Nat, ∀ d ∈ (Nat.repr m).toList, 32 ≤ d.toNat := by
      intro m d hd
      rw [Nat.toList_repr] at hd
      have hdigit := Nat.isDigit_of_mem_toDigits (b := 10) (by decide) (by decide) hd
      simp only [Char.isDigit, Bool.and_eq_true, decide_eq_true_eq, ge_iff_le,
        UInt32.le_iff_toNat_le] at hdigit
      exact le_trans (by decide) hdigit.1
    cases n with
    | ofNat m => exact hdigits m d hd
    | negSucc m =>
      have htext : (toString (Int.negSucc m)).toList = '-' :: (Nat.repr (m + 1)).toList := by
        show ("-" ++ Nat.repr (m + 1)).toList = _
        rw [String.toList_append]
        rfl
      rw [stringify, htext] at hd
      rcases List.mem_cons.mp hd with rfl | hd
      · decide
      · exact hdigits (m + 1) d hd
  | .str s => exact fun d hd => printable_quote s d hd
  | .arr items =>
    intro d hd
    have hitems := printable_joinComma (printable_stringifyItems items) d
    simp only [stringify, String.toList_append, List.mem_append] at hd
    rcases hd with (hd | hd) | hd
    · simp at hd
      obtain rfl := hd
      decide
    · exact hitems hd
    · simp at hd
      obtain rfl := hd
      decide
  | .obj members =>
    intro d hd
    have hmembers := printable_joinComma (printable_stringifyMembers members) d
    simp only [stringify, String.toList_append, List.mem_append] at hd
    rcases hd with (hd | hd) | hd
    · simp at hd
      obtain rfl := hd
      decide
    · exact hmembers hd
    · simp at hd
      obtain rfl := hd
      decide

theorem printable_stringifyItems (items : List Json) :
    ∀ text ∈ stringifyItems items, ∀ d ∈ text.toList, 32 ≤ d.toNat := by
  match items with
  | [] => exact fun text htext => absurd htext List.not_mem_nil
  | j :: js =>
    intro text htext
    rcases List.mem_cons.mp htext with rfl | htext
    · exact printable_stringify j
    · exact printable_stringifyItems js text htext

theorem printable_stringifyMembers (members : List (String × Json)) :
    ∀ text ∈ stringifyMembers members, ∀ d ∈ text.toList, 32 ≤ d.toNat := by
  match members with
  | [] => exact fun text htext => absurd htext List.not_mem_nil
  | (k, v) :: ms =>
    intro text htext
    rcases List.mem_cons.mp htext with rfl | htext
    · intro d hd
      simp only [String.toList_append, List.mem_append] at hd
      rcases hd with (hd | hd) | hd
      · exact printable_quote k d hd
      · simp at hd
        obtain rfl := hd
        decide
      · exact printable_stringify v d hd
    · exact printable_stringifyMembers ms text htext

end

/-! ### Lengths -/

@[simp] theorem byteLength_append (s t : String) :
    byteLength (s ++ t) = byteLength s + byteLength t := String.utf8ByteSize_append

/-- The bytes of a bracketed, comma-separated list of texts of the given lengths. -/
def enclosedBytes (ws : List Nat) : Nat := 1 + max 1 ((ws.map (· + 1)).sum)

theorem enclosedBytes_of_ne_nil {ws : List Nat} (h : ws ≠ []) :
    enclosedBytes ws = 1 + (ws.map (· + 1)).sum := by
  cases ws with
  | nil => exact absurd rfl h
  | cons w ws => simp only [enclosedBytes, List.map_cons, List.sum_cons]; omega

/-- The bytes of a list of texts of the given lengths, each with its separator. -/
def separatedBytes (ws : List Nat) : Nat := (ws.map (· + 1)).sum

theorem enclosedBytes_eq (ws : List Nat) : enclosedBytes ws = 1 + max 1 (separatedBytes ws) := rfl

@[simp] theorem separatedBytes_nil : separatedBytes [] = 0 := rfl

@[simp] theorem separatedBytes_cons (w : Nat) (ws : List Nat) :
    separatedBytes (w :: ws) = w + 1 + separatedBytes ws := by
  simp [separatedBytes]

@[simp] theorem separatedBytes_append (ws vs : List Nat) :
    separatedBytes (ws ++ vs) = separatedBytes ws + separatedBytes vs := by
  simp [separatedBytes]

/-- Only the multiset of the lengths counts. -/
theorem separatedBytes_perm {ws vs : List Nat} (h : ws.Perm vs) :
    separatedBytes ws = separatedBytes vs := (h.map _).sum_eq

theorem separatedBytes_sublist {ws vs : List Nat} (h : ws.Sublist vs) :
    separatedBytes ws ≤ separatedBytes vs := by
  induction h with
  | slnil => exact le_rfl
  | cons v _ ih => rw [separatedBytes_cons]; omega
  | cons_cons v _ ih => rw [separatedBytes_cons, separatedBytes_cons]; omega

theorem enclosedBytes_mono {ws vs : List Nat} (h : separatedBytes ws ≤ separatedBytes vs) :
    enclosedBytes ws ≤ enclosedBytes vs := by
  simp only [enclosedBytes_eq]
  omega

theorem byteLength_joinComma (texts : List String) :
    byteLength (joinComma texts) + 2 = enclosedBytes (texts.map byteLength) := by
  induction texts with
  | nil => rfl
  | cons x rest ih =>
    cases rest with
    | nil =>
      simp only [joinComma, List.map_cons, List.map_nil, enclosedBytes, List.sum_cons, List.sum_nil]
      omega
    | cons y rest =>
      have hcomma : byteLength "," = 1 := rfl
      rw [enclosedBytes_of_ne_nil (by simp)] at ih ⊢
      simp only [joinComma, byteLength_append, hcomma, List.map_cons, List.sum_cons] at ih ⊢
      omega

theorem stringifyItems_eq (items : List Json) : stringifyItems items = items.map stringify := by
  induction items with
  | nil => rfl
  | cons j js ih => rw [stringifyItems, ih, List.map_cons]

theorem byteLength_stringifyMembers (members : List (String × Json)) :
    (stringifyMembers members).map byteLength = members.map memberBytes := by
  induction members with
  | nil => rfl
  | cons m ms ih =>
    obtain ⟨k, v⟩ := m
    have hcolon : byteLength ":" = 1 := rfl
    rw [stringifyMembers, List.map_cons, List.map_cons, ih]
    simp only [byteLength_append, hcolon, memberBytes, bytes]

theorem bytes_arr (items : List Json) : bytes (.arr items) = enclosedBytes (items.map bytes) := by
  have hopen : byteLength "[" = 1 := rfl
  have hclose : byteLength "]" = 1 := rfl
  have hjoin := byteLength_joinComma (stringifyItems items)
  rw [stringifyItems_eq, List.map_map] at hjoin
  have hbytes : bytes (.arr items) = byteLength (joinComma (items.map stringify)) + 2 := by
    simp only [bytes, stringify, stringifyItems_eq, byteLength_append, hopen, hclose]
    omega
  rw [hbytes, hjoin]
  rfl

theorem bytes_obj (members : List (String × Json)) :
    bytes (.obj members) = enclosedBytes (members.map memberBytes) := by
  have hopen : byteLength "\x7b" = 1 := rfl
  have hclose : byteLength "\x7d" = 1 := rfl
  have hjoin := byteLength_joinComma (stringifyMembers members)
  rw [byteLength_stringifyMembers] at hjoin
  rw [← hjoin]
  simp only [bytes, stringify, byteLength_append, hopen, hclose]
  omega

/-! ### Strings that need no escape -/

/-- A printable ASCII character that stands for itself in a quoted string. -/
def plainChar (c : Char) : Bool :=
  32 ≤ c.toNat && c.toNat < 127 && c.toNat ≠ 34 && c.toNat ≠ 92

theorem byteLength_escapeChar {c : Char} (h : plainChar c = true) :
    byteLength (escapeChar c) = 1 := by
  simp only [plainChar, Bool.and_eq_true, decide_eq_true_eq] at h
  obtain ⟨⟨⟨hlow, hhigh⟩, hquote⟩, hslash⟩ := h
  have hsize : c.utf8Size = 1 := by
    have hval : c.val ≤ 0x7f := by
      rw [UInt32.le_iff_toNat_le]
      change c.toNat ≤ 127
      omega
    simp [Char.utf8Size, hval]
  have hself : escapeChar c = String.singleton c := by
    unfold escapeChar
    rw [if_neg hquote, if_neg hslash, if_neg (by omega), if_neg (by omega), if_neg (by omega),
      if_neg (by omega), if_neg (by omega), if_neg (by omega)]
  rw [hself, byteLength, String.utf8ByteSize_singleton, hsize]

theorem byteLength_escapeChars {cs : List Char} (h : cs.all plainChar = true) :
    byteLength (escapeChars cs) = cs.length := by
  induction cs with
  | nil => rfl
  | cons c cs ih =>
    rw [List.all_cons, Bool.and_eq_true] at h
    rw [escapeChars, byteLength_append, byteLength_escapeChar h.1, ih h.2, List.length_cons]
    omega

/-- The text of a plain string is the string between quotes. -/
theorem byteLength_quote {s : String} (h : s.toList.all plainChar = true) :
    byteLength (quote s) = s.length + 2 := by
  have hq : byteLength "\"" = 1 := rfl
  rw [quote, byteLength_append, byteLength_append, byteLength_escapeChars h, hq,
    String.length_toList]
  omega

theorem bytes_str {s : String} (h : s.toList.all plainChar = true) :
    bytes (.str s) = s.length + 2 := byteLength_quote h

end Json
