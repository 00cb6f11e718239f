import Mathlib
import AgentHost.Lib.Json
import AgentHost.Lib.SortBy

/-!
# Parsed JSON values and their texts

`JsonValue` is what parsing a JSON text yields, with every number; `JsonValue.ofJson` embeds the
values of `Json`.  A text is a Lean `String`: its characters are code points, its length for the
language is `utf16Length`.

* `JsonValue.get?` — a member of an object.
* `TextSet` — a fixed set of texts and what they stand for.
* `toLowerCase`, `isSpace` — the texts of the language.
-/

/-- What parsing a JSON text yields.  A numeral that overflows is an infinite number, `none`. -/
inductive JsonValue
  | null
  | bool (value : Bool)
  | number (value : Option ℚ)
  | string (value : String)
  | array (items : List JsonValue)
  | object (members : List (String × JsonValue))

namespace JsonValue

/-! ### Members -/

/-- The value of a member in a list of members. -/
def memberOf (members : List (String × JsonValue)) (name : String) : Option JsonValue :=
  (members.find? fun m => m.1 = name).map Prod.snd

/-- A member of an object; no other value has members. -/
def get? (value : JsonValue) (name : String) : Option JsonValue :=
  match value with
  | .object members => memberOf members name
  | _ => none

/-- `value?.name`. -/
def optionGet? (value : Option JsonValue) (name : String) : Option JsonValue :=
  value.bind fun v => v.get? name

@[simp] theorem get?_object (members : List (String × JsonValue)) (name : String) :
    (object members).get? name = memberOf members name := rfl

@[simp] theorem memberOf_nil (name : String) : memberOf [] name = none := rfl

@[simp] theorem memberOf_cons (key name : String) (value : JsonValue)
    (members : List (String × JsonValue)) :
    memberOf ((key, value) :: members) name
      = if key = name then some value else memberOf members name := by
  by_cases h : key = name <;> simp [memberOf, h]

@[simp] theorem memberOf_append (left right : List (String × JsonValue)) (name : String) :
    memberOf (left ++ right) name = (memberOf left name).or (memberOf right name) := by
  simp only [memberOf, List.find?_append]
  cases List.find? (fun m : String × JsonValue => decide (m.1 = name)) left <;> rfl

/-! ### The embedding of `Json` -/

mutual

/-- A value of `Json`. -/
def ofJson : Json → JsonValue
  | .null => .null
  | .bool b => .bool b
  | .num n => .number (some n)
  | .str s => .string s
  | .arr items => .array (ofItems items)
  | .obj members => .object (ofMembers members)

def ofItems : List Json → List JsonValue
  | [] => []
  | j :: js => ofJson j :: ofItems js

def ofMembers : List (String × Json) → List (String × JsonValue)
  | [] => []
  | (k, v) :: ms => (k, ofJson v) :: ofMembers ms

end

attribute [simp] ofJson ofMembers

theorem ofItems_eq (items : List Json) : ofItems items = items.map ofJson := by
  induction items with
  | nil => rfl
  | cons j js ih => rw [ofItems, ih, List.map_cons]

@[simp] theorem ofMembers_append (left right : List (String × Json)) :
    ofMembers (left ++ right) = ofMembers left ++ ofMembers right := by
  induction left with
  | nil => rfl
  | cons m ms ih => rw [List.cons_append, ofMembers, ofMembers, ih, List.cons_append]

end JsonValue

/-- A finite set of texts, each the text of one element of a type. -/
structure TextSet (α : Type*) where
  all : List α
  text : α → String
  find?_text : ∀ a, all.find? (fun b => text b = text a) = some a

theorem TextSet.text_injective {α : Type*} (texts : TextSet α) : Function.Injective texts.text := by
  intro a b h
  have hfind := texts.find?_text a
  rw [h, texts.find?_text b] at hfind
  exact (Option.some.inj hfind).symm

/-- The element of a set of texts that a value is. -/
def TextSet.ofValue? {α : Type*} (texts : TextSet α) (value : Option JsonValue) : Option α :=
  match value with
  | some (.string s) => texts.all.find? fun a => texts.text a = s
  | _ => none

@[simp] theorem TextSet.ofValue?_text {α : Type*} (texts : TextSet α) (a : α) :
    texts.ofValue? (some (.string (texts.text a))) = some a := texts.find?_text a

theorem TextSet.eq_of_ofValue? {α : Type*} {texts : TextSet α} {value : Option JsonValue} {a : α}
    (h : texts.ofValue? value = some a) : value = some (.string (texts.text a)) := by
  unfold TextSet.ofValue? at h
  split at h
  · next s =>
    have htext : texts.text a = s := by simpa using List.find?_some h
    rw [htext]
  · cases h

/-! ### Texts -/

/-- The length of a text in UTF-16 code units. -/
def utf16Length (s : String) : Nat :=
  (s.toList.map fun c => if 0x10000 ≤ c.toNat then 2 else 1).sum

/-- The lower case of a character.  Besides the ASCII capitals only the Kelvin sign has an ASCII
    letter as its lower case, and the dotted capital `I` has one with a combining dot; the other
    letters, whose lower case is outside ASCII, are left as they are. -/
def lowerChar (c : Char) : List Char :=
  if c.toNat = 0x212A then [Char.ofNat 107]
  else if c.toNat = 0x130 then [Char.ofNat 105, Char.ofNat 0x307]
  else [c.toLower]

/-- `toLowerCase`, for texts that count only where the result is ASCII. -/
def toLowerCase (s : String) : String := String.ofList (s.toList.flatMap lowerChar)

/-- `\s`. -/
def isSpace (c : Char) : Bool :=
  (9 ≤ c.toNat && c.toNat ≤ 13) || c.toNat = 0x20 || c.toNat = 0xA0 || c.toNat = 0x1680 ||
    (0x2000 ≤ c.toNat && c.toNat ≤ 0x200A) || c.toNat = 0x2028 || c.toNat = 0x2029 ||
    c.toNat = 0x202F || c.toNat = 0x205F || c.toNat = 0x3000 || c.toNat = 0xFEFF

/-- A lower-case letter, digit, dot or hyphen of ASCII. -/
def isLowerAscii (c : Char) : Bool :=
  (97 ≤ c.toNat && c.toNat ≤ 122) || (48 ≤ c.toNat && c.toNat ≤ 57) || c.toNat = 45 ||
    c.toNat = 46

theorem lowerChar_of_isLowerAscii {c : Char} (h : isLowerAscii c = true) : lowerChar c = [c] := by
  have hlow : c.toNat ≤ 122 ∧ ¬ (65 ≤ c.toNat ∧ c.toNat ≤ 90) := by
    simp only [isLowerAscii, Bool.or_eq_true, Bool.and_eq_true, decide_eq_true_eq] at h
    omega
  rw [lowerChar, if_neg (by omega), if_neg (by omega)]
  congr 1
  simp only [Char.toLower]
  split
  · next hupper =>
    exfalso
    have h65 : 65 ≤ c.toNat ∧ c.toNat ≤ 90 := hupper
    exact hlow.2 h65
  · rfl

/-- Where the lower case of a character is such a character, it is that one alone, and the
    character takes one code unit. -/
theorem lowerChar_length {c : Char} (h : ∀ d ∈ lowerChar c, isLowerAscii d = true) :
    ∃ d, lowerChar c = [d] ∧ c.toNat < 0x10000 ∧ d.toNat < 0x10000 := by
  by_cases hk : c.toNat = 0x212A
  · rw [lowerChar, if_pos hk]
    exact ⟨_, rfl, by omega, by decide⟩
  by_cases hi : c.toNat = 0x130
  · rw [lowerChar, if_neg hk, if_pos hi] at h
    have hdot := h (Char.ofNat 0x307) (by simp)
    exact absurd hdot (by decide)
  rw [lowerChar, if_neg hk, if_neg hi] at h ⊢
  have hd := h c.toLower List.mem_cons_self
  have hlow : c.toLower.toNat ≤ 122 := by
    simp only [isLowerAscii, Bool.or_eq_true, Bool.and_eq_true, decide_eq_true_eq] at hd
    omega
  refine ⟨c.toLower, rfl, ?_, by omega⟩
  simp only [Char.toLower] at hlow
  split at hlow
  · next hupper =>
    have h90 : 65 ≤ c.toNat ∧ c.toNat ≤ 90 := hupper
    omega
  · omega

/-- Lowering what is lower-case ASCII already leaves it. -/
theorem toLowerCase_of_isLowerAscii {s : String} (h : s.toList.all isLowerAscii = true) :
    toLowerCase s = s := by
  have hmap : ∀ l : List Char, l.all isLowerAscii = true → l.flatMap lowerChar = l := by
    intro l hl
    induction l with
    | nil => rfl
    | cons c l ih =>
      rw [List.all_cons, Bool.and_eq_true] at hl
      rw [List.flatMap_cons, lowerChar_of_isLowerAscii hl.1, ih hl.2]
      rfl
  rw [toLowerCase, hmap _ h, String.ofList_toList]

/-- Lowering to ASCII keeps the length. -/
theorem utf16Length_toLowerCase {s : String} (h : (toLowerCase s).toList.all isLowerAscii = true) :
    utf16Length (toLowerCase s) = utf16Length s := by
  have hmap : ∀ l : List Char, (l.flatMap lowerChar).all isLowerAscii = true →
      ((l.flatMap lowerChar).map fun c => if 0x10000 ≤ c.toNat then 2 else 1).sum
        = (l.map fun c => if 0x10000 ≤ c.toNat then 2 else 1).sum := by
    intro l hl
    induction l with
    | nil => rfl
    | cons c l ih =>
      rw [List.flatMap_cons, List.all_append, Bool.and_eq_true] at hl
      obtain ⟨d, hd, hc, hdlt⟩ := lowerChar_length (List.all_eq_true.mp hl.1)
      have hrest := ih hl.2
      rw [List.flatMap_cons, List.map_append, List.sum_append, hrest, hd]
      simp [not_le.mpr hdlt, not_le.mpr hc]
  rw [toLowerCase, String.toList_ofList] at h
  rw [toLowerCase, utf16Length, utf16Length, String.toList_ofList]
  exact hmap _ h
