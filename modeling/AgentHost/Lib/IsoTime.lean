import AgentHost.Lib.Json

/-!
# Time values and their ISO-8601 text

A time value is the number of milliseconds since the Unix epoch.  `toISOString` is its UTC
text in the proleptic Gregorian calendar: 24 bytes in the years 0 to 9999, and 27 bytes,
with a signed six-digit year, outside them.
-/

namespace IsoTime

/-- The calendar day `days` after the epoch: year, month (1 to 12) and day of the month.
    The years run from March, so that the leap day is the last one. -/
def civil (days : Int) : Int × Int × Int :=
  let z := days + 719468
  let dayOfEra := z % 146097
  let yearOfEra := (dayOfEra - dayOfEra / 1460 + dayOfEra / 36524 - dayOfEra / 146096) / 365
  let dayOfYear := dayOfEra - (365 * yearOfEra + yearOfEra / 4 - yearOfEra / 100)
  let marchMonth := (5 * dayOfYear + 2) / 153
  let day := dayOfYear - (153 * marchMonth + 2) / 5 + 1
  let month := if marchMonth < 10 then marchMonth + 3 else marchMonth - 9
  let year := yearOfEra + z / 146097 * 400 + (if month ≤ 2 then 1 else 0)
  (year, month, day)

/-- The calendar year of a time value. -/
def year (ms : Int) : Int := (civil (ms / 86400000)).1

/-- The last `width` decimal digits of a number, with leading zeros. -/
def digits : Nat → Nat → String
  | 0, _ => ""
  | width + 1, n => digits width (n / 10) ++ String.singleton (Char.ofNat (48 + n % 10))

/-- The text of a year: four digits, or a sign and six. -/
def yearText (y : Int) : String :=
  if 0 ≤ y ∧ y ≤ 9999 then digits 4 y.toNat
  else if 0 ≤ y then "+" ++ digits 6 y.toNat
  else "-" ++ digits 6 (-y).toNat

/-- The ISO-8601 text of a time value. -/
def toISOString (ms : Int) : String :=
  let date := civil (ms / 86400000)
  let inDay := (ms % 86400000).toNat
  yearText date.1 ++ "-" ++ digits 2 date.2.1.toNat ++ "-" ++ digits 2 date.2.2.toNat ++ "T" ++
    digits 2 (inDay / 3600000) ++ ":" ++ digits 2 (inDay / 60000 % 60) ++ ":" ++
    digits 2 (inDay / 1000 % 60) ++ "." ++ digits 3 (inDay % 1000) ++ "Z"

example : toISOString 1756080000000 = "2025-08-25T00:00:00.000Z" := by decide
example : toISOString (-62198755200000) = "-000001-01-01T00:00:00.000Z" := by decide

/-- A decimal digit, or one of the separators of the ISO text. -/
def isoChar (c : Char) : Bool := 43 ≤ c.toNat && c.toNat ≤ 90

theorem plainChar_of_isoChar {c : Char} (h : isoChar c = true) : Json.plainChar c = true := by
  simp only [isoChar, Json.plainChar, Bool.and_eq_true, decide_eq_true_eq] at h ⊢
  omega

theorem isoChar_digit (n : Nat) : isoChar (Char.ofNat (48 + n % 10)) = true := by
  have hall : ∀ d < 10, isoChar (Char.ofNat (48 + d)) = true := by decide
  exact hall _ (Nat.mod_lt _ (by decide))

theorem toList_digits (width n : Nat) :
    (digits width n).toList.length = width ∧ (digits width n).toList.all isoChar = true := by
  induction width generalizing n with
  | zero => exact ⟨rfl, rfl⟩
  | succ w ih =>
    obtain ⟨hlen, hall⟩ := ih (n / 10)
    have hd := isoChar_digit n
    rw [digits, String.toList_append, String.toList_singleton]
    exact ⟨by simp [hlen], by simp [List.all_append, hall, hd]⟩

/-- A number below `10 ^ width` is read back from its digits. -/
theorem digits_inj {width n m : Nat} (hn : n < 10 ^ width) (hm : m < 10 ^ width)
    (h : digits width n = digits width m) : n = m := by
  induction width generalizing n m with
  | zero =>
    rw [Nat.pow_zero, Nat.lt_one_iff] at hn hm
    exact hn.trans hm.symm
  | succ w ih =>
    have hdigit : ∀ a < 10, ∀ b < 10, Char.ofNat (48 + a) = Char.ofNat (48 + b) → a = b := by
      decide
    have hlist := congrArg String.toList h
    rw [digits, digits, String.toList_append, String.toList_append, String.toList_singleton,
      String.toList_singleton] at hlist
    obtain ⟨hrest, hlast⟩ := List.append_inj' hlist rfl
    rw [Nat.pow_succ] at hn hm
    have hdiv := ih (Nat.div_lt_of_lt_mul (Nat.mul_comm _ 10 ▸ hn))
      (Nat.div_lt_of_lt_mul (Nat.mul_comm _ 10 ▸ hm)) (String.ext hrest)
    have hmod := hdigit _ (Nat.mod_lt n (by decide)) _ (Nat.mod_lt m (by decide))
      (List.singleton_injective hlast)
    omega

/-- Every character of the digits of a number is one. -/
theorem isDigit_digits (width n : Nat) : (digits width n).toList.all Char.isDigit = true := by
  have hdigit : ∀ d < 10, (Char.ofNat (48 + d)).isDigit = true := by decide
  induction width generalizing n with
  | zero => rfl
  | succ w ih =>
    rw [digits, String.toList_append, String.toList_singleton, List.all_append, ih]
    simpa using hdigit _ (Nat.mod_lt n (by decide))

theorem toList_yearText (y : Int) :
    (yearText y).toList.length = (if 0 ≤ y ∧ y ≤ 9999 then 4 else 7) ∧
      (yearText y).toList.all isoChar = true := by
  have hplus : "+".toList = ['+'] := rfl
  have hminus : "-".toList = ['-'] := rfl
  have hsigns : isoChar '+' = true ∧ isoChar '-' = true := by decide
  unfold yearText
  split
  · exact toList_digits 4 _
  · obtain ⟨hlen, hall⟩ := toList_digits 6 y.toNat
    obtain ⟨hlen', hall'⟩ := toList_digits 6 (-y).toNat
    split
    · rw [String.toList_append, hplus]
      exact ⟨by simp [hlen], by simp [hall, hsigns.1]⟩
    · rw [String.toList_append, hminus]
      exact ⟨by simp [hlen'], by simp [hall', hsigns.2]⟩

theorem toList_toISOString (ms : Int) :
    (toISOString ms).toList.length = (if 0 ≤ year ms ∧ year ms ≤ 9999 then 24 else 27) ∧
      (toISOString ms).toList.all isoChar = true := by
  have hdash : "-".toList = ['-'] := rfl
  have ht : "T".toList = ['T'] := rfl
  have hcolon : ":".toList = [':'] := rfl
  have hdot : ".".toList = ['.'] := rfl
  have hz : "Z".toList = ['Z'] := rfl
  have hchars : isoChar '-' = true ∧ isoChar 'T' = true ∧ isoChar ':' = true ∧
      isoChar '.' = true ∧ isoChar 'Z' = true := by decide
  have hciv : (civil (ms / 86400000)).1 = year ms := rfl
  obtain ⟨hyear, hyearAll⟩ := toList_yearText (year ms)
  have hlen := fun width n => (toList_digits width n).1
  have hall := fun width n => (toList_digits width n).2
  constructor
  · simp only [toISOString, hciv, String.toList_append, List.length_append, hyear, hlen, hdash,
      ht, hcolon, hdot, hz, List.length_singleton]
    split <;> rfl
  · simp only [toISOString, hciv, String.toList_append, List.all_append, hyearAll, hall, hdash, ht,
      hcolon, hdot, hz, List.all_cons, List.all_nil, hchars, Bool.and_self]

/-- The number of bytes of a quoted time text: fixed in the years 0 to 9999, three more
    outside them. -/
theorem bytes_toISOString (ms : Int) :
    Json.bytes (.str (toISOString ms)) = if 0 ≤ year ms ∧ year ms ≤ 9999 then 26 else 29 := by
  obtain ⟨hlen, hall⟩ := toList_toISOString ms
  have hplain : (toISOString ms).toList.all Json.plainChar = true :=
    List.all_eq_true.mpr fun c hc => plainChar_of_isoChar (List.all_eq_true.mp hall c hc)
  rw [Json.bytes_str hplain, ← String.length_toList, hlen]
  split <;> rfl

end IsoTime
