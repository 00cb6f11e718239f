import Mathlib.Data.List.Basic
import Mathlib.Data.Char

/-!
# Base64 for URLs

* `Base64Url.encode` — three bytes as four digits, without padding.
* `Base64Url.decode` — the digits of a text in either alphabet; other characters are skipped, and
  a last digit that stands alone is dropped.
* `Base64Url.decode_encode` — what was encoded is read back.
-/

namespace Base64Url

/-- The digit of a number below 64. -/
def digit (n : Nat) : Char :=
  Char.ofNat <|
    if n < 26 then 65 + n
    else if n < 52 then 71 + n
    else if n < 62 then n - 4
    else if n = 62 then 45
    else 95

/-- The number that a digit stands for. -/
def digitValue (c : Char) : Option Nat :=
  if 65 ≤ c.toNat ∧ c.toNat ≤ 90 then some (c.toNat - 65)
  else if 97 ≤ c.toNat ∧ c.toNat ≤ 122 then some (c.toNat - 71)
  else if 48 ≤ c.toNat ∧ c.toNat ≤ 57 then some (c.toNat + 4)
  else if c.toNat = 45 ∨ c.toNat = 43 then some 62
  else if c.toNat = 95 ∨ c.toNat = 47 then some 63
  else none

/-- The digits of a byte string, as numbers. -/
def sextets : List UInt8 → List Nat
  | [] => []
  | [a] => [a.toNat / 4, a.toNat % 4 * 16]
  | [a, b] => [a.toNat / 4, a.toNat % 4 * 16 + b.toNat / 16, b.toNat % 16 * 4]
  | a :: b :: c :: rest =>
    a.toNat / 4 :: (a.toNat % 4 * 16 + b.toNat / 16) :: (b.toNat % 16 * 4 + c.toNat / 64) ::
      c.toNat % 64 :: sextets rest

/-- `Buffer.toString("base64url")`. -/
def encode (bytes : List UInt8) : List Char := (sextets bytes).map digit

/-- The bytes of a list of digits. -/
def octets : List Nat → List UInt8
  | a :: b :: c :: d :: rest =>
    UInt8.ofNat (a * 4 + b / 16) :: UInt8.ofNat (b % 16 * 16 + c / 4) ::
      UInt8.ofNat (c % 4 * 64 + d) :: octets rest
  | [a, b, c] => [UInt8.ofNat (a * 4 + b / 16), UInt8.ofNat (b % 16 * 16 + c / 4)]
  | [a, b] => [UInt8.ofNat (a * 4 + b / 16)]
  | _ => []

/-- `Buffer.from(text, "base64url")`. -/
def decode (text : List Char) : List UInt8 := octets (text.filterMap digitValue)

/-! ### Reading an encoding back -/

theorem digitValue_digit : ∀ n < 64, digitValue (digit n) = some n := by decide

theorem sextets_lt (bytes : List UInt8) : ∀ n ∈ sextets bytes, n < 64 := by
  fun_induction sextets bytes with
  | case1 => simp
  | case2 a =>
    have ha := a.toNat_lt
    simp only [List.mem_cons, List.not_mem_nil, or_false]
    omega
  | case3 a b =>
    have ha := a.toNat_lt
    have hb := b.toNat_lt
    simp only [List.mem_cons, List.not_mem_nil, or_false]
    omega
  | case4 a b c rest ih =>
    have ha := a.toNat_lt
    have hb := b.toNat_lt
    have hc := c.toNat_lt
    intro n hn
    simp only [List.mem_cons] at hn
    rcases hn with h | h | h | h | h
    · omega
    · omega
    · omega
    · omega
    · exact ih n h

theorem ofNat_eq {a : UInt8} {n : Nat} (h : n = a.toNat) : UInt8.ofNat n = a := by
  rw [h, UInt8.ofNat_toNat]

theorem octets_sextets (bytes : List UInt8) : octets (sextets bytes) = bytes := by
  fun_induction sextets bytes with
  | case1 => rfl
  | case2 a =>
    rw [octets, ofNat_eq (a := a) (by omega)]
  | case3 a b =>
    have hb := b.toNat_lt
    rw [octets, ofNat_eq (a := a) (by omega), ofNat_eq (a := b) (by omega)]
  | case4 a b c rest ih =>
    have hb := b.toNat_lt
    have hc := c.toNat_lt
    rw [octets, ofNat_eq (a := a) (by omega), ofNat_eq (a := b) (by omega),
      ofNat_eq (a := c) (by omega), ih]

/-- **Round trip.** Decoding what was encoded yields the bytes. -/
theorem decode_encode (bytes : List UInt8) : decode (encode bytes) = bytes := by
  have hdigits : ∀ ns : List Nat, (∀ n ∈ ns, n < 64) →
      (ns.map digit).filterMap digitValue = ns := by
    intro ns hns
    induction ns with
    | nil => rfl
    | cons n ns ih =>
      rw [List.map_cons, List.filterMap_cons, digitValue_digit n (hns n List.mem_cons_self)]
      show n :: _ = n :: ns
      rw [ih fun m hm => hns m (List.mem_cons_of_mem _ hm)]
  rw [decode, encode, hdigits _ (sextets_lt bytes), octets_sextets]

end Base64Url
