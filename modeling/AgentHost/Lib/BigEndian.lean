import Mathlib.Algebra.Order.Ring.Nat
import Mathlib.Data.List.Basic
import Mathlib.Tactic.Linarith

/-!
# Big-endian numbers

* `bigEndian width n` — the last `width` bytes of a number, the most significant one first.
* `fromBigEndian` — the number of such bytes (`fromBigEndian_bigEndian`, `bigEndian_fromBigEndian`).
* `loadBytes` — the number at an offset.
-/

/-- The last `width` bytes of a number, the most significant one first. -/
def bigEndian : Nat → Nat → List UInt8
  | 0, _ => []
  | width + 1, n => UInt8.ofNat (n / 256 ^ width) :: bigEndian width n

/-- The number of bytes, the most significant one first. -/
def fromBigEndian : List UInt8 → Nat
  | [] => 0
  | b :: rest => b.toNat * 256 ^ rest.length + fromBigEndian rest

/-- The number of `width` bytes at an offset. -/
def loadBytes (bytes : List UInt8) (offset width : Nat) : Nat :=
  fromBigEndian ((bytes.drop offset).take width)

@[simp] theorem length_bigEndian (width n : Nat) : (bigEndian width n).length = width := by
  induction width with
  | zero => rfl
  | succ width ih => rw [bigEndian, List.length_cons, ih]

/-- A number that fits comes back. -/
theorem fromBigEndian_bigEndian {width n : Nat} (h : n < 256 ^ width) :
    fromBigEndian (bigEndian width n) = n := by
  suffices hmod : fromBigEndian (bigEndian width n) = n % 256 ^ width by
    rw [hmod, Nat.mod_eq_of_lt h]
  clear h
  induction width with
  | zero => rw [pow_zero, Nat.mod_one, bigEndian, fromBigEndian]
  | succ width ih =>
    have hbyte : (UInt8.ofNat (n / 256 ^ width)).toNat = n / 256 ^ width % 256 :=
      UInt8.toNat_ofNat'
    have hsplit : n % 256 ^ (width + 1) =
        n % 256 ^ width + 256 ^ width * (n / 256 ^ width % 256) := Nat.mod_pow_succ
    rw [bigEndian, fromBigEndian, ih, length_bigEndian, hbyte, hsplit, Nat.add_comm, Nat.mul_comm]

theorem fromBigEndian_lt (bytes : List UInt8) : fromBigEndian bytes < 256 ^ bytes.length := by
  induction bytes with
  | nil => exact Nat.zero_lt_one
  | cons b rest ih =>
    have hb : b.toNat < 256 := b.toNat_lt
    rw [fromBigEndian, List.length_cons, pow_succ]
    nlinarith

/-- Bytes come back. -/
theorem bigEndian_fromBigEndian (bytes : List UInt8) :
    bigEndian bytes.length (fromBigEndian bytes) = bytes := by
  have hshift : ∀ (width : Nat) (a n : Nat), bigEndian width (a * 256 ^ width + n) =
      bigEndian width n := by
    intro width
    induction width with
    | zero => exact fun _ _ => rfl
    | succ width ih =>
      intro a n
      have hscale : a * 256 ^ (width + 1) = a * 256 * 256 ^ width := by
        rw [pow_succ, Nat.mul_assoc, Nat.mul_comm 256]
      have hbyte : UInt8.ofNat ((a * 256 * 256 ^ width + n) / 256 ^ width) =
          UInt8.ofNat (n / 256 ^ width) := by
        refine UInt8.toNat_inj.mp ?_
        rw [UInt8.toNat_ofNat', UInt8.toNat_ofNat', Nat.add_comm,
          Nat.add_mul_div_right _ _ (Nat.pow_pos (by decide)), Nat.add_mul_mod_self_right]
      rw [bigEndian, bigEndian, hscale, hbyte, ih]
  induction bytes with
  | nil => rfl
  | cons b rest ih =>
    have hlt := fromBigEndian_lt rest
    have hbyte : UInt8.ofNat ((b.toNat * 256 ^ rest.length + fromBigEndian rest) /
        256 ^ rest.length) = b := by
      rw [Nat.add_comm, Nat.add_mul_div_right _ _ (Nat.pow_pos (by decide)),
        Nat.div_eq_of_lt hlt, Nat.zero_add, UInt8.ofNat_toNat]
    rw [fromBigEndian, List.length_cons, bigEndian, hbyte, hshift, ih]
