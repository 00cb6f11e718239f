import Mathlib

/-!
# Decoding UTF-8

The decoder of the language, which reads a byte at a time and yields an error for each maximal
part that cannot be completed.

* `Utf8.decode` — the characters and errors of a byte string.
* `Utf8.decodeLossy` — with a replacement character for each error.
* `Utf8.decodeFatal` — no text where there is an error; one leading byte order mark is dropped.
* `Utf8.decode_encode` — what an encoder wrote is read back.
* `Utf8.decode_ascii` — an ASCII byte is read as itself, whatever stands before it.
* `Utf8.mem_of_mem_decode` — a control character stands for its byte.
-/

namespace Utf8

/-- A character that has begun: how many bytes it still needs, the bounds of the next one, and the
    bits read so far. -/
structure Partial where
  needed : Nat
  lower : Nat
  upper : Nat
  codePoint : Nat

/-- The first byte of a character: what is read already, and what has begun. -/
def lead (b : Nat) : List (Option Char) × Option Partial :=
  if b ≤ 0x7F then ([some (Char.ofNat b)], none)
  else if 0xC2 ≤ b ∧ b ≤ 0xDF then ([], some ⟨1, 0x80, 0xBF, b % 0x20⟩)
  else if 0xE0 ≤ b ∧ b ≤ 0xEF then
    ([], some ⟨2, if b = 0xE0 then 0xA0 else 0x80, if b = 0xED then 0x9F else 0xBF, b % 0x10⟩)
  else if 0xF0 ≤ b ∧ b ≤ 0xF4 then
    ([], some ⟨3, if b = 0xF0 then 0x90 else 0x80, if b = 0xF4 then 0x8F else 0xBF, b % 0x08⟩)
  else ([none], none)

/-- Decode after what has begun.  A byte that does not continue it is read again as a first one. -/
def decodeFrom : Option Partial → List UInt8 → List (Option Char)
  | none, [] => []
  | some _, [] => [none]
  | none, b :: bs => (lead b.toNat).1 ++ decodeFrom (lead b.toNat).2 bs
  | some p, b :: bs =>
    if p.lower ≤ b.toNat ∧ b.toNat ≤ p.upper then
      let codePoint := p.codePoint * 64 + b.toNat % 64
      if p.needed = 1 then some (Char.ofNat codePoint) :: decodeFrom none bs
      else decodeFrom (some ⟨p.needed - 1, 0x80, 0xBF, codePoint⟩) bs
    else none :: ((lead b.toNat).1 ++ decodeFrom (lead b.toNat).2 bs)

/-- The characters of a byte string, `none` where it is malformed. -/
def decode (bytes : List UInt8) : List (Option Char) := decodeFrom none bytes

/-- Errors are read as U+FFFD. -/
def decodeLossy (bytes : List UInt8) : List Char :=
  (decode bytes).map fun c => c.getD (Char.ofNat 0xFFFD)

/-- The byte order mark. -/
def byteOrderMark : Char := Char.ofNat 0xFEFF

/-- A text without one byte order mark at its start. -/
def dropMark : List Char → List Char
  | [] => []
  | c :: cs => if c = byteOrderMark then cs else c :: cs

/-- A decoder that refuses malformed strings and drops the byte order mark. -/
def decodeFatal (bytes : List UInt8) : Option (List Char) := ((decode bytes).mapM id).map dropMark

/-- The encoding of a text. -/
def encode (text : List Char) : List UInt8 := text.flatMap String.utf8EncodeChar

/-! ### Reading an encoding back -/

theorem toNat_ofNat {n : Nat} (h : n < 256) : (UInt8.ofNat n).toNat = n := by
  rw [UInt8.toNat_ofNat', Nat.mod_eq_of_lt h]

theorem ofNat_eq {c : Char} {n : Nat} (h : n = c.toNat) : Char.ofNat n = c := by
  rw [h, Char.ofNat_toNat]

/-- The scalar values. -/
theorem toNat_valid (c : Char) : c.toNat < 0xD800 ∨ 0xDFFF < c.toNat ∧ c.toNat < 0x110000 :=
  c.valid

/-- The bytes of one character are read as that character. -/
theorem decodeFrom_encodeChar (c : Char) (bs : List UInt8) :
    decodeFrom none (String.utf8EncodeChar c ++ bs) = some c :: decodeFrom none bs := by
  have hvalid := toNat_valid c
  unfold String.utf8EncodeChar
  dsimp only
  have hval : c.val.toNat = c.toNat := rfl
  rw [hval]
  split
  · next h1 =>
    rw [List.singleton_append, decodeFrom, toNat_ofNat (by omega), lead, if_pos h1]
    rw [Char.ofNat_toNat]
    rfl
  split
  · next h1 h2 =>
    have hlead : (c.toNat / 64 % 0x20 + 0xc0) < 256 := by omega
    have htail : (c.toNat % 0x40 + 0x80) < 256 := by omega
    rw [List.cons_append, List.singleton_append, decodeFrom, toNat_ofNat hlead, lead,
      if_neg (by omega), if_pos (by omega)]
    dsimp only
    rw [List.nil_append, decodeFrom, toNat_ofNat htail, if_pos (by dsimp only; omega)]
    dsimp only
    rw [if_pos rfl, ofNat_eq (c := c) (by omega)]
  split
  · next h1 h2 h3 =>
    have hlead : (c.toNat / 4096 % 0x10 + 0xe0) < 256 := by omega
    have hnext : (c.toNat / 64 % 0x40 + 0x80) < 256 := by omega
    have htail : (c.toNat % 0x40 + 0x80) < 256 := by omega
    simp only [List.cons_append, List.nil_append]
    rw [decodeFrom, toNat_ofNat hlead, lead, if_neg (by omega), if_neg (by omega),
      if_pos (by omega)]
    dsimp only
    -- the second byte excludes overlong forms and surrogates
    rw [List.nil_append, decodeFrom, toNat_ofNat hnext,
      if_pos (by dsimp only; constructor <;> split <;> omega)]
    dsimp only
    rw [if_neg (by omega), decodeFrom, toNat_ofNat htail, if_pos (by dsimp only; omega)]
    dsimp only
    rw [if_pos rfl, ofNat_eq (c := c) (by omega)]
  · next h1 h2 h3 =>
    have hlead : (c.toNat / 262144 % 0x08 + 0xf0) < 256 := by omega
    have hnext : (c.toNat / 4096 % 0x40 + 0x80) < 256 := by omega
    have hthird : (c.toNat / 64 % 0x40 + 0x80) < 256 := by omega
    have htail : (c.toNat % 0x40 + 0x80) < 256 := by omega
    simp only [List.cons_append, List.nil_append]
    rw [decodeFrom, toNat_ofNat hlead, lead, if_neg (by omega), if_neg (by omega),
      if_neg (by omega), if_pos (by omega)]
    dsimp only
    rw [List.nil_append, decodeFrom, toNat_ofNat hnext,
      if_pos (by dsimp only; constructor <;> split <;> omega)]
    dsimp only
    rw [if_neg (by omega), decodeFrom, toNat_ofNat hthird, if_pos (by dsimp only; omega)]
    dsimp only
    rw [if_neg (by omega), decodeFrom, toNat_ofNat htail, if_pos (by dsimp only; omega)]
    dsimp only
    rw [if_pos rfl, ofNat_eq (c := c) (by omega)]

/-- **Round trip.** Decoding what was encoded yields the text. -/
theorem decode_encode (text : List Char) : decode (encode text) = text.map some := by
  unfold decode encode
  induction text with
  | nil => rfl
  | cons c cs ih => rw [List.flatMap_cons, decodeFrom_encodeChar, ih, List.map_cons]

/-- A text is read back, but for a byte order mark at its start. -/
theorem decodeFatal_encode (text : List Char) :
    decodeFatal (encode text) = some (dropMark text) := by
  have hmap : ∀ cs : List Char, (cs.map some).mapM id = some cs := by
    intro cs
    induction cs with
    | nil => rfl
    | cons c cs ih => simp [ih]
  rw [decodeFatal, decode_encode, hmap]
  rfl

/-! ### ASCII bytes -/

theorem lead_ascii {b : Nat} (h : b ≤ 0x7F) : lead b = ([some (Char.ofNat b)], none) := by
  rw [lead, if_pos h]

/-- What has begun ends where an ASCII byte stands: what is before it and what is after it are read
    on their own. -/
theorem decodeFrom_ascii {b : UInt8} (h : b.toNat ≤ 0x7F) (bs cs : List UInt8) :
    ∀ p : Option Partial, (∀ q, p = some q → 0x80 ≤ q.lower) →
      decodeFrom p (bs ++ b :: cs)
        = decodeFrom p bs ++ some (Char.ofNat b.toNat) :: decodeFrom none cs := by
  have hlower : ∀ n q, (lead n).2 = some q → 0x80 ≤ q.lower := by
    intro n q hq
    unfold lead at hq
    split at hq
    · cases hq
    split at hq
    · cases hq
      exact le_refl _
    split at hq
    · cases hq
      dsimp only
      split <;> omega
    split at hq
    · cases hq
      dsimp only
      split <;> omega
    · cases hq
  induction bs with
  | nil =>
    intro p hp
    cases p with
    | none =>
      show decodeFrom none (b :: cs) = some (Char.ofNat b.toNat) :: decodeFrom none cs
      rw [decodeFrom, lead_ascii h]
      rfl
    | some q =>
      show decodeFrom (some q) (b :: cs) = none :: some (Char.ofNat b.toNat) :: decodeFrom none cs
      have hq := hp q rfl
      rw [decodeFrom, lead_ascii h, if_neg (by omega)]
      rfl
  | cons a as ih =>
    intro p hp
    cases p with
    | none =>
      rw [List.cons_append, decodeFrom, decodeFrom, ih _ (hlower a.toNat), List.append_assoc]
    | some q =>
      rw [List.cons_append, decodeFrom, decodeFrom]
      split
      · dsimp only
        split
        · rw [ih none (fun q hq => by cases hq), List.cons_append]
        · rw [ih _ fun q hq => by cases hq; exact le_refl _]
      · rw [ih _ (hlower a.toNat), List.cons_append, List.append_assoc]

theorem decode_ascii {b : UInt8} (h : b.toNat ≤ 0x7F) (bs cs : List UInt8) :
    decode (bs ++ b :: cs) = decode bs ++ some (Char.ofNat b.toNat) :: decode cs :=
  decodeFrom_ascii h bs cs none fun q hq => by cases hq

theorem decodeLossy_ascii {b : UInt8} (h : b.toNat ≤ 0x7F) (bs cs : List UInt8) :
    decodeLossy (bs ++ b :: cs) = decodeLossy bs ++ Char.ofNat b.toNat :: decodeLossy cs := by
  simp only [decodeLossy, decode_ascii h, List.map_append, List.map_cons, Option.getD_some]

/-- The bits read so far are not all zero, or the next byte will see to it. -/
def Partial.Proper (p : Partial) : Prop :=
  p.upper ≤ 0xBF ∧ 0x80 ≤ p.lower ∧ (1 ≤ p.codePoint ∨ 0x80 < p.lower ∧ p.needed ≠ 1)

theorem lead_proper {n : Nat} {p : Partial} (h : (lead n).2 = some p) : p.Proper := by
  unfold lead at h
  split at h
  · cases h
  split at h
  · cases h
    refine ⟨le_refl _, le_refl _, .inl ?_⟩
    dsimp only
    omega
  split at h
  · cases h
    refine ⟨?_, ?_, ?_⟩
    · dsimp only
      split <;> omega
    · dsimp only
      split <;> omega
    · dsimp only
      split
      · exact .inr ⟨by omega, by omega⟩
      · exact .inl (by omega)
  split at h
  · cases h
    refine ⟨?_, ?_, ?_⟩
    · dsimp only
      split <;> omega
    · dsimp only
      split <;> omega
    · dsimp only
      split
      · exact .inr ⟨by omega, by omega⟩
      · exact .inl (by omega)
  · cases h

theorem toNat_char (n : Nat) : (Char.ofNat n).toNat = if n.isValidChar then n else 0 := by
  unfold Char.ofNat
  split <;> rfl

/-- A character of several bytes is none of the first 64. -/
theorem ofNat_ne {n m : Nat} (hn : 64 ≤ n) (hm : m < 64) (hpos : 0 < m) :
    Char.ofNat n ≠ Char.ofNat m := by
  intro h
  have htoNat := congrArg Char.toNat h
  have hmvalid : m.isValidChar := .inl (by omega)
  rw [toNat_char, toNat_char, if_pos hmvalid] at htoNat
  split at htoNat <;> omega

theorem lead_mem {b a : UInt8} (hb : b.toNat < 64)
    (h : some (Char.ofNat b.toNat) ∈ (lead a.toNat).1) : a = b := by
  unfold lead at h
  split at h
  · next ha =>
    have heq := Option.some.inj (List.mem_singleton.mp h)
    have htoNat := congrArg Char.toNat heq
    have hvalid : ∀ n, n ≤ 0x7F → n.isValidChar := fun n hn => .inl (by omega)
    rw [toNat_char, toNat_char, if_pos (hvalid _ (by omega)), if_pos (hvalid _ ha)]
      at htoNat
    exact UInt8.toNat_inj.mp htoNat.symm
  split at h
  · cases h
  split at h
  · cases h
  split at h
  · cases h
  · cases List.mem_singleton.mp h

theorem mem_of_mem_decodeFrom {b : UInt8} (hb : b.toNat < 64) (hpos : 0 < b.toNat)
    (bs : List UInt8) : ∀ p : Option Partial, (∀ q, p = some q → q.Proper) →
      some (Char.ofNat b.toNat) ∈ decodeFrom p bs → b ∈ bs := by
  induction bs with
  | nil =>
    intro p _ h
    cases p with
    | none => cases h
    | some q => cases List.mem_singleton.mp h
  | cons a as ih =>
    intro p hp h
    have hlead : ∀ rest, rest = (lead a.toNat).1 ++ decodeFrom (lead a.toNat).2 as →
        some (Char.ofNat b.toNat) ∈ rest → b ∈ a :: as := by
      rintro _ rfl hmem
      obtain hmem | hmem := List.mem_append.mp hmem
      · exact lead_mem hb hmem ▸ List.mem_cons_self
      · exact List.mem_cons_of_mem _ (ih _ (fun q hq => lead_proper hq) hmem)
    cases p with
    | none =>
      rw [decodeFrom] at h
      exact hlead _ rfl h
    | some q =>
      obtain ⟨hupper, hlower, hbits⟩ := hp q rfl
      rw [decodeFrom] at h
      split at h
      · next hin =>
        have hone : q.needed = 1 → 1 ≤ q.codePoint := fun hneeded =>
          hbits.resolve_right fun hr => hr.2 hneeded
        dsimp only at h
        split at h
        · next hneeded =>
          obtain heq | hmem := List.mem_cons.mp h
          · have hcode := hone hneeded
            exact absurd (Option.some.inj heq).symm (ofNat_ne (by omega) hb hpos)
          · exact List.mem_cons_of_mem _ (ih none (fun q hq => by cases hq) hmem)
        · refine List.mem_cons_of_mem _ (ih _ (fun q' hq => ?_) h)
          cases hq
          refine ⟨le_refl _, le_refl _, .inl ?_⟩
          dsimp only
          omega
      · obtain heq | hmem := List.mem_cons.mp h
        · cases heq
        · exact hlead _ rfl hmem

/-- A control character is read only where its byte stands. -/
theorem mem_of_mem_decode {b : UInt8} (hb : b.toNat < 64) (hpos : 0 < b.toNat) {bs : List UInt8}
    (h : Char.ofNat b.toNat ∈ decodeLossy bs) : b ∈ bs := by
  obtain ⟨c, hc, heq⟩ := List.mem_map.mp h
  cases c with
  | none =>
    have hne : Char.ofNat 0xFFFD ≠ Char.ofNat b.toNat := ofNat_ne (by decide) hb hpos
    exact absurd heq hne
  | some c =>
    have hc : c = Char.ofNat b.toNat := heq
    subst hc
    exact mem_of_mem_decodeFrom hb hpos bs none (fun q hq => by cases hq) (by assumption)

end Utf8
