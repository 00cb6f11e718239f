import Mathlib
import AgentHost.Lib.Utf8

/-!
# Prefixes of UTF-8 texts

* `Utf8.scan` — what has been read of some bytes, and the character that has begun behind them.
* `Utf8.isContinuation` — the bytes that stand inside a character.
* `Utf8.decodeFatal_prefix` — **Main**: of a well-formed text, a prefix of the bytes stands for a prefix of
  the text where the next byte begins a character, and is malformed where it does not.
-/

namespace Utf8

/-- A byte that is not the first one of a character. -/
def isContinuation (b : UInt8) : Bool := 0x80 ≤ b.toNat && b.toNat ≤ 0xBF

/-- What is read of some bytes, and what has begun behind them. -/
def scan : Option Partial → List UInt8 → List (Option Char) × Option Partial
  | p, [] => ([], p)
  | none, b :: bs =>
    let next := scan (lead b.toNat).2 bs
    ((lead b.toNat).1 ++ next.1, next.2)
  | some p, b :: bs =>
    if p.lower ≤ b.toNat ∧ b.toNat ≤ p.upper then
      let codePoint := p.codePoint * 64 + b.toNat % 64
      if p.needed = 1 then
        let next := scan none bs
        (some (Char.ofNat codePoint) :: next.1, next.2)
      else scan (some ⟨p.needed - 1, 0x80, 0xBF, codePoint⟩) bs
    else
      let next := scan (lead b.toNat).2 bs
      (none :: ((lead b.toNat).1 ++ next.1), next.2)

theorem decodeFrom_append (p : Option Partial) (bytes more : List UInt8) :
    decodeFrom p (bytes ++ more) = (scan p bytes).1 ++ decodeFrom (scan p bytes).2 more := by
  induction bytes generalizing p with
  | nil => cases p <;> rfl
  | cons b bs ih =>
    cases p with
    | none =>
      rw [List.cons_append, decodeFrom, ih, scan]
      dsimp only
      rw [List.append_assoc]
    | some p =>
      rw [List.cons_append, decodeFrom, scan]
      split
      · dsimp only
        split
        · rw [ih]
          rfl
        · rw [ih]
      · rw [ih]
        dsimp only
        rw [List.cons_append, List.append_assoc]

/-- What has begun waits for a byte inside a character. -/
def Partial.Inside (p : Partial) : Prop := 0x80 ≤ p.lower ∧ p.upper ≤ 0xBF

theorem lead_inside {n : Nat} {p : Partial} (h : (lead n).2 = some p) : p.Inside :=
  ⟨(lead_proper h).2.1, (lead_proper h).1⟩

theorem scan_inside (bytes : List UInt8) {p : Option Partial} (hp : ∀ q, p = some q → q.Inside)
    {q : Partial} (h : (scan p bytes).2 = some q) : q.Inside := by
  induction bytes generalizing p with
  | nil =>
    refine hp q ?_
    cases p <;> exact h
  | cons b bs ih =>
    cases p with
    | none =>
      rw [scan] at h
      exact ih (fun _ => lead_inside) h
    | some p =>
      rw [scan] at h
      split at h
      · dsimp only at h
        split at h
        · exact ih (fun _ hq => by cases hq) h
        · refine ih (fun q' hq => ?_) h
          cases hq
          exact ⟨le_refl _, le_refl _⟩
      · exact ih (fun _ => lead_inside) h

theorem lead_continuation {b : UInt8} (h : isContinuation b = true) : (lead b.toNat).1 = [none] := by
  simp only [isContinuation, Bool.and_eq_true, decide_eq_true_eq] at h
  rw [lead, if_neg (by omega), if_neg (by omega), if_neg (by omega), if_neg (by omega)]

theorem scan_cases {bytes more : List UInt8} (h : none ∉ decode (bytes ++ more)) :
    none ∉ (scan none bytes).1 ∧ none ∉ decodeFrom (scan none bytes).2 more := by
  rw [decode, decodeFrom_append, List.mem_append, not_or] at h
  exact h

theorem decode_eq_scan (bytes : List UInt8) :
    decode bytes = (scan none bytes).1 ++ decodeFrom (scan none bytes).2 [] := by
  have happend := decodeFrom_append none bytes []
  rwa [List.append_nil] at happend

/-- Where the next byte begins a character, nothing has begun before it. -/
theorem decode_append {bytes more : List UInt8} (h : none ∉ decode (bytes ++ more))
    (hmore : ∀ b ∈ more.head?, isContinuation b = false) :
    decode (bytes ++ more) = decode bytes ++ decode more := by
  obtain ⟨_, hrest⟩ := scan_cases h
  have hnone : (scan none bytes).2 = none := by
    cases hbegun : (scan none bytes).2 with
    | none => rfl
    | some q =>
      exfalso
      rw [hbegun] at hrest
      cases more with
      | nil => exact hrest List.mem_cons_self
      | cons b more =>
        -- the byte is none that what has begun waits for
        have hinside := scan_inside bytes (fun _ hq => by cases hq) hbegun
        have hb := hmore b rfl
        simp only [isContinuation, Bool.and_eq_false_iff, decide_eq_false_iff_not] at hb
        obtain ⟨hlower, hupper⟩ := hinside
        rw [decodeFrom, if_neg (by omega)] at hrest
        exact hrest List.mem_cons_self
  rw [decode_eq_scan bytes, hnone, decode, decodeFrom_append, hnone]
  show _ = _ ++ [] ++ _
  rw [List.append_nil]
  rfl

/-- Where the next byte is inside a character, the character is broken off. -/
theorem none_mem_decode {bytes more : List UInt8} (h : none ∉ decode (bytes ++ more)) {b : UInt8}
    (hb : b ∈ more.head?) (hinside : isContinuation b = true) : none ∈ decode bytes := by
  obtain ⟨_, hrest⟩ := scan_cases h
  obtain ⟨tail, rfl⟩ : ∃ tail, more = b :: tail := List.head?_eq_some_iff.mp hb
  cases hbegun : (scan none bytes).2 with
  | none =>
    rw [hbegun, decodeFrom, lead_continuation hinside] at hrest
    exact absurd List.mem_cons_self hrest
  | some q =>
    rw [decode_eq_scan, hbegun]
    exact List.mem_append_right _ List.mem_cons_self

/-! ### Texts -/

theorem mapM_id_eq_some {chars : List (Option Char)} {text : List Char} :
    chars.mapM id = some text ↔ chars = text.map some := by
  induction chars generalizing text with
  | nil =>
    rw [List.mapM_nil]
    show some [] = some text ↔ _
    rw [Option.some.injEq]
    cases text <;> simp
  | cons c chars ih =>
    rw [List.mapM_cons]
    cases c with
    | none => cases text <;> simp
    | some c =>
      cases hrest : chars.mapM id with
      | none =>
        have hne : ∀ tail : List Char, chars ≠ tail.map some := by
          intro tail heq
          rw [ih.mpr heq] at hrest
          cases hrest
        constructor
        · intro h
          simp at h
        · intro h
          cases text with
          | nil => cases h
          | cons d tail => exact absurd (List.cons.inj h).2 (hne tail)
      | some tail =>
        have htail := ih.mp hrest
        rw [htail]
        cases text with
        | nil => simp
        | cons d rest =>
          simp [(List.map_injective_iff.mpr (Option.some_injective Char)).eq_iff]

/-- A well-formed text. -/
theorem decodeFatal_eq_some {bytes : List UInt8} {text : List Char} :
    decodeFatal bytes = some text ↔ ∃ raw, decode bytes = raw.map some ∧ dropMark raw = text := by
  rw [decodeFatal, Option.map_eq_some_iff]
  constructor
  · rintro ⟨raw, hraw, htext⟩
    exact ⟨raw, mapM_id_eq_some.mp hraw, htext⟩
  · rintro ⟨raw, hraw, htext⟩
    exact ⟨raw, mapM_id_eq_some.mpr hraw, htext⟩

theorem decodeFatal_of_none_mem {bytes : List UInt8} (h : none ∈ decode bytes) :
    decodeFatal bytes = none := by
  cases htext : decodeFatal bytes with
  | none => rfl
  | some text =>
    obtain ⟨raw, hraw, _⟩ := decodeFatal_eq_some.mp htext
    rw [hraw, List.mem_map] at h
    obtain ⟨c, _, hc⟩ := h
    cases hc

theorem dropMark_prefix {left right : List Char} (h : left <+: right) :
    dropMark left <+: dropMark right := by
  cases left with
  | nil => exact List.nil_prefix
  | cons c left =>
    obtain ⟨tail, rfl⟩ := h
    rw [List.cons_append, dropMark, dropMark]
    split
    · exact List.prefix_append left tail
    · exact List.prefix_append (c :: left) tail

/-- **Main.** A prefix of the bytes of a text stands for a prefix of the text where the next byte begins a
    character, and is malformed where it does not. -/
theorem decodeFatal_prefix {bytes more : List UInt8} {text : List Char}
    (h : decodeFatal (bytes ++ more) = some text) :
    if ∃ b ∈ more.head?, isContinuation b = true then decodeFatal bytes = none
    else ∃ start, decodeFatal bytes = some start ∧ start <+: text := by
  obtain ⟨raw, hraw, rfl⟩ := decodeFatal_eq_some.mp h
  have hvalid : none ∉ decode (bytes ++ more) := by
    rw [hraw, List.mem_map]
    rintro ⟨c, _, hc⟩
    cases hc
  split
  · next hinside =>
    obtain ⟨b, hb, hcontinuation⟩ := hinside
    exact decodeFatal_of_none_mem (none_mem_decode hvalid hb hcontinuation)
  · next hboundary =>
    have hmore : ∀ b ∈ more.head?, isContinuation b = false := by
      intro b hb
      by_contra hcontinuation
      exact hboundary ⟨b, hb, by simpa using hcontinuation⟩
    have hsplit := decode_append hvalid hmore
    rw [hraw] at hsplit
    obtain ⟨left, right, hlr, hleft, _⟩ := List.map_eq_append_iff.mp hsplit
    refine ⟨dropMark left, decodeFatal_eq_some.mpr ⟨left, hleft.symm, rfl⟩, ?_⟩
    exact dropMark_prefix ⟨right, hlr.symm⟩

end Utf8
