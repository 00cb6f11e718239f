import Mathlib
import AgentHost.Lib.DoublesRounding
import AgentHost.Lib.JsonParse

/-!
# The texts of numbers

`Number::toString` for finite doubles: the shortest decimal that is rounded to the double, the closest one
where several are as short, an even one of two that are as close.

* `NumberText.onGrid` — the best multiple of a power of ten; `shortest` — the one on the coarsest grid that
  has any.
* `NumberText.layout` — its digits with a point or an exponent.
* `NumberText.number_text` — **Main**: the text of a double is read as that double.
* `NumberText.text_injective` — so different doubles have different texts.
-/

namespace NumberText

open JsonParse Doubles

/-! ### The shortest decimal -/

/-- Whether a multiple of a power of ten stands for a double. -/
def hits (q : ℚ) (i : ℤ) (n : ℕ) : Bool := 0 < n && nearest (n * 10 ^ i) == some q

/-- The multiple of a power of ten that is closest to a number, an even one in the middle. -/
def closest (q : ℚ) (i : ℤ) : ℕ :=
  let low := ⌊q / 10 ^ i⌋.toNat
  let below := q - low * 10 ^ i
  let above := (low + 1) * 10 ^ i - q
  if below < above ∨ below = above ∧ low % 2 = 0 then low else low + 1

/-- The multiple of a power of ten that is closest to a double among those that stand for it. -/
def onGrid (q : ℚ) (i : ℤ) : Option ℕ :=
  let low := ⌊q / 10 ^ i⌋.toNat
  [closest q i, low, low + 1].find? fun n => hits q i n

/-- So many powers of ten, from one above all doubles on. -/
def grids (count : ℕ) : List ℤ := (List.range count).map fun j : ℕ => 309 - (j : ℤ)

/-- The shortest decimal `n * 10 ^ i` of a positive double. -/
def shortest (q : ℚ) : ℕ × ℤ :=
  ((grids 1384).findSome? fun i => (onGrid q i).map fun n => (n, i)).getD (0, 0)

/-! ### Digits -/

/-- Digits that stand for a multiple of `10 ^ i`, with a point or an exponent. -/
def layout (ds : List Char) (i : ℤ) : List Char :=
  let point := ds.length + i
  if 0 ≤ i ∧ point ≤ 21 then ds ++ List.replicate i.toNat '0'
  else if 0 < point ∧ point ≤ 21 then ds.take point.toNat ++ '.' :: ds.drop point.toNat
  else if -6 < point ∧ point ≤ 0 then '0' :: '.' :: (List.replicate (-point).toNat '0' ++ ds)
  else
    ds.take 1 ++ (if ds.length = 1 then [] else '.' :: ds.drop 1) ++
      'e' :: (if 0 ≤ point - 1 then '+' else '-') :: Nat.toDigits 10 (point - 1).natAbs

def positiveText (q : ℚ) : List Char := layout (Nat.toDigits 10 (shortest q).1) (shortest q).2

/-- `Number::toString`, of a finite number. -/
def text (q : ℚ) : List Char :=
  if q = 0 then ['0'] else if q < 0 then '-' :: positiveText (-q) else positiveText q

/-! ### What the shortest decimal stands for -/

theorem hits_iff {q : ℚ} {i : ℤ} {n : ℕ} :
    hits q i n = true ↔ 0 < n ∧ nearest (n * 10 ^ i) = some q := by
  rw [hits, Bool.and_eq_true, decide_eq_true_iff, beq_iff_eq]

theorem hits_of_onGrid {q : ℚ} {i : ℤ} {n : ℕ} (h : onGrid q i = some n) : hits q i n = true :=
  List.find?_some h

theorem mem_grids {j count : ℕ} (h : j < count) : 309 - (j : ℤ) ∈ grids count := by
  rw [grids, List.mem_map]
  exact ⟨j, List.mem_range.mpr h, rfl⟩

/-- On the grid of `10 ^ -k` a double with at most `k` binary places is found. -/
theorem onGrid_isSome {q : ℚ} (hpos : 0 < q) (h : nearest q = some q) {k : ℕ}
    (hplaces : ∃ z : ℤ, q * 2 ^ k = z) : ∃ n, onGrid q (-k) = some n := by
  obtain ⟨z, hz⟩ := hplaces
  have hten : (10 : ℚ) ^ (-k : ℤ) = (2 ^ k * 5 ^ k)⁻¹ := by
    rw [zpow_neg, zpow_natCast, ← mul_pow]
    norm_num
  have hscaled : q / 10 ^ (-k : ℤ) = ((z * 5 ^ k : ℤ) : ℚ) := by
    rw [hten, div_inv_eq_mul, ← mul_assoc, hz]
    push_cast
    rfl
  have hquotient : 0 < q / 10 ^ (-k : ℤ) := by positivity
  have hint : 0 < z * 5 ^ k := by
    rw [hscaled] at hquotient
    exact_mod_cast hquotient
  have hfloor : ⌊q / 10 ^ (-k : ℤ)⌋.toNat = (z * 5 ^ k).toNat := by
    rw [hscaled, Int.floor_intCast]
  have hcast : (((z * 5 ^ k).toNat : ℕ) : ℚ) = ((z * 5 ^ k : ℤ) : ℚ) := by
    rw [← Int.cast_natCast, Int.toNat_of_nonneg hint.le]
  have hlow : hits q (-k) (z * 5 ^ k).toNat = true := by
    rw [hits_iff]
    refine ⟨by omega, ?_⟩
    rw [hcast, ← hscaled, div_mul_cancel₀ _ (by positivity), h]
  rw [← Option.isSome_iff_exists, onGrid, List.find?_isSome]
  exact ⟨_, by rw [hfloor]; simp, hlow⟩

/-- **The shortest decimal** of a positive double is rounded to it. -/
theorem shortest_spec {q : ℚ} (hpos : 0 < q) (h : nearest q = some q) :
    0 < (shortest q).1 ∧ nearest ((shortest q).1 * 10 ^ (shortest q).2) = some q := by
  obtain ⟨n, hn⟩ := onGrid_isSome hpos h (exists_multiple h)
  cases hfind : (grids 1384).findSome? fun i => (onGrid q i).map fun n => (n, i) with
  | none =>
    have hmem := mem_grids (show 1383 < 1384 by norm_num)
    have hpower : (309 : ℤ) - ((1383 : ℕ) : ℤ) = -((1074 : ℕ) : ℤ) := by norm_num
    rw [hpower] at hmem
    have hnone := List.findSome?_eq_none_iff.mp hfind _ hmem
    rw [hn] at hnone
    cases hnone
  | some found =>
    obtain ⟨i, _, hi⟩ := List.exists_of_findSome?_eq_some hfind
    obtain ⟨m, hm, rfl⟩ := Option.map_eq_some_iff.mp hi
    rw [shortest, hfind]
    exact hits_iff.mp (hits_of_onGrid hm)

/-! ### Reading decimals -/

theorem scaled_eq (ds : List Char) (i : ℤ) :
    scaled ds i = (Nat.ofDigitChars 10 ds 0 : ℚ) * 10 ^ i := by
  unfold scaled
  dsimp only
  split
  · next h =>
    rw [← zpow_natCast, Int.toNat_of_nonneg h]
  · next h =>
    rw [← zpow_natCast, Int.toNat_of_nonneg (by omega), zpow_neg, div_inv_eq_mul]

/-- The digits behind the point. -/
def pointText (part : List Char) : List Char := if part = [] then [] else '.' :: part

/-- A power of ten, where there is one. -/
def powerText : Option ℤ → List Char
  | none => []
  | some e => 'e' :: (if 0 ≤ e then '+' else '-') :: Nat.toDigits 10 e.natAbs

theorem toDigits_isDigit {n : ℕ} : ∀ c ∈ Nat.toDigits 10 n, c.isDigit = true := fun _ hc =>
  Nat.isDigit_of_mem_toDigits (by decide) (by decide) hc

theorem digits_of_head {ds rest : List Char} (hds : ∀ c ∈ ds, c.isDigit = true)
    (hrest : ∀ c ∈ rest.head?, c.isDigit = false) : digits (ds ++ rest) = (ds, rest) := by
  rw [digits, List.span_eq_takeWhile_dropWhile, List.takeWhile_append_of_pos hds,
    List.dropWhile_append_of_pos hds]
  cases rest with
  | nil => simp
  | cons c rest => simp [hrest c rfl]

theorem head_powerText {e : Option ℤ} {rest : List Char} (hrest : EndsNumber rest) :
    ∀ c ∈ (powerText e ++ rest).head?, c.isDigit = false ∧ c.toNat ≠ 46 := by
  cases e with
  | none => exact fun c hc => ⟨(hrest c hc).1, (hrest c hc).2.1⟩
  | some e =>
    intro c hc
    obtain rfl := Option.some.inj hc
    decide

theorem head_pointText {part : List Char} {e : Option ℤ} {rest : List Char}
    (hrest : EndsNumber rest) :
    ∀ c ∈ (pointText part ++ (powerText e ++ rest)).head?, c.isDigit = false := by
  unfold pointText
  split
  · exact fun c hc => (head_powerText hrest c hc).1
  · intro c hc
    obtain rfl := Option.some.inj hc
    decide

theorem fraction_pointText {part : List Char} (hpart : ∀ c ∈ part, c.isDigit = true)
    {e : Option ℤ} {rest : List Char} (hrest : EndsNumber rest) :
    fraction (pointText part ++ (powerText e ++ rest)) = some (part, powerText e ++ rest) := by
  have hhead := head_powerText (e := e) hrest
  unfold pointText
  split
  · next hnil =>
    rw [List.nil_append, hnil]
    cases htail : powerText e ++ rest with
    | nil => rfl
    | cons c tail =>
      rw [htail] at hhead
      rw [fraction, if_neg (hhead c rfl).2]
  · next hne =>
    have hdigits := digits_of_head hpart fun c hc => (hhead c hc).1
    rw [List.cons_append, fraction, if_pos (by decide), hdigits,
      if_neg (by simpa using hne)]

theorem exponent_powerText {e : Option ℤ} {rest : List Char} (hrest : EndsNumber rest) :
    exponent (powerText e ++ rest) = some (e.getD 0, rest) := by
  cases e with
  | none => exact exponent_of_endsNumber hrest
  | some e =>
    have hdigits := digits_append (toDigits_isDigit (n := e.natAbs)) hrest
    have hne : (Nat.toDigits 10 e.natAbs).isEmpty = false :=
      List.isEmpty_eq_false_iff.mpr Nat.toDigits_ne_nil
    have hvalue : Nat.ofDigitChars 10 (Nat.toDigits 10 e.natAbs) 0 = e.natAbs :=
      Nat.ofDigitChars_ten_toDigits
    have hletter : ('e'.toNat = 101 ∨ 'e'.toNat = 69) = True := by decide
    by_cases hsign : 0 ≤ e
    · have hback : ((e.natAbs : ℕ) : ℤ) = e := Int.natAbs_of_nonneg hsign
      simp only [powerText, if_pos hsign, List.cons_append, exponent, hletter, if_true, hdigits,
        hne, hvalue, Bool.false_eq_true, if_false, Option.getD_some, hback]
    · have hback : -((e.natAbs : ℕ) : ℤ) = e := by omega
      simp only [powerText, if_neg hsign, List.cons_append, exponent, hletter, if_true, hdigits,
        hne, hvalue, Bool.false_eq_true, if_false, Option.getD_some, hback]

/-- **Decimals.** Digits with a point and an exponent are read as what they stand for. -/
theorem magnitude_decimal {whole part : List Char} (hne : whole ≠ [])
    (hwhole : ∀ c ∈ whole, c.isDigit = true) (hpart : ∀ c ∈ part, c.isDigit = true)
    (hzero : whole.head? ≠ some '0' ∨ whole.length = 1) (e : Option ℤ) {rest : List Char}
    (hrest : EndsNumber rest) :
    magnitude (whole ++ (pointText part ++ (powerText e ++ rest))) =
      some ((Nat.ofDigitChars 10 (whole ++ part) 0 : ℚ) * 10 ^ (e.getD 0 - part.length), rest) := by
  have hempty : whole.isEmpty = false := List.isEmpty_eq_false_iff.mpr hne
  have hleading : (whole.head? == some '0' && whole.length != 1) = false := by
    rcases hzero with hhead | hlength
    · rw [beq_eq_false_iff_ne.mpr hhead, Bool.false_and]
    · rw [hlength, Bool.and_eq_false_iff]
      exact .inr rfl
  simp only [magnitude, digits_of_head hwhole (head_pointText hrest), hempty, hleading,
    Bool.or_self, Bool.false_eq_true, if_false, fraction_pointText hpart hrest,
    exponent_powerText hrest, Option.bind_eq_bind, Option.bind_some, Option.pure_def, scaled_eq]

/-! ### Reading layouts -/

theorem isDigit_replicate {k : ℕ} : ∀ c ∈ List.replicate k '0', c.isDigit = true := by
  intro c hc
  rw [List.eq_of_mem_replicate hc]
  decide

/-- A layout is a decimal with a point or an exponent. -/
theorem layout_decimal {ds : List Char} (hne : ds ≠ []) (hds : ∀ c ∈ ds, c.isDigit = true)
    (hhead : ds.head? ≠ some '0') (i : ℤ) :
    ∃ whole part, ∃ e : Option ℤ, layout ds i = whole ++ (pointText part ++ powerText e) ∧
      whole ≠ [] ∧ (∀ c ∈ whole, c.isDigit = true) ∧ (∀ c ∈ part, c.isDigit = true) ∧
      (whole.head? ≠ some '0' ∨ whole.length = 1) ∧
      (Nat.ofDigitChars 10 (whole ++ part) 0 : ℚ) * 10 ^ (e.getD 0 - part.length) =
        Nat.ofDigitChars 10 ds 0 * 10 ^ i := by
  have hlength : 0 < ds.length := List.length_pos_iff.mpr hne
  unfold layout
  dsimp only
  split
  · -- all digits stand before the point
    next h =>
    refine ⟨ds ++ List.replicate i.toNat '0', [], none, by simp [pointText, powerText], by simp [hne],
      ?_, by simp, .inl ?_, ?_⟩
    · intro c hc
      rcases List.mem_append.mp hc with hc | hc
      · exact hds c hc
      · exact isDigit_replicate c hc
    · rwa [List.head?_append_of_ne_nil _ hne]
    · rw [List.append_nil, Nat.ofDigitChars_append, Nat.ofDigitChars_replicate_zero]
      obtain ⟨k, rfl⟩ := Int.eq_ofNat_of_zero_le h.1
      simp [mul_comm]
  split
  · -- the point stands between them
    next hall h =>
    have hneg : i < 0 := by omega
    have hdrop : ds.drop (ds.length + i).toNat ≠ [] := by
      rw [ne_eq, List.drop_eq_nil_iff]
      omega
    have htake : ds.take (ds.length + i).toNat ≠ [] := by
      rw [ne_eq, List.take_eq_nil_iff, not_or]
      exact ⟨by omega, hne⟩
    refine ⟨ds.take (ds.length + i).toNat, ds.drop (ds.length + i).toNat, none, ?_, htake,
      fun c hc => hds c (List.mem_of_mem_take hc), fun c hc => hds c (List.mem_of_mem_drop hc),
      .inl ?_, ?_⟩
    · rw [pointText, if_neg hdrop, powerText, List.append_nil]
    · rwa [List.head?_take, if_neg (by omega)]
    · have hscale : (none : Option ℤ).getD 0 - ((ds.length - (ds.length + i).toNat : ℕ) : ℤ) = i := by
        rw [Option.getD_none]
        omega
      rw [List.take_append_drop, List.length_drop, hscale]
  split
  · -- it stands before them
    next h =>
    have hzeros : List.replicate (-(ds.length + i)).toNat '0' ++ ds ≠ [] := by simp [hne]
    refine ⟨['0'], List.replicate (-(ds.length + i)).toNat '0' ++ ds, none, ?_, by simp, ?_,
      ?_, .inr rfl, ?_⟩
    · rw [pointText, if_neg hzeros, powerText, List.append_nil]
      rfl
    · intro c hc
      rw [List.mem_singleton.mp hc]
      decide
    · intro c hc
      rcases List.mem_append.mp hc with hc | hc
      · exact isDigit_replicate c hc
      · exact hds c hc
    · have hzero : ['0'] ++ (List.replicate (-(ds.length + i)).toNat '0' ++ ds) =
          List.replicate ((-(ds.length + i)).toNat + 1) '0' ++ ds := by
        rw [List.replicate_succ]
        rfl
      rw [hzero, Nat.ofDigitChars_append, Nat.ofDigitChars_replicate_zero, Nat.mul_zero,
        List.length_append, List.length_replicate]
      congr 2
      simp only [Option.getD_none]
      omega
  · -- an exponent moves it behind the first digit
    obtain ⟨c, cs, rfl⟩ := List.exists_cons_of_ne_nil hne
    refine ⟨[c], cs, some ((c :: cs).length + i - 1), ?_, by simp, ?_, ?_, .inr rfl, ?_⟩
    · cases cs with
      | nil => simp [pointText, powerText]
      | cons d cs => simp [pointText, powerText]
    · intro d hd
      exact hds d (by simp_all)
    · exact fun d hd => hds d (List.mem_cons_of_mem _ hd)
    · congr 2
      simp only [Option.getD_some, List.length_cons]
      push_cast
      ring

theorem magnitude_layout {n : ℕ} (hn : 0 < n) (i : ℤ) {rest : List Char} (hrest : EndsNumber rest) :
    magnitude (layout (Nat.toDigits 10 n) i ++ rest) = some ((n : ℚ) * 10 ^ i, rest) := by
  obtain ⟨whole, part, e, htext, hne, hwhole, hpart, hzero, hvalue⟩ :=
    layout_decimal Nat.toDigits_ne_nil toDigits_isDigit (head_toDigits hn) i
  have hread := magnitude_decimal hne hwhole hpart hzero e hrest
  rw [hvalue, Nat.ofDigitChars_ten_toDigits] at hread
  rw [htext, List.append_assoc, List.append_assoc]
  exact hread

/-- A layout begins with a digit. -/
theorem layout_head {ds : List Char} (hne : ds ≠ []) (hds : ∀ c ∈ ds, c.isDigit = true)
    (hhead : ds.head? ≠ some '0') (i : ℤ) :
    ∃ c cs, layout ds i = c :: cs ∧ c.isDigit = true := by
  obtain ⟨whole, part, e, htext, hwhole, hdigits, _⟩ := layout_decimal hne hds hhead i
  obtain ⟨c, cs, rfl⟩ := List.exists_cons_of_ne_nil hwhole
  exact ⟨c, _, htext, hdigits c List.mem_cons_self⟩

/-! ### Reading numbers -/

/-- A text that begins with a digit has no sign. -/
theorem number_of_digit {c : Char} (hc : c.isDigit = true) (cs : List Char) :
    number (c :: cs) =
      (magnitude (c :: cs)).map fun p => (.number (nearest p.1), p.2) := by
  rw [number]
  rintro rest heq
  obtain rfl := (List.cons.inj heq).1
  exact absurd hc (by decide)

theorem positiveText_spec {q : ℚ} (hpos : 0 < q) (h : nearest q = some q) {rest : List Char}
    (hrest : EndsNumber rest) :
    ∃ c cs m, positiveText q ++ rest = c :: cs ∧ c.isDigit = true ∧
      magnitude (c :: cs) = some (m, rest) ∧ nearest m = some q := by
  obtain ⟨hn, hnearest⟩ := shortest_spec hpos h
  obtain ⟨c, cs, hhead, hc⟩ := layout_head Nat.toDigits_ne_nil toDigits_isDigit
    (head_toDigits hn) (shortest q).2
  refine ⟨c, cs ++ rest, _, ?_, hc, ?_, hnearest⟩
  · rw [positiveText, hhead, List.cons_append]
  · rw [← List.cons_append, ← hhead]
    exact magnitude_layout hn _ hrest

/-- **Main.** The text of a double is read as that double. -/
theorem number_text {q : ℚ} (h : nearest q = some q) {rest : List Char} (hrest : EndsNumber rest) :
    number (text q ++ rest) = some (.number (some q), rest) := by
  unfold text
  split
  · next hzero =>
    have hread := magnitude_repr 0 hrest
    have hdigits : Nat.toDigits 10 0 = ['0'] := rfl
    rw [hdigits] at hread
    rw [List.cons_append, number_of_digit (by decide), ← List.cons_append, hread]
    have hnearest : nearest ((0 : ℕ) : ℚ) = some q := by rw [Nat.cast_zero, ← hzero, h]
    rw [Option.map_some, hnearest]
  split
  · next hneg =>
    have hflip : nearest (-q) = some (-q) := by rw [nearest_neg, h, Option.map_some]
    obtain ⟨c, cs, m, htext, _, hread, hnearest⟩ :=
      positiveText_spec (neg_pos.mpr hneg) hflip hrest
    rw [List.cons_append, number, htext, hread, Option.map_some, nearest_neg, hnearest,
      Option.map_some, neg_neg]
  · next hzero hneg =>
    have hpos : 0 < q := lt_of_le_of_ne (not_lt.mp hneg) (Ne.symm hzero)
    obtain ⟨c, cs, m, htext, hc, hread, hnearest⟩ := positiveText_spec hpos h hrest
    rw [htext, number_of_digit hc, hread, Option.map_some, hnearest]

/-- A number begins with its sign or a digit. -/
theorem text_head {q : ℚ} (h : nearest q = some q) :
    ∃ c cs, text q = c :: cs ∧ (c = '-' ∨ c.isDigit = true) := by
  unfold text
  split
  · exact ⟨'0', [], rfl, .inr (by decide)⟩
  split
  · exact ⟨'-', _, rfl, .inl rfl⟩
  · next hzero hneg =>
    have hpos : 0 < q := lt_of_le_of_ne (not_lt.mp hneg) (Ne.symm hzero)
    obtain ⟨c, cs, _, htext, hc, _⟩ := positiveText_spec hpos h endsNumber_nil
    rw [List.append_nil] at htext
    exact ⟨c, cs, htext, .inr hc⟩

/-- Different doubles have different texts. -/
theorem text_injective {q r : ℚ} (hq : nearest q = some q) (hr : nearest r = some r)
    (h : text q = text r) : q = r := by
  have hread := number_text hq endsNumber_nil
  rw [h, number_text hr endsNumber_nil] at hread
  simpa using hread.symm

end NumberText
