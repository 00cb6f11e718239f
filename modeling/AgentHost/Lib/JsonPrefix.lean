import Mathlib
import AgentHost.Lib.JsonParse

/-!
# Prefixes of JSON texts

* `JsonParse.extends_all` — what has been read of a text stays what it is when more text follows, unless it
  is a number at the very end.
* `JsonParse.parse_prefix` — **Main**: a prefix of the text of an object that is a JSON text itself lacks
  only white space.
-/

namespace JsonParse

/-! ### Parts of texts -/

theorem skipWhite_append_of_ne {text : List Char} {c : Char} {rest : List Char}
    (h : skipWhite text = c :: rest) (more : List Char) :
    skipWhite (text ++ more) = c :: (rest ++ more) := by
  unfold skipWhite at h ⊢
  rw [List.dropWhile_append, h]
  rfl

theorem skipWhite_eq_nil {text : List Char} : skipWhite text = [] ↔ ∀ c ∈ text, isWhite c = true :=
  List.dropWhile_eq_nil_iff

theorem hexUnit_append {text rest : List Char} {n : Nat} (h : hexUnit text = some (n, rest))
    (more : List Char) : hexUnit (text ++ more) = some (n, rest ++ more) := by
  match text, h with
  | a :: b :: c :: d :: tail, h =>
    simp only [hexUnit, Option.bind_eq_bind, Option.bind_eq_some_iff, Option.pure_def,
      Option.some.injEq, Prod.mk.injEq] at h
    obtain ⟨a', ha, b', hb, c', hc, d', hd, hn, rfl⟩ := h
    simp only [List.cons_append, hexUnit, ha, hb, hc, hd, Option.bind_eq_bind, Option.bind_some,
      Option.pure_def, hn]

/-! ### Strings -/

theorem lowSurrogate_append {text rest : List Char} {n : Nat} (h : lowSurrogate text = some (n, rest))
    (more : List Char) : lowSurrogate (text ++ more) = some (n, rest ++ more) := by
  unfold lowSurrogate at h
  split at h
  · next tail =>
    obtain ⟨hunit, hrange⟩ := Option.filter_eq_some_iff.mp h
    rw [List.cons_append, List.cons_append, lowSurrogate, hexUnit_append hunit]
    exact Option.filter_some_pos hrange
  · cases h

/-- In a text that is the end of a string, what is no second half of a pair becomes none. -/
theorem lowSurrogate_append_none {fuel : Nat} {text : List Char} {result : List Char × List Char}
    (hbody : stringBody fuel text = some result) (h : lowSurrogate text = none) (more : List Char) :
    lowSurrogate (text ++ more) = none := by
  cases fuel with
  | zero => cases hbody
  | succ fuel =>
  by_cases hescape : ∃ tail, text = '\\' :: 'u' :: tail
  · -- the escape is complete, as the string ends
    obtain ⟨tail, rfl⟩ := hescape
    rw [stringBody, if_neg (by decide), if_pos (by decide)] at hbody
    obtain ⟨⟨c, rest⟩, hescaped, _⟩ := Option.bind_eq_some_iff.mp hbody
    have hunit : escapedUnit tail = some (c, rest) := hescaped
    obtain ⟨⟨n, rest'⟩, hhex, _⟩ := Option.bind_eq_some_iff.mp hunit
    have hlow : (hexUnit tail).filter (fun p => 0xDC00 ≤ p.1 && p.1 ≤ 0xDFFF) = none := h
    have hrange := Option.filter_eq_none_iff.mp hlow _ hhex
    show (hexUnit (tail ++ more)).filter (fun p => 0xDC00 ≤ p.1 && p.1 ≤ 0xDFFF) = none
    rw [hexUnit_append hhex]
    exact Option.filter_some_neg (by simpa using hrange)
  · unfold lowSurrogate
    split
    · next rest heq =>
      exfalso
      cases text with
      | nil => cases hbody
      | cons c tail =>
        obtain ⟨rfl, hrest⟩ := List.cons.inj heq
        cases tail with
        | nil =>
          rw [stringBody, if_neg (by decide), if_pos (by decide)] at hbody
          cases hbody
        | cons d tail =>
          obtain ⟨rfl, _⟩ := List.cons.inj hrest
          exact hescape ⟨tail, rfl⟩
    · rfl

theorem escaped_append {fuel : Nat} {text rest : List Char} {c : Char}
    {result : List Char × List Char} (h : escaped text = some (c, rest))
    (hbody : stringBody fuel rest = some result) (more : List Char) :
    escaped (text ++ more) = some (c, rest ++ more) := by
  cases text with
  | nil => cases h
  | cons d tail =>
    rw [List.cons_append]
    rw [escaped] at h ⊢
    split at h
    · next hd =>
      cases h
      rw [if_pos hd]
    next hd =>
    rw [if_neg hd]
    split at h
    · next hd =>
      cases h
      rw [if_pos hd]
    next hd =>
    rw [if_neg hd]
    split at h
    · next hd =>
      cases h
      rw [if_pos hd]
    next hd =>
    rw [if_neg hd]
    split at h
    · next hd =>
      cases h
      rw [if_pos hd]
    next hd =>
    rw [if_neg hd]
    split at h
    · next hd =>
      cases h
      rw [if_pos hd]
    next hd =>
    rw [if_neg hd]
    split at h
    · next hd =>
      cases h
      rw [if_pos hd]
    next hd =>
    rw [if_neg hd]
    split at h
    swap
    · cases h
    next hd =>
    rw [if_pos hd]
    unfold escapedUnit at h ⊢
    obtain ⟨⟨unit, after⟩, hunit, h⟩ := Option.bind_eq_some_iff.mp h
    rw [hexUnit_append hunit]
    show ite _ _ _ = _
    change ite _ _ _ = _ at h
    split at h
    · next hhigh =>
      rw [if_pos hhigh]
      split at h
      · next low rest' hlow =>
        obtain ⟨hc, hrest⟩ := Prod.mk.inj (Option.some.inj h)
        rw [lowSurrogate_append hlow]
        dsimp only
        rw [hc, hrest]
      · next hlow =>
        obtain ⟨hc, hrest⟩ := Prod.mk.inj (Option.some.inj h)
        rw [← hrest] at hbody
        rw [lowSurrogate_append_none hbody hlow, ← hrest, ← hc]
    · next hhigh =>
      rw [if_neg hhigh]
      split at h
      · next hlow =>
        obtain ⟨hc, hrest⟩ := Prod.mk.inj (Option.some.inj h)
        rw [if_pos hlow, ← hc, ← hrest]
      · next hlow =>
        obtain ⟨hc, hrest⟩ := Prod.mk.inj (Option.some.inj h)
        rw [if_neg hlow, ← hc, ← hrest]

theorem stringBody_append {fuel : Nat} {text cs rest : List Char}
    (h : stringBody fuel text = some (cs, rest)) (more : List Char) (k : Nat) :
    stringBody (fuel + k) (text ++ more) = some (cs, rest ++ more) := by
  induction fuel generalizing text cs with
  | zero => cases h
  | succ fuel ih =>
    cases text with
    | nil => cases h
    | cons c text =>
      have hfuel : fuel + 1 + k = fuel + k + 1 := by omega
      rw [hfuel, List.cons_append]
      rw [stringBody] at h ⊢
      split at h
      · next hquote =>
        cases h
        rw [if_pos hquote]
      next hquote =>
      rw [if_neg hquote]
      split at h
      · next hslash =>
        rw [if_pos hslash]
        obtain ⟨⟨d, tail⟩, hescaped, h⟩ := Option.bind_eq_some_iff.mp h
        obtain ⟨⟨ds, tail'⟩, hbody, h⟩ := Option.bind_eq_some_iff.mp h
        cases h
        rw [escaped_append hescaped hbody]
        show ((stringBody (fuel + k) (tail ++ more)).bind _ : Option _) = _
        rw [ih hbody]
        rfl
      next hslash =>
      rw [if_neg hslash]
      split at h
      · cases h
      next hcontrol =>
      rw [if_neg hcontrol]
      obtain ⟨⟨ds, tail'⟩, hbody, h⟩ := Option.bind_eq_some_iff.mp h
      cases h
      show ((stringBody (fuel + k) (text ++ more)).bind _ : Option _) = _
      rw [ih hbody]
      rfl

theorem string_append {text rest : List Char} {s : String} (h : string text = some (s, rest))
    (more : List Char) : string (text ++ more) = some (s, rest ++ more) := by
  rw [string, Option.map_eq_some_iff] at h
  obtain ⟨⟨cs, tail⟩, hbody, heq⟩ := h
  cases heq
  rw [string, List.length_append, stringBody_append hbody]
  rfl

/-! ### Numbers -/

theorem digits_append_of_ne {text ds rest : List Char} (h : digits text = (ds, rest))
    (hne : rest ≠ []) (more : List Char) : digits (text ++ more) = (ds, rest ++ more) := by
  rw [digits, List.span_eq_takeWhile_dropWhile] at h ⊢
  obtain ⟨htake, hdrop⟩ := Prod.mk.inj h
  have hall : ¬ ∀ c ∈ text, c.isDigit = true := by
    intro hall
    rw [List.dropWhile_eq_nil_iff.mpr hall] at hdrop
    exact hne hdrop.symm
  rw [List.takeWhile_append, List.dropWhile_append, htake, hdrop]
  have hlength : ds.length ≠ text.length := by
    intro heq
    have hprefix := List.takeWhile_prefix Char.isDigit (l := text)
    rw [htake] at hprefix
    have hself := hprefix.eq_of_length heq
    rw [hself] at htake
    exact hall (List.takeWhile_eq_self_iff.mp htake)
  rw [if_neg hlength, if_neg (by simpa using hne)]

theorem fraction_append {text part rest : List Char} (h : fraction text = some (part, rest))
    (hne : rest ≠ []) (more : List Char) : fraction (text ++ more) = some (part, rest ++ more) := by
  cases text with
  | nil =>
    cases h
    exact absurd rfl hne
  | cons c tail =>
    rw [fraction] at h
    rw [List.cons_append, fraction]
    split at h
    · next hpoint =>
      rw [if_pos hpoint]
      split at h
      · cases h
      · next hsome =>
        have hdigits := Option.some.inj h
        rw [digits_append_of_ne hdigits hne]
        rw [hdigits] at hsome
        rw [if_neg hsome]
    · next hpoint =>
      cases h
      rw [if_neg hpoint]
      rfl

/-- The sign of an exponent, and what follows it. -/
def exponentSign : List Char → Bool × List Char
  | '-' :: rest => (true, rest)
  | '+' :: rest => (false, rest)
  | rest => (false, rest)

theorem exponent_cons (c : Char) (tail : List Char) :
    exponent (c :: tail) =
      if c.toNat = 101 ∨ c.toNat = 69 then
        if (digits (exponentSign tail).2).1.isEmpty then none
        else
          let power : Int := Nat.ofDigitChars 10 (digits (exponentSign tail).2).1 0
          some (if (exponentSign tail).1 then -power else power, (digits (exponentSign tail).2).2)
      else some (0, c :: tail) := rfl

theorem exponentSign_append {tail : List Char} (hne : tail ≠ []) (more : List Char) :
    exponentSign (tail ++ more) = ((exponentSign tail).1, (exponentSign tail).2 ++ more) := by
  match tail, hne with
  | c :: tail, _ =>
    rw [List.cons_append]
    by_cases hminus : c = '-'
    · subst hminus
      rfl
    by_cases hplus : c = '+'
    · subst hplus
      rfl
    rw [exponentSign, exponentSign]
    · rfl
    all_goals
      intro rest heq
      simp_all

theorem exponent_append {text rest : List Char} {power : Int}
    (h : exponent text = some (power, rest)) (hne : rest ≠ []) (more : List Char) :
    exponent (text ++ more) = some (power, rest ++ more) := by
  cases text with
  | nil =>
    cases h
    exact absurd rfl hne
  | cons c tail =>
    rw [exponent_cons] at h
    rw [List.cons_append, exponent_cons]
    split at h
    swap
    · next hletter =>
      cases h
      rw [if_neg hletter]
      rfl
    next hletter =>
    rw [if_pos hletter]
    split at h
    · cases h
    next hsome =>
    obtain ⟨hpower, hrest⟩ := Prod.mk.inj (Option.some.inj h)
    have htail : tail ≠ [] := by
      rintro rfl
      exact hsome rfl
    have hdigits : digits (exponentSign tail).2 = ((digits (exponentSign tail).2).1, rest) := by
      rw [← hrest]
    rw [exponentSign_append htail, digits_append_of_ne hdigits hne, if_neg hsome, ← hpower]

theorem magnitude_append {text rest : List Char} {m : ℚ} (h : magnitude text = some (m, rest))
    (hne : rest ≠ []) (more : List Char) : magnitude (text ++ more) = some (m, rest ++ more) := by
  rw [magnitude] at h ⊢
  dsimp only at h ⊢
  split at h
  · cases h
  next hwhole =>
  obtain ⟨⟨part, rest₂⟩, hfraction, h⟩ := Option.bind_eq_some_iff.mp h
  obtain ⟨⟨power, rest₃⟩, hexponent, h⟩ := Option.bind_eq_some_iff.mp h
  cases h
  -- something is left behind every part
  have hne₂ : rest₂ ≠ [] := by
    rintro rfl
    cases hexponent
    exact hne rfl
  have hne₁ : (digits text).2 ≠ [] := by
    intro hnil
    rw [hnil] at hfraction
    cases hfraction
    exact hne₂ rfl
  have hdigits : digits text = ((digits text).1, (digits text).2) := rfl
  rw [digits_append_of_ne hdigits hne₁]
  dsimp only
  rw [if_neg hwhole, fraction_append hfraction hne₂]
  show ((exponent (rest₂ ++ more)).bind _ : Option _) = _
  rw [exponent_append hexponent hne]
  rfl

theorem number_of_ne {text : List Char} (h : ∀ tail, text ≠ '-' :: tail) :
    number text = (magnitude text).map fun p => (.number (Doubles.nearest p.1), p.2) := by
  rw [number]
  exact h

theorem number_append {text rest : List Char} {v : JsonValue} (h : number text = some (v, rest))
    (hne : rest ≠ []) (more : List Char) : number (text ++ more) = some (v, rest ++ more) := by
  by_cases hsign : ∃ tail, text = '-' :: tail
  · obtain ⟨tail, rfl⟩ := hsign
    rw [number, Option.map_eq_some_iff] at h
    obtain ⟨⟨m, rest'⟩, hmagnitude, heq⟩ := h
    cases heq
    rw [List.cons_append, number, magnitude_append hmagnitude hne]
    rfl
  · have htext : ∀ tail, text ≠ '-' :: tail := fun tail heq => hsign ⟨tail, heq⟩
    rw [number_of_ne htext, Option.map_eq_some_iff] at h
    obtain ⟨⟨m, rest'⟩, hmagnitude, heq⟩ := h
    cases heq
    have hmore : ∀ tail, text ++ more ≠ '-' :: tail := by
      intro tail heq
      cases text with
      | nil =>
        cases hmagnitude
      | cons c cs =>
        obtain ⟨rfl, _⟩ := List.cons.inj heq
        exact htext cs rfl
    rw [number_of_ne hmore, magnitude_append hmagnitude hne]
    rfl

/-! ### Values -/

/-- A value whose text has an end of its own. -/
def closed : JsonValue → Bool
  | .number _ => false
  | _ => true

theorem after_append {start : String} {text rest : List Char} (h : after start text = some rest)
    (more : List Char) : after start (text ++ more) = some (rest ++ more) := by
  unfold after at h ⊢
  split at h
  · next hprefix =>
    have hstart : start.toList <+: text := List.isPrefixOf_iff_prefix.mp hprefix
    have hlength : start.length ≤ text.length := by
      have hle := hstart.length_le
      rwa [String.length_toList] at hle
    rw [if_pos (List.isPrefixOf_iff_prefix.mpr (hstart.trans (List.prefix_append text more))),
      List.drop_append_of_le_length hlength, Option.some.inj h]
  · cases h

/-- What is read with some fuel is read with more fuel when more text follows. -/
def ValueExtends (fuel : Nat) : Prop :=
  ∀ text v rest, value fuel text = some (v, rest) → rest ≠ [] ∨ closed v = true →
    ∀ more k, value (fuel + k) (text ++ more) = some (v, rest ++ more)

def ItemsExtend (fuel : Nat) : Prop :=
  ∀ text list rest, items fuel text = some (list, rest) →
    ∀ more k, items (fuel + k) (text ++ more) = some (list, rest ++ more)

def MembersExtend (fuel : Nat) : Prop :=
  ∀ read text list rest, members fuel read text = some (list, rest) →
    ∀ more k, members (fuel + k) read (text ++ more) = some (list, rest ++ more)

theorem ne_nil_of_skipWhite {rest : List Char} {c : Char} {tail : List Char}
    (h : skipWhite rest = c :: tail) : rest ≠ [] := by
  rintro rfl
  cases h

theorem items_nil (fuel : Nat) : items fuel [] = none := by
  cases fuel with
  | zero => rfl
  | succ fuel => cases fuel <;> rfl

theorem members_nil (fuel : Nat) (read : List (String × JsonValue)) : members fuel read [] = none := by
  cases fuel <;> rfl

theorem valueExtends_succ {fuel : Nat} (hitems : ItemsExtend fuel) (hmembers : MembersExtend fuel) :
    ValueExtends (fuel + 1) := by
  intro text v rest h hend more k
  have hfuel : fuel + 1 + k = fuel + k + 1 := by omega
  rw [hfuel]
  rw [value] at h ⊢
  cases hskip : skipWhite text with
  | nil =>
    rw [hskip] at h
    cases h
  | cons c tail =>
    rw [hskip] at h
    rw [skipWhite_append_of_ne hskip]
    dsimp only at h ⊢
    split at h
    · next hquote =>
      rw [if_pos hquote]
      obtain ⟨⟨s, tail'⟩, hstring, heq⟩ := Option.map_eq_some_iff.mp h
      cases heq
      rw [string_append hstring]
      rfl
    next hquote =>
    rw [if_neg hquote]
    split at h
    · next hbracket =>
      rw [if_pos hbracket]
      cases hinner : skipWhite tail with
      | nil =>
        rw [hinner] at h
        dsimp only at h
        rw [items_nil] at h
        cases h
      | cons d tail' =>
        rw [hinner] at h
        rw [skipWhite_append_of_ne hinner]
        by_cases hclose : d = ']'
        · subst hclose
          cases h
          rfl
        · split at h
          · next heq => exact absurd (List.cons.inj heq).1 hclose
          obtain ⟨⟨list, tail''⟩, hread, heq⟩ := Option.map_eq_some_iff.mp h
          cases heq
          split
          · next heq => exact absurd (List.cons.inj heq).1 hclose
          have hmore := hitems _ _ _ hread more k
          rw [List.cons_append] at hmore
          rw [hmore]
          rfl
    next hbracket =>
    rw [if_neg hbracket]
    split at h
    · next hbrace =>
      rw [if_pos hbrace]
      cases hinner : skipWhite tail with
      | nil =>
        rw [hinner] at h
        dsimp only at h
        rw [members_nil] at h
        cases h
      | cons d tail' =>
        rw [hinner] at h
        rw [skipWhite_append_of_ne hinner]
        by_cases hclose : d = '\x7d'
        · subst hclose
          cases h
          rfl
        · split at h
          · next heq => exact absurd (List.cons.inj heq).1 hclose
          obtain ⟨⟨list, tail''⟩, hread, heq⟩ := Option.map_eq_some_iff.mp h
          cases heq
          split
          · next heq => exact absurd (List.cons.inj heq).1 hclose
          have hmore := hmembers _ _ _ _ hread more k
          rw [List.cons_append] at hmore
          rw [hmore]
          rfl
    next hbrace =>
    rw [if_neg hbrace]
    split at h
    · next hnull =>
      rw [if_pos hnull]
      obtain ⟨tail', hafter, heq⟩ := Option.map_eq_some_iff.mp h
      cases heq
      rw [after_append hafter]
      rfl
    next hnull =>
    rw [if_neg hnull]
    split at h
    · next htrue =>
      rw [if_pos htrue]
      obtain ⟨tail', hafter, heq⟩ := Option.map_eq_some_iff.mp h
      cases heq
      rw [after_append hafter]
      rfl
    next htrue =>
    rw [if_neg htrue]
    split at h
    · next hfalse =>
      rw [if_pos hfalse]
      obtain ⟨tail', hafter, heq⟩ := Option.map_eq_some_iff.mp h
      cases heq
      rw [after_append hafter]
      rfl
    next hfalse =>
    rw [if_neg hfalse]
    -- a number has an end only where something follows it
    have hnumber : ∃ q, v = .number q := by
      by_cases hsign : ∃ rest', c :: tail = '-' :: rest'
      · obtain ⟨rest', hsign⟩ := hsign
        rw [hsign, number, Option.map_eq_some_iff] at h
        obtain ⟨⟨m, _⟩, _, heq⟩ := h
        cases heq
        exact ⟨_, rfl⟩
      · rw [number_of_ne fun tail heq => hsign ⟨tail, heq⟩, Option.map_eq_some_iff] at h
        obtain ⟨⟨m, _⟩, _, heq⟩ := h
        cases heq
        exact ⟨_, rfl⟩
    obtain ⟨q, rfl⟩ := hnumber
    have hne : rest ≠ [] := by
      rcases hend with hne | hclosed
      · exact hne
      · cases hclosed
    exact number_append h hne more

theorem itemsExtend_succ {fuel : Nat} (hvalue : ValueExtends fuel) (hitems : ItemsExtend fuel) :
    ItemsExtend (fuel + 1) := by
  intro text list rest h more k
  have hfuel : fuel + 1 + k = fuel + k + 1 := by omega
  rw [hfuel]
  rw [items] at h ⊢
  obtain ⟨⟨item, tail⟩, hread, h⟩ := Option.bind_eq_some_iff.mp h
  dsimp only at h
  cases hskip : skipWhite tail with
  | nil =>
    rw [hskip] at h
    cases h
  | cons c tail' =>
    rw [hskip] at h
    rw [hvalue _ _ _ hread (.inl (ne_nil_of_skipWhite hskip)) more k]
    simp only [Option.bind_eq_bind, Option.bind_some, skipWhite_append_of_ne hskip]
    by_cases hcomma : c = ','
    · subst hcomma
      obtain ⟨⟨list', tail''⟩, hrest, heq⟩ := Option.map_eq_some_iff.mp h
      cases heq
      show (items (fuel + k) (tail' ++ more)).map _ = _
      rw [hitems _ _ _ hrest more k]
      rfl
    by_cases hclose : c = ']'
    · subst hclose
      cases h
      rfl
    · split at h
      · next heq => exact absurd (List.cons.inj heq).1 hcomma
      · next heq => exact absurd (List.cons.inj heq).1 hclose
      · cases h

theorem membersExtend_succ {fuel : Nat} (hvalue : ValueExtends fuel) (hmembers : MembersExtend fuel) :
    MembersExtend (fuel + 1) := by
  intro read text list rest h more k
  have hfuel : fuel + 1 + k = fuel + k + 1 := by omega
  rw [hfuel]
  rw [members] at h ⊢
  cases hskip : skipWhite text with
  | nil =>
    rw [hskip] at h
    cases h
  | cons c tail =>
    rw [hskip] at h
    rw [skipWhite_append_of_ne hskip]
    by_cases hquote : c = '"'
    swap
    · split at h
      · next heq => exact absurd (List.cons.inj heq).1 hquote
      · cases h
    subst hquote
    obtain ⟨⟨name, tail₁⟩, hstring, h⟩ := Option.bind_eq_some_iff.mp h
    dsimp only at h
    show ((string (tail ++ more)).bind _ : Option _) = _
    rw [string_append hstring, Option.bind_some]
    dsimp only
    cases hskip₁ : skipWhite tail₁ with
    | nil =>
      rw [hskip₁] at h
      cases h
    | cons d tail₂ =>
      rw [hskip₁] at h
      rw [skipWhite_append_of_ne hskip₁]
      by_cases hcolon : d = ':'
      swap
      · split at h
        · next heq => exact absurd (List.cons.inj heq).1 hcolon
        · cases h
      subst hcolon
      obtain ⟨⟨v, tail₃⟩, hread, h⟩ := Option.bind_eq_some_iff.mp h
      dsimp only at h
      cases hskip₃ : skipWhite tail₃ with
      | nil =>
        rw [hskip₃] at h
        cases h
      | cons e tail₄ =>
        rw [hskip₃] at h
        show ((value (fuel + k) (tail₂ ++ more)).bind _ : Option _) = _
        rw [hvalue _ _ _ hread (.inl (ne_nil_of_skipWhite hskip₃)) more k, Option.bind_some]
        dsimp only
        rw [skipWhite_append_of_ne hskip₃]
        by_cases hcomma : e = ','
        · subst hcomma
          exact hmembers _ _ _ _ h more k
        by_cases hclose : e = '\x7d'
        · subst hclose
          cases h
          rfl
        · split at h
          · next heq => exact absurd (List.cons.inj heq).1 hcomma
          · next heq => exact absurd (List.cons.inj heq).1 hclose
          · cases h

/-- What has been read of a text stays what it is when more text follows. -/
theorem extends_all (fuel : Nat) : ValueExtends fuel ∧ ItemsExtend fuel ∧ MembersExtend fuel := by
  induction fuel with
  | zero =>
    refine ⟨?_, ?_, ?_⟩
    · intro _ _ _ h
      cases h
    · intro _ _ _ h
      cases h
    · intro _ _ _ _ h
      cases h
  | succ fuel ih =>
    obtain ⟨hvalue, hitems, hmembers⟩ := ih
    exact ⟨valueExtends_succ hitems hmembers, itemsExtend_succ hvalue hitems,
      membersExtend_succ hvalue hmembers⟩

/-! ### Texts of objects -/

/-- A text that begins with a brace stands for an object, and only such a text does. -/
theorem object_iff {fuel : Nat} {text : List Char} {v : JsonValue} {rest : List Char}
    (h : value fuel text = some (v, rest)) :
    (∃ list, v = .object list) ↔ ∃ tail, skipWhite text = '\x7b' :: tail := by
  cases fuel with
  | zero => cases h
  | succ fuel =>
  rw [value] at h
  cases hskip : skipWhite text with
  | nil =>
    rw [hskip] at h
    cases h
  | cons c tail =>
    rw [hskip] at h
    dsimp only at h
    have hbrace : c.toNat = 123 ↔ ∃ tail', c :: tail = '\x7b' :: tail' := by
      constructor
      · intro hc
        have heq : c = '\x7b' := Char.toNat_inj.mp hc
        exact ⟨tail, by rw [heq]⟩
      · rintro ⟨tail', heq⟩
        rw [(List.cons.inj heq).1]
        rfl
    rw [← hbrace]
    split at h
    · obtain ⟨_, _, heq⟩ := Option.map_eq_some_iff.mp h
      cases heq
      refine ⟨fun hv => ?_, fun _ => by omega⟩
      obtain ⟨_, hv⟩ := hv
      cases hv
    split at h
    · split at h
      · cases h
        refine ⟨fun hv => ?_, fun _ => by omega⟩
        obtain ⟨_, hv⟩ := hv
        cases hv
      · obtain ⟨_, _, heq⟩ := Option.map_eq_some_iff.mp h
        cases heq
        refine ⟨fun hv => ?_, fun _ => by omega⟩
        obtain ⟨_, hv⟩ := hv
        cases hv
    split at h
    · next hc =>
      refine ⟨fun _ => hc, fun _ => ?_⟩
      split at h
      · cases h
        exact ⟨_, rfl⟩
      · obtain ⟨_, _, heq⟩ := Option.map_eq_some_iff.mp h
        cases heq
        exact ⟨_, rfl⟩
    next hc =>
    refine ⟨fun hv => ?_, fun h => absurd h hc⟩
    obtain ⟨list, rfl⟩ := hv
    exfalso
    split at h
    · obtain ⟨_, _, heq⟩ := Option.map_eq_some_iff.mp h
      cases heq
    split at h
    · obtain ⟨_, _, heq⟩ := Option.map_eq_some_iff.mp h
      cases heq
    split at h
    · obtain ⟨_, _, heq⟩ := Option.map_eq_some_iff.mp h
      cases heq
    · by_cases hsign : ∃ rest', c :: tail = '-' :: rest'
      · obtain ⟨rest', hsign⟩ := hsign
        rw [hsign, number, Option.map_eq_some_iff] at h
        obtain ⟨_, _, heq⟩ := h
        cases heq
      · rw [number_of_ne fun tail heq => hsign ⟨tail, heq⟩, Option.map_eq_some_iff] at h
        obtain ⟨_, _, heq⟩ := h
        cases heq

theorem parse_eq_some {text : List Char} {v : JsonValue} :
    parse (String.ofList text) = some v ↔
      ∃ rest, value (text.length + 1) text = some (v, rest) ∧ skipWhite rest = [] := by
  rw [parse, String.toList_ofList]
  constructor
  · intro h
    split at h
    · next w rest hread =>
      split at h
      · next hempty =>
        cases h
        exact ⟨rest, hread, List.isEmpty_iff.mp hempty⟩
      · cases h
    · cases h
  · rintro ⟨rest, hread, hskip⟩
    rw [hread]
    dsimp only
    rw [hskip]
    rfl

/-- White space may follow the text of an object. -/
theorem parse_append_white {text white : List Char} {list : List (String × JsonValue)}
    (h : parse (String.ofList text) = some (.object list)) (hwhite : ∀ c ∈ white, isWhite c = true) :
    parse (String.ofList (text ++ white)) = some (.object list) := by
  obtain ⟨rest, hread, hskip⟩ := parse_eq_some.mp h
  refine parse_eq_some.mpr ⟨rest ++ white, ?_, ?_⟩
  · have hextends := (extends_all _).1 _ _ _ hread (.inr rfl) white white.length
    rw [List.length_append]
    have hfuel : text.length + white.length + 1 = text.length + 1 + white.length := by omega
    rw [hfuel]
    exact hextends
  · rw [skipWhite_eq_nil] at hskip ⊢
    intro c hc
    rcases List.mem_append.mp hc with hc | hc
    · exact hskip c hc
    · exact hwhite c hc

/-- **Main.** A prefix of the text of an object that is a JSON text itself lacks only white space. -/
theorem parse_prefix {text more : List Char} {v : JsonValue} {list : List (String × JsonValue)}
    (h : parse (String.ofList text) = some v)
    (hmore : parse (String.ofList (text ++ more)) = some (.object list)) :
    v = .object list ∧ ∀ c ∈ more, isWhite c = true := by
  obtain ⟨rest, hread, hskip⟩ := parse_eq_some.mp h
  obtain ⟨rest', hread', hskip'⟩ := parse_eq_some.mp hmore
  -- the prefix begins with the brace too
  have hobject : ∃ members, v = .object members := by
    rw [object_iff hread]
    obtain ⟨tail, hbrace⟩ := (object_iff hread').mp ⟨_, rfl⟩
    cases hfirst : skipWhite text with
    | nil =>
      rw [value, hfirst] at hread
      cases hread
    | cons c tail' =>
      rw [skipWhite_append_of_ne hfirst] at hbrace
      rw [(List.cons.inj hbrace).1]
      exact ⟨tail', rfl⟩
  obtain ⟨members, rfl⟩ := hobject
  have hextends := (extends_all _).1 _ _ _ hread (.inr rfl) more more.length
  have hfuel : (text ++ more).length + 1 = text.length + 1 + more.length := by
    rw [List.length_append]
    omega
  rw [hfuel, hextends] at hread'
  cases hread'
  refine ⟨rfl, fun c hc => ?_⟩
  exact skipWhite_eq_nil.mp hskip' c (List.mem_append_right _ hc)

end JsonParse
