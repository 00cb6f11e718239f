import Mathlib.Data.List.Infix
import Mathlib.Data.Char

/-!
# Texts as UTF-16 code units

The texts of the language as the sequences of code units that they are, for what cuts them and looks
for parts of them.

* `units` — the code units of a `String`.
* `CodeUnits.replaceAll` — every occurrence of a pattern, from the left, by a text that may depend on
  what stands before and behind it.
* `CodeUnits.rewrite` — every match of a scanner likewise.
* `CodeUnits.Foreign` — a text that has no unit of another one: an occurrence of the latter lies before
  it or behind it (`infix_foreign`).
* `CodeUnits.Harmless` — a rewritten text puts no secret together that the text did not have, wherever
  it stands: closed under composition and concatenation, so under replacing (`harmless_replaceAll`,
  `harmless_rewrite`).
* `not_infix_replaceAll` — what is replaced by a foreign text is gone.
-/

abbrev CodeUnits := List UInt16

/-- The code units of a character. -/
def unitsOfChar (c : Char) : CodeUnits :=
  if c.toNat < 0x10000 then [UInt16.ofNat c.toNat]
  else [UInt16.ofNat (0xD800 + (c.toNat - 0x10000) / 0x400),
    UInt16.ofNat (0xDC00 + (c.toNat - 0x10000) % 0x400)]

/-- The code units of a text. -/
def units (text : String) : CodeUnits := text.toList.flatMap unitsOfChar

namespace CodeUnits

/-! ### Replacing -/

/-- The scan of `replaceAll`: `skip` units belong to an occurrence that is replaced already, `before`
    is what the scan has passed. -/
def replaceFrom (pattern : CodeUnits) (replacement : CodeUnits → CodeUnits → CodeUnits) :
    Nat → CodeUnits → CodeUnits → CodeUnits
  | _, _, [] => []
  | skip + 1, before, c :: rest => replaceFrom pattern replacement skip (before ++ [c]) rest
  | 0, before, c :: rest =>
    if pattern.isPrefixOf (c :: rest) then
      replacement before ((c :: rest).drop pattern.length) ++
        replaceFrom pattern replacement (pattern.length - 1) (before ++ [c]) rest
    else c :: replaceFrom pattern replacement 0 (before ++ [c]) rest

/-- `replaceAll`, of a pattern that is not empty. -/
def replaceAll (pattern : CodeUnits) (replacement : CodeUnits → CodeUnits → CodeUnits)
    (text : CodeUnits) : CodeUnits := replaceFrom pattern replacement 0 [] text

/-- The scan of `rewrite`: `last` is the unit before. -/
def rewriteFrom (scan : Option UInt16 → CodeUnits → Nat) (replacement : CodeUnits → CodeUnits) :
    Nat → Option UInt16 → CodeUnits → CodeUnits
  | _, _, [] => []
  | skip + 1, _, c :: rest => rewriteFrom scan replacement skip (some c) rest
  | 0, last, c :: rest =>
    if scan last (c :: rest) = 0 then c :: rewriteFrom scan replacement 0 (some c) rest
    else replacement ((c :: rest).take (scan last (c :: rest))) ++
      rewriteFrom scan replacement (scan last (c :: rest) - 1) (some c) rest

/-- `replace` by a global pattern: `scan` is the length of the match at the beginning of a text, 0 where
    there is none. -/
def rewrite (scan : Option UInt16 → CodeUnits → Nat) (replacement : CodeUnits → CodeUnits)
    (text : CodeUnits) : CodeUnits := rewriteFrom scan replacement 0 none text

/-- The matches that `rewrite` replaces. -/
def matchesFrom (scan : Option UInt16 → CodeUnits → Nat) :
    Nat → Option UInt16 → CodeUnits → List CodeUnits
  | _, _, [] => []
  | skip + 1, _, c :: rest => matchesFrom scan skip (some c) rest
  | 0, last, c :: rest =>
    if scan last (c :: rest) = 0 then matchesFrom scan 0 (some c) rest
    else (c :: rest).take (scan last (c :: rest)) ::
      matchesFrom scan (scan last (c :: rest) - 1) (some c) rest

def matchesOf (scan : Option UInt16 → CodeUnits → Nat) (text : CodeUnits) : List CodeUnits :=
  matchesFrom scan 0 none text

example : replaceAll (units "ab") (fun _ _ => units "-") (units "abcabab") = units "-c--" := by decide

/-! ### Occurrences -/

/-- A text that has no unit of another one. -/
def Foreign (secret text : CodeUnits) : Prop := ∀ c ∈ secret, c ∉ text

instance (secret text : CodeUnits) : Decidable (Foreign secret text) :=
  List.decidableBAll (fun c => c ∉ text) secret

/-- An occurrence begins at a place. -/
theorem infix_iff_drop {secret text : CodeUnits} :
    secret <:+: text ↔ ∃ n, secret <+: text.drop n := by
  constructor
  · rintro ⟨before, after, rfl⟩
    refine ⟨before.length, after, ?_⟩
    rw [List.append_assoc, List.drop_left]
  · rintro ⟨n, hn⟩
    exact hn.isInfix.trans (List.drop_suffix n text).isInfix

/-- An occurrence around a foreign text lies before it or behind it. -/
theorem infix_foreign {secret before middle after : CodeUnits} (hne : middle ≠ [])
    (hforeign : Foreign secret middle) (h : secret <:+: before ++ middle ++ after) :
    secret <:+: before ∨ secret <:+: after := by
  by_cases hsecret : secret = []
  · rw [hsecret]
    exact .inl (List.nil_infix)
  obtain ⟨left, right, h⟩ := h
  by_cases hleft : left.length + secret.length ≤ before.length
  · left
    have hprefix : left ++ secret <+: before := by
      refine List.prefix_of_prefix_length_le (?_ : _ <+: before ++ middle ++ after) ?_ (by simpa)
      · exact ⟨right, h⟩
      · rw [List.append_assoc]
        exact List.prefix_append _ _
    exact (List.infix_append' left secret []).trans (by simpa using hprefix.isInfix)
  by_cases hright : before.length + middle.length ≤ left.length
  · right
    have hprefix : before ++ middle <+: left := by
      refine List.prefix_of_prefix_length_le (?_ : _ <+: before ++ middle ++ after) ?_ (by simpa)
      · exact List.prefix_append _ _
      · rw [← h, List.append_assoc]
        exact List.prefix_append _ _
    obtain ⟨start, rfl⟩ := hprefix
    rw [List.append_assoc (before ++ middle), List.append_assoc (before ++ middle),
      List.append_cancel_left_eq] at h
    exact ⟨start, right, h⟩
  · -- a unit of the occurrence stands in the middle
    exfalso
    have hmiddle := List.length_pos_iff.mpr hne
    have hpositive := List.length_pos_iff.mpr hsecret
    obtain ⟨i, hi, j, hj, hij⟩ : ∃ i < secret.length, ∃ j < middle.length,
        left.length + i = before.length + j := by
      rcases Nat.le_total left.length before.length with hle | hle
      · exact ⟨before.length - left.length, by omega, 0, by omega, by omega⟩
      · exact ⟨0, by omega, left.length - before.length, by omega, by omega⟩
    have hunit := congrArg (fun l => l[left.length + i]?) h
    rw [List.append_assoc, List.getElem?_append_right (Nat.le_add_right _ _),
      Nat.add_sub_cancel_left, List.getElem?_append_left hi, hij, List.append_assoc,
      List.getElem?_append_right (Nat.le_add_right _ _), Nat.add_sub_cancel_left,
      List.getElem?_append_left hj, List.getElem?_eq_getElem hi,
      List.getElem?_eq_getElem hj] at hunit
    refine hforeign secret[i] (List.getElem_mem hi) ?_
    rw [Option.some.inj hunit]
    exact List.getElem_mem hj

/-! ### Texts that put no secret together -/

/-- Wherever `output` stands instead of `text`, the secret does not occur unless it occurred. -/
def Harmless (secret text output : CodeUnits) : Prop :=
  ∀ before after, secret <:+: before ++ output ++ after → secret <:+: before ++ text ++ after

theorem Harmless.refl (secret text : CodeUnits) : Harmless secret text text :=
  fun _ _ h => h

theorem Harmless.trans {secret text middle output : CodeUnits} (h : Harmless secret text middle)
    (h' : Harmless secret middle output) : Harmless secret text output :=
  fun before after hout => h before after (h' before after hout)

theorem Harmless.append {secret text₁ text₂ output₁ output₂ : CodeUnits}
    (h₁ : Harmless secret text₁ output₁) (h₂ : Harmless secret text₂ output₂) :
    Harmless secret (text₁ ++ text₂) (output₁ ++ output₂) := by
  intro before after h
  have hfirst : secret <:+: before ++ text₁ ++ (output₂ ++ after) := by
    refine h₁ before (output₂ ++ after) ?_
    simpa only [List.append_assoc] using h
  have hsecond : secret <:+: (before ++ text₁) ++ text₂ ++ after := by
    refine h₂ (before ++ text₁) after ?_
    simpa only [List.append_assoc] using hfirst
  simpa only [List.append_assoc] using hsecond

theorem Harmless.cons {secret text output : CodeUnits} (c : UInt16)
    (h : Harmless secret text output) : Harmless secret (c :: text) (c :: output) :=
  (Harmless.refl secret [c]).append h

/-- A foreign text may stand anywhere. -/
theorem Harmless.of_foreign {secret text output : CodeUnits} (hne : output ≠ [])
    (hforeign : Foreign secret output) : Harmless secret text output := by
  intro before after h
  rcases infix_foreign hne hforeign h with h | h
  · exact (h.trans (List.prefix_append before text).isInfix).trans
      (List.prefix_append _ after).isInfix
  · exact h.trans (List.suffix_append _ after).isInfix

/-- A foreign mark in the place of what stands before. -/
theorem Harmless.mark {secret lead text mark output : CodeUnits} (hne : mark ≠ [])
    (hforeign : Foreign secret mark) (h : Harmless secret text output) :
    Harmless secret (lead ++ text) (mark ++ output) :=
  (Harmless.of_foreign hne hforeign).append h

theorem Harmless.absent {secret text output : CodeUnits} (h : Harmless secret text output)
    (habsent : ¬ secret <:+: text) : ¬ secret <:+: output := by
  intro hout
  refine habsent ?_
  simpa using h [] [] (by simpa using hout)

/-- Cutting a text shows a part of it. -/
theorem not_infix_take {secret text : CodeUnits} (n : Nat) (habsent : ¬ secret <:+: text) :
    ¬ secret <:+: text.take n :=
  fun h => habsent (h.trans (List.take_prefix n text).isInfix)

/-! ### Replacing puts no secret together -/

section Replacing

variable {pattern : CodeUnits} {replacement : CodeUnits → CodeUnits → CodeUnits}

/-- What is skipped belongs to the text before. -/
theorem replaceFrom_skip (skip : Nat) (before text : CodeUnits) :
    replaceFrom pattern replacement skip before text =
      replaceFrom pattern replacement 0 (before ++ text.take skip) (text.drop skip) := by
  induction text generalizing skip before with
  | nil => cases skip <;> rfl
  | cons c rest ih =>
    cases skip with
    | zero => rw [List.take_zero, List.append_nil, List.drop_zero]
    | succ skip =>
      rw [replaceFrom, ih, List.take_succ_cons, List.drop_succ_cons, List.append_assoc]
      rfl

/-- A scan that stands at an occurrence. -/
theorem replaceFrom_match {before text : CodeUnits} (hpattern : pattern ≠ []) :
    replaceFrom pattern replacement 0 before (pattern ++ text) =
      replacement before text ++ replaceFrom pattern replacement 0 (before ++ pattern) text := by
  cases pattern with
  | nil => exact absurd rfl hpattern
  | cons c rest =>
    have hmatch : (c :: rest).isPrefixOf (c :: (rest ++ text)) = true := by
      rw [List.isPrefixOf_iff_prefix]
      exact List.prefix_append (c :: rest) text
    rw [List.cons_append, replaceFrom, if_pos hmatch, replaceFrom_skip]
    have hlength : (c :: rest).length - 1 = rest.length := rfl
    rw [hlength, List.take_left, List.drop_left, List.append_assoc]
    congr 2
    exact List.drop_left

/-- A scan that does not. -/
theorem replaceFrom_pass {before text : CodeUnits} {c : UInt16}
    (h : ¬ pattern <+: c :: text) : replaceFrom pattern replacement 0 before (c :: text) =
      c :: replaceFrom pattern replacement 0 (before ++ [c]) text := by
  rw [replaceFrom, if_neg]
  rwa [List.isPrefixOf_iff_prefix]

/-- **Replacing is harmless** where each replacement is. -/
theorem harmless_replaceAll {secret : CodeUnits} (hpattern : pattern ≠ [])
    (hreplacement : ∀ before after, Harmless secret pattern (replacement before after))
    (text : CodeUnits) : Harmless secret text (replaceAll pattern replacement text) := by
  suffices h : ∀ n, ∀ text : CodeUnits, text.length ≤ n → ∀ before,
      Harmless secret text (replaceFrom pattern replacement 0 before text) from
    h text.length text le_rfl []
  intro n
  induction n with
  | zero =>
    intro text hlength before
    rw [List.length_eq_zero_iff.mp (Nat.le_zero.mp hlength)]
    exact Harmless.refl secret []
  | succ n ih =>
    intro text hlength before
    cases text with
    | nil => exact Harmless.refl secret []
    | cons c rest =>
      by_cases hmatch : pattern <+: c :: rest
      · obtain ⟨after, hafter⟩ := hmatch
        rw [← hafter, replaceFrom_match hpattern]
        refine (hreplacement before after).append (ih after ?_ _)
        have hpositive := List.length_pos_iff.mpr hpattern
        have := congrArg List.length hafter
        rw [List.length_append] at this
        omega
      · rw [replaceFrom_pass hmatch]
        exact (ih rest (Nat.le_of_succ_le_succ hlength) _).cons c

/-- **What is replaced by a foreign text is gone.** -/
theorem not_infix_replaceAll {mark : CodeUnits} (hpattern : pattern ≠ []) (hne : mark ≠ [])
    (hforeign : Foreign pattern mark) (text : CodeUnits) :
    ¬ pattern <:+: replaceAll pattern (fun _ _ => mark) text := by
  -- `seen` is what the scan passed since the last occurrence: none begins there
  suffices h : ∀ n, ∀ text : CodeUnits, text.length ≤ n → ∀ before seen : CodeUnits,
      (∀ k < seen.length, ¬ pattern <+: (seen ++ text).drop k) →
      ¬ pattern <:+: seen ++ replaceFrom pattern (fun _ _ => mark) 0 before text from
    h text.length text le_rfl [] [] (fun k hk => absurd hk (Nat.not_lt_zero k))
  intro n
  have hinside : ∀ seen text : CodeUnits,
      (∀ k < seen.length, ¬ pattern <+: (seen ++ text).drop k) → ¬ pattern <:+: seen := by
    intro seen text hseen h
    obtain ⟨k, hk⟩ := infix_iff_drop.mp h
    have hpositive := List.length_pos_iff.mpr hpattern
    have hlength := hk.length_le
    rw [List.length_drop] at hlength
    refine hseen k (by omega) (hk.trans ?_)
    rw [List.drop_append_of_le_length (by omega)]
    exact List.prefix_append _ _
  induction n with
  | zero =>
    intro text hlength before seen hseen
    have htext : text = [] := List.length_eq_zero_iff.mp (Nat.le_zero.mp hlength)
    rw [htext, replaceFrom, List.append_nil]
    exact hinside seen text hseen
  | succ n ih =>
    intro text hlength before seen hseen
    cases text with
    | nil =>
      rw [replaceFrom, List.append_nil]
      exact hinside seen [] hseen
    | cons c rest =>
      by_cases hmatch : pattern <+: c :: rest
      · obtain ⟨after, hafter⟩ := hmatch
        have hshorter : after.length ≤ n := by
          have hpositive := List.length_pos_iff.mpr hpattern
          have := congrArg List.length hafter
          rw [List.length_append] at this
          omega
        intro h
        rw [← hafter, replaceFrom_match hpattern, ← List.append_assoc] at h
        rcases infix_foreign hne hforeign h with h | h
        · exact hinside seen _ hseen h
        · exact ih after hshorter _ [] (fun k hk => absurd hk (Nat.not_lt_zero k)) h
      · rw [replaceFrom_pass hmatch, ← List.singleton_append, ← List.append_assoc]
        refine ih rest (Nat.le_of_succ_le_succ hlength) _ (seen ++ [c]) ?_
        intro k hk
        rw [List.append_assoc, List.singleton_append]
        rcases Nat.lt_or_ge k seen.length with hlt | hge
        · exact hseen k hlt
        · have hk' : k = seen.length := by
            rw [List.length_append, List.length_singleton] at hk
            omega
          rwa [hk', List.drop_left]

end Replacing

section Rewriting

variable {scan : Option UInt16 → CodeUnits → Nat} {replacement : CodeUnits → CodeUnits}

/-- What is skipped is in no further match. -/
theorem rewriteFrom_skip (scan : Option UInt16 → CodeUnits → Nat)
    (replacement : CodeUnits → CodeUnits) (skip : Nat) (last : Option UInt16) (text : CodeUnits) :
    ∃ last', rewriteFrom scan replacement skip last text =
        rewriteFrom scan replacement 0 last' (text.drop skip) ∧
      matchesFrom scan skip last text = matchesFrom scan 0 last' (text.drop skip) := by
  induction text generalizing skip last with
  | nil => exact ⟨none, by cases skip <;> exact ⟨rfl, rfl⟩⟩
  | cons c rest ih =>
    cases skip with
    | zero => exact ⟨last, rfl, rfl⟩
    | succ skip =>
      rw [rewriteFrom, matchesFrom, List.drop_succ_cons]
      exact ih skip (some c)

/-- **Rewriting is harmless** where the replacement of each match is. -/
theorem harmless_rewrite {secret : CodeUnits} (text : CodeUnits)
    (hreplacement : ∀ m ∈ matchesOf scan text, Harmless secret m (replacement m)) :
    Harmless secret text (rewrite scan replacement text) := by
  suffices h : ∀ n, ∀ rest : CodeUnits, rest.length ≤ n → ∀ last,
      (∀ m ∈ matchesFrom scan 0 last rest, Harmless secret m (replacement m)) →
      Harmless secret rest (rewriteFrom scan replacement 0 last rest) from
    h text.length text le_rfl none hreplacement
  intro n
  induction n with
  | zero =>
    intro rest hlength last _
    rw [List.length_eq_zero_iff.mp (Nat.le_zero.mp hlength)]
    exact Harmless.refl secret []
  | succ n ih =>
    intro rest hlength last hmatches
    cases rest with
    | nil => exact Harmless.refl secret []
    | cons c rest =>
      have hle : rest.length ≤ n := Nat.le_of_succ_le_succ hlength
      rw [rewriteFrom]
      rw [matchesFrom] at hmatches
      by_cases hscan : scan last (c :: rest) = 0
      · rw [if_pos hscan] at hmatches ⊢
        exact (ih rest hle _ hmatches).cons c
      · rw [if_neg hscan] at hmatches ⊢
        obtain ⟨last', hskip, hskip'⟩ := rewriteFrom_skip scan replacement
          (scan last (c :: rest) - 1) (some c) rest
        rw [hskip'] at hmatches
        rw [hskip]
        have hdrop : rest.drop (scan last (c :: rest) - 1) =
            (c :: rest).drop (scan last (c :: rest)) := by
          obtain ⟨m, hm⟩ := Nat.exists_eq_succ_of_ne_zero hscan
          rw [hm, List.drop_succ_cons, Nat.succ_sub_one]
        have htail := ih (rest.drop (scan last (c :: rest) - 1))
          (by rw [List.length_drop]; omega) last'
          (fun m hm => hmatches m (List.mem_cons_of_mem _ hm))
        have hwhole := (hmatches _ List.mem_cons_self).append htail
        rwa [hdrop, List.take_append_drop, ← hdrop] at hwhole

end Rewriting

end CodeUnits
