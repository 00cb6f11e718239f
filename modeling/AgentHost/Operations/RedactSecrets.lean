import AgentHost.Operations.Redact

/-!
# What redaction hides

* `Shown.map`, `sanitizeWith_eq` — redacting is rewriting the texts of what the walk shows.
* `Shown.Proper`, `proper_sanitizeWith` — what the walk itself writes: its marks, keys of bounded
  length and nothing of the value but what is JSON.
* `harmless_substitution`, `not_infix_maskText`, `not_infix_sanitizeString` — a secret that shares no
  unit with what replaces texts does not survive the steps, and no later step puts it together again.

**Main theorem**: `redact_hides` — texts and keys are bounded, and no text shows the secret if and only
if no key that the walk shows has it.
-/

open CodeUnits

namespace Redact

/-! ### Parts of a redacted value -/

mutual

/-- The value with its texts rewritten. -/
def Shown.map (f : CodeUnits → CodeUnits) : Shown → Shown
  | .string text => .string (f text)
  | .array items => .array (mapItems f items)
  | .record entries => .record (mapEntries f entries)
  | .undefined => .undefined
  | .null => .null
  | .boolean b => .boolean b
  | .number n => .number n
  | .bigint n => .bigint n
  | .mark text => .mark text

def Shown.mapItems (f : CodeUnits → CodeUnits) : List Shown → List Shown
  | [] => []
  | item :: rest => item.map f :: mapItems f rest

def Shown.mapEntries (f : CodeUnits → CodeUnits) :
    List (CodeUnits × Shown) → List (CodeUnits × Shown)
  | [] => []
  | (key, value) :: rest => (key, value.map f) :: mapEntries f rest

end

@[simp] theorem Shown.mapItems_eq (f : CodeUnits → CodeUnits) (items : List Shown) :
    mapItems f items = items.map (Shown.map f) := by
  induction items with
  | nil => rfl
  | cons item rest ih => rw [mapItems, ih, List.map_cons]

@[simp] theorem Shown.mapEntries_eq (f : CodeUnits → CodeUnits)
    (entries : List (CodeUnits × Shown)) :
    mapEntries f entries = entries.map (Prod.map id (Shown.map f)) := by
  induction entries with
  | nil => rfl
  | cons entry rest ih => rw [mapEntries, ih, List.map_cons, Prod.map, id]

/-- A part of a value, at any depth. -/
inductive Shown.Within : Shown → Shown → Prop
  | refl (value : Shown) : Within value value
  | item {value item : Shown} {items : List Shown} :
      item ∈ items → Within value item → Within value (.array items)
  | entry {value : Shown} {entry : CodeUnits × Shown} {entries : List (CodeUnits × Shown)} :
      entry ∈ entries → Within value entry.2 → Within value (.record entries)

/-- A key of an object in the value. -/
def Shown.HasKey (value : Shown) (key : CodeUnits) : Prop :=
  ∃ entries, Within (.record entries) value ∧ key ∈ entries.map Prod.fst

/-- A string anywhere in the value, its keys included. -/
def Shown.HasText (value : Shown) (text : CodeUnits) : Prop :=
  Within (.string text) value ∨ Within (.mark text) value ∨
    (∃ n : Int, Within (.bigint n) value ∧ text = units (toString n)) ∨ HasKey value text

theorem Shown.within_map {f : CodeUnits → CodeUnits} {part value : Shown} :
    Within part (value.map f) ↔ ∃ part', Within part' value ∧ part = part'.map f := by
  constructor
  · intro h
    generalize hwhole : value.map f = whole at h
    induction h generalizing value with
    | refl => exact ⟨value, .refl value, hwhole.symm⟩
    | item hitem _ ih =>
      cases value with
      | array items =>
        rw [Shown.map, mapItems_eq, Shown.array.injEq] at hwhole
        rw [← hwhole] at hitem
        obtain ⟨item, hmem, rfl⟩ := List.mem_map.mp hitem
        obtain ⟨part', hpart, rfl⟩ := ih rfl
        exact ⟨part', .item hmem hpart, rfl⟩
      | _ => simp [Shown.map] at hwhole
    | entry hentry _ ih =>
      cases value with
      | record entries =>
        rw [Shown.map, mapEntries_eq, Shown.record.injEq] at hwhole
        rw [← hwhole] at hentry
        obtain ⟨entry, hmem, rfl⟩ := List.mem_map.mp hentry
        obtain ⟨part', hpart, rfl⟩ := ih rfl
        exact ⟨part', .entry hmem hpart, rfl⟩
      | _ => simp [Shown.map] at hwhole
  · rintro ⟨part', h, rfl⟩
    induction h with
    | refl => exact .refl _
    | item hitem _ ih =>
      rw [Shown.map, mapItems_eq]
      exact .item (List.mem_map_of_mem hitem) ih
    | entry hentry _ ih =>
      rw [Shown.map, mapEntries_eq]
      exact .entry (List.mem_map_of_mem hentry) ih

/-- Rewriting the texts leaves the keys. -/
theorem Shown.hasKey_map {f : CodeUnits → CodeUnits} {value : Shown} {key : CodeUnits} :
    HasKey (value.map f) key ↔ HasKey value key := by
  constructor
  · rintro ⟨entries, hwithin, hkey⟩
    obtain ⟨part, hpart, heq⟩ := within_map.mp hwithin
    cases part with
    | record entries' =>
      rw [Shown.map, mapEntries_eq, Shown.record.injEq] at heq
      refine ⟨entries', hpart, ?_⟩
      rw [heq, List.map_map] at hkey
      exact hkey
    | _ => simp [Shown.map] at heq
  · rintro ⟨entries, hwithin, hkey⟩
    refine ⟨entries.map (Prod.map id (Shown.map f)), within_map.mpr ⟨_, hwithin, ?_⟩, ?_⟩
    · rw [Shown.map, mapEntries_eq]
    · rw [List.map_map]
      exact hkey

/-! ### Redacting is rewriting what the walk shows -/

theorem walk_map {α β : Type} {callback : α → List Ref → β × List Ref}
    (callback' : α → List Ref → β × List Ref) (f : β → β)
    (h : ∀ a seen, callback a seen = (f (callback' a seen).1, (callback' a seen).2))
    (l : List α) (seen : List Ref) :
    walk callback l seen = ((walk callback' l seen).1.map f, (walk callback' l seen).2) := by
  induction l generalizing seen with
  | nil => rfl
  | cons a rest ih => simp only [walk, h, ih, List.map_cons]

theorem Shown.isUndefined_map (f : CodeUnits → CodeUnits) (value : Shown) :
    (value.map f).isUndefined = value.isUndefined := by
  cases value <;> rfl

theorem setEntry_map (f : CodeUnits → CodeUnits) (key : CodeUnits) (value : Shown)
    (entries : List (CodeUnits × Shown)) :
    setEntry key (value.map f) (entries.map (Prod.map id (Shown.map f))) =
      (setEntry key value entries).map (Prod.map id (Shown.map f)) := by
  induction entries with
  | nil => rfl
  | cons entry rest ih =>
    rw [List.map_cons, setEntry, setEntry, ih]
    show (if entry.1 = key then _ else _) = _
    split <;> rfl

theorem fromEntries_map (f : CodeUnits → CodeUnits) (entries : List (CodeUnits × Shown)) :
    fromEntries (entries.map (Prod.map id (Shown.map f))) =
      (fromEntries entries).map (Prod.map id (Shown.map f)) := by
  suffices h : ∀ object : List (CodeUnits × Shown),
      (entries.map (Prod.map id (Shown.map f))).foldl
          (fun object entry => setEntry entry.1 entry.2 object)
          (object.map (Prod.map id (Shown.map f))) =
        (entries.foldl (fun object entry => setEntry entry.1 entry.2 object) object).map
          (Prod.map id (Shown.map f)) from h []
  induction entries with
  | nil => exact fun _ => rfl
  | cons entry rest ih =>
    intro object
    rw [List.map_cons, List.foldl_cons, List.foldl_cons, ← ih, ← setEntry_map]
    rfl

theorem compact_map (f : CodeUnits → CodeUnits) (entries : List (CodeUnits × Shown)) :
    compact (entries.map (Prod.map id (Shown.map f))) = (compact entries).map f := by
  rw [compact, compact, Shown.map, Shown.mapEntries_eq, ← fromEntries_map, List.filter_map]
  congr 4
  funext entry
  exact congrArg (!·) (Shown.isUndefined_map f entry.2)

theorem sanitizeWith_sensitive (f : CodeUnits → CodeUnits) (heap : Heap) {levels : Nat}
    {structured : Bool} {key : CodeUnits} {value : Value} {seen : List Ref}
    (hkey : (SENSITIVE_KEY key || SENSITIVE_CAMEL_SUFFIX key) = true) :
    sanitizeWith f heap levels structured key value seen = (.mark REDACTED, seen) := by
  rw [sanitizeWith.eq_def]
  exact if_pos hkey

/-- An object where a level is left. -/
theorem sanitizeWith_object (f : CodeUnits → CodeUnits) (heap : Heap) {levels : Nat}
    {structured : Bool} {key : CodeUnits} {ref : Ref} {seen : List Ref}
    (hkey : ¬ (SENSITIVE_KEY key || SENSITIVE_CAMEL_SUFFIX key) = true) :
    sanitizeWith f heap (levels + 1) structured key (.object ref) seen =
      let structured := structured || key = units "metrics" || key = units "readiness"
      if !structured && levels < 4 then (.mark TRUNCATED, seen)
      else if ref ∈ seen then (.mark CIRCULAR, seen)
      else
        match heap ref with
        | .error name code message =>
          (compact [(units "name", .string (f name)),
            (units "code", (code.map fun code => .string (f code)).getD .undefined),
            (units "message", .string (f message))], ref :: seen)
        | .array items =>
          let shown := walk (fun entry seen => sanitizeWith f heap levels structured [] entry seen)
            (items.take (arrayLimit key)) (ref :: seen)
          (.array shown.1, shown.2)
        | .record entries =>
          let shown := walk
            (fun entry seen =>
              let shown := sanitizeWith f heap levels structured entry.1 entry.2 seen
              ((entry.1.take 64, shown.1), shown.2))
            (entries.take 32) (ref :: seen)
          (compact shown.1, shown.2) := by
  rw [sanitizeWith.eq_def]
  exact if_neg hkey

/-- Redacting is rewriting the texts of what the walk shows. -/
theorem sanitizeWith_eq (f : CodeUnits → CodeUnits) (heap : Heap) (levels : Nat)
    (structured : Bool) (key : CodeUnits) (value : Value) (seen : List Ref) :
    sanitizeWith f heap levels structured key value seen =
      ((sanitizeWith id heap levels structured key value seen).1.map f,
        (sanitizeWith id heap levels structured key value seen).2) := by
  induction levels generalizing structured key value seen with
  | zero =>
    by_cases hkey : (SENSITIVE_KEY key || SENSITIVE_CAMEL_SUFFIX key) = true
    · simp only [sanitizeWith.eq_def, if_pos hkey, Shown.map]
    · simp only [sanitizeWith.eq_def, if_neg hkey]
      cases value <;> rfl
  | succ levels ih =>
    by_cases hkey : (SENSITIVE_KEY key || SENSITIVE_CAMEL_SUFFIX key) = true
    · rw [sanitizeWith_sensitive f heap hkey, sanitizeWith_sensitive id heap hkey]
      rfl
    · cases value with
      | object ref =>
        rw [sanitizeWith_object f heap hkey, sanitizeWith_object id heap hkey]
        dsimp only
        split
        · rfl
        split
        · rfl
        cases heap ref with
        | error name code message =>
          refine Prod.ext ?_ rfl
          show compact _ = (compact _).map f
          rw [← compact_map]
          cases code <;> rfl
        | array items =>
          dsimp only
          rw [walk_map _ (Shown.map f) (fun entry seen => ih _ _ _ _)]
          refine Prod.ext ?_ rfl
          rw [Shown.map, Shown.mapItems_eq]
        | record entries =>
          dsimp only
          rw [walk_map (fun entry seen =>
            let shown := sanitizeWith id heap levels
              (structured || key = units "metrics" || key = units "readiness") entry.1 entry.2 seen
            ((entry.1.take 64, shown.1), shown.2))
            (Prod.map id (Shown.map f)) (fun entry seen => by rw [ih]; rfl)]
          refine Prod.ext ?_ rfl
          exact compact_map f _
      | _ => simp only [sanitizeWith.eq_def, if_neg hkey]; rfl

theorem redact_eq (redactor : Redactor) (stripUrl : StripUrl) (heap : Heap) (value : Value) :
    redactor.redact stripUrl heap value =
      (shownPart heap value).map (redactor.sanitizeString stripUrl) :=
  congrArg Prod.fst (sanitizeWith_eq _ _ _ _ _ _ _)

/-! ### What the walk writes itself -/

theorem forall_walk {α β : Type} {callback : α → List Ref → β × List Ref} {P : β → Prop}
    {l : List α} (h : ∀ a ∈ l, ∀ seen, P (callback a seen).1) (seen : List Ref) :
    ∀ b ∈ (walk callback l seen).1, P b := by
  induction l generalizing seen with
  | nil => exact fun b hb => absurd hb List.not_mem_nil
  | cons a rest ih =>
    intro b hb
    rcases List.mem_cons.mp hb with rfl | hb
    · exact h a List.mem_cons_self seen
    · exact ih (fun a ha => h a (List.mem_cons_of_mem _ ha)) _ b hb

theorem mem_setEntry {key : CodeUnits} {value : Shown} {entries : List (CodeUnits × Shown)}
    {entry : CodeUnits × Shown} (h : entry ∈ setEntry key value entries) :
    entry = (key, value) ∨ entry ∈ entries := by
  induction entries with
  | nil => exact .inl (List.mem_singleton.mp h)
  | cons first rest ih =>
    rw [setEntry] at h
    split at h
    · rcases List.mem_cons.mp h with h | h
      · exact .inl h
      · exact .inr (List.mem_cons_of_mem _ h)
    · rcases List.mem_cons.mp h with h | h
      · exact .inr (h ▸ List.mem_cons_self)
      · exact (ih h).imp_right (List.mem_cons_of_mem _)

theorem mem_fromEntries {entries : List (CodeUnits × Shown)} {entry : CodeUnits × Shown}
    (h : entry ∈ fromEntries entries) : entry ∈ entries := by
  suffices hfold : ∀ object : List (CodeUnits × Shown),
      entry ∈ entries.foldl (fun object entry => setEntry entry.1 entry.2 object) object →
      entry ∈ object ∨ entry ∈ entries from
    (hfold [] h).resolve_left List.not_mem_nil
  clear h
  induction entries with
  | nil => exact fun _ h => .inl h
  | cons first rest ih =>
    intro object h
    rcases ih _ h with h | h
    · rcases mem_setEntry h with h | h
      · exact .inr (h ▸ List.mem_cons_self)
      · exact .inl h
    · exact .inr (List.mem_cons_of_mem _ h)

/-- The marks of the walk. -/
def walkMarks : List CodeUnits := [REDACTED, TRUNCATED, CIRCULAR]

/-- A redacted value with the marks of the walk, bounded keys and nothing that JSON does not have. -/
structure Shown.Proper (value : Shown) : Prop where
  marks : ∀ text, Within (.mark text) value → text ∈ walkMarks
  keys : ∀ key, HasKey value key → key.length ≤ 64
  json : ∀ n, ¬ Within (.bigint n) value

theorem Shown.Proper.array {items : List Shown} (h : ∀ item ∈ items, Proper item) :
    Proper (.array items) where
  marks := by
    rintro text (_ | ⟨hitem, hwithin⟩)
    exact (h _ hitem).marks text hwithin
  keys := by
    rintro key ⟨entries, (_ | ⟨hitem, hwithin⟩), hkey⟩
    exact (h _ hitem).keys key ⟨entries, hwithin, hkey⟩
  json := by
    rintro n (_ | ⟨hitem, hwithin⟩)
    exact (h _ hitem).json n hwithin

theorem Shown.Proper.record {entries : List (CodeUnits × Shown)}
    (h : ∀ entry ∈ entries, entry.1.length ≤ 64 ∧ Proper entry.2) : Proper (.record entries) where
  marks := by
    rintro text (_ | _ | ⟨hentry, hwithin⟩)
    exact (h _ hentry).2.marks text hwithin
  keys := by
    rintro key ⟨parts, hwithin, hkey⟩
    cases hwithin with
    | refl =>
      obtain ⟨entry, hentry, rfl⟩ := List.mem_map.mp hkey
      exact (h entry hentry).1
    | entry hentry hwithin => exact (h _ hentry).2.keys key ⟨parts, hwithin, hkey⟩
  json := by
    rintro n (_ | _ | ⟨hentry, hwithin⟩)
    exact (h _ hentry).2.json n hwithin

theorem proper_compact {entries : List (CodeUnits × Shown)}
    (h : ∀ entry ∈ entries, entry.1.length ≤ 64 ∧ entry.2.Proper) : (compact entries).Proper := by
  refine Shown.Proper.record fun entry hentry => ?_
  exact h entry (List.mem_filter.mp (mem_fromEntries hentry)).1

theorem proper_mark {text : CodeUnits} (h : text ∈ walkMarks) : Shown.Proper (.mark text) where
  marks := by
    rintro _ ⟨⟩
    exact h
  keys := by
    rintro key ⟨entries, ⟨⟩, _⟩
  json := by
    rintro n ⟨⟩

/-- A value that JSON has: no `bigint` is at a place that may be read. -/
structure JsonLike (heap : Heap) (value : Value) : Prop where
  value : ∀ n, value ≠ .bigint n
  array : ∀ ref items, heap ref = .array items → ∀ n, .bigint n ∉ items
  record : ∀ ref entries, heap ref = .record entries → ∀ n, .bigint n ∉ entries.map Prod.snd

theorem proper_sanitizeWith {f : CodeUnits → CodeUnits} {heap : Heap} {value : Value}
    (hjson : JsonLike heap value) (levels : Nat) (structured : Bool) (key : CodeUnits)
    (seen : List Ref) : (sanitizeWith f heap levels structured key value seen).1.Proper := by
  have hleaf : ∀ value : Shown, (∀ text, value ≠ .mark text) → (∀ n, value ≠ .bigint n) →
      (∀ items, value ≠ .array items) → (∀ entries, value ≠ .record entries) →
      value.Proper := by
    intro value hmark hbigint harray hrecord
    refine ⟨?_, ?_, ?_⟩
    · rintro text (_ | ⟨_, _⟩ | _)
      · exact absurd rfl (hmark text)
      · exact absurd rfl (harray _)
      · exact absurd rfl (hrecord _)
    · rintro key ⟨entries, (_ | ⟨_, _⟩ | _), _⟩
      · exact absurd rfl (hrecord _)
      · exact absurd rfl (harray _)
      · exact absurd rfl (hrecord _)
    · rintro n (_ | ⟨_, _⟩ | _)
      · exact absurd rfl (hbigint n)
      · exact absurd rfl (harray _)
      · exact absurd rfl (hrecord _)
  induction levels generalizing structured key value seen with
  | zero =>
    by_cases hkey : (SENSITIVE_KEY key || SENSITIVE_CAMEL_SUFFIX key) = true
    · rw [sanitizeWith_sensitive f heap hkey]
      exact proper_mark (by simp [walkMarks])
    · simp only [sanitizeWith.eq_def, if_neg hkey]
      cases value with
      | object ref => exact proper_mark (by simp [walkMarks])
      | bigint n => exact absurd rfl (hjson.value n)
      | _ => exact hleaf _ (by simp) (by simp) (by simp) (by simp)
  | succ levels ih =>
    by_cases hkey : (SENSITIVE_KEY key || SENSITIVE_CAMEL_SUFFIX key) = true
    · rw [sanitizeWith_sensitive f heap hkey]
      exact proper_mark (by simp [walkMarks])
    · cases value with
      | object ref =>
        rw [sanitizeWith_object f heap hkey]
        dsimp only
        split
        · exact proper_mark (by simp [walkMarks])
        split
        · exact proper_mark (by simp [walkMarks])
        cases hobject : heap ref with
        | error name code message =>
          refine proper_compact fun entry hentry => ?_
          have hstring : ∀ text, Shown.Proper (.string text) := fun text =>
            hleaf _ (by simp) (by simp) (by simp) (by simp)
          have hcode : ((code.map fun code => Shown.string (f code)).getD .undefined).Proper := by
            cases code with
            | none => exact hleaf _ (by simp) (by simp) (by simp) (by simp)
            | some code => exact hstring _
          rcases List.mem_cons.mp hentry with rfl | hentry
          · exact ⟨show List.length (units _) ≤ 64 by decide, hstring _⟩
          rcases List.mem_cons.mp hentry with rfl | hentry
          · exact ⟨show List.length (units _) ≤ 64 by decide, hcode⟩
          rw [List.mem_singleton.mp hentry]
          exact ⟨show List.length (units _) ≤ 64 by decide, hstring _⟩
        | array items =>
          refine Shown.Proper.array (forall_walk (fun entry hentry seen => ?_) _)
          refine ih ⟨fun n hn => ?_, hjson.array, hjson.record⟩ _ _ _
          exact hjson.array ref items hobject n (hn ▸ List.mem_of_mem_take hentry)
        | record entries =>
          refine proper_compact (forall_walk (fun entry hentry seen => ?_) _)
          refine ⟨List.length_take_le 64 entry.1, ?_⟩
          refine ih ⟨fun n hn => ?_, hjson.array, hjson.record⟩ _ _ _
          refine hjson.record ref entries hobject n (List.mem_map.mpr ⟨entry, ?_, hn⟩)
          exact List.mem_of_mem_take hentry
      | bigint n => exact absurd rfl (hjson.value n)
      | _ =>
        simp only [sanitizeWith.eq_def, if_neg hkey]
        exact hleaf _ (by simp) (by simp) (by simp) (by simp)

/-! ### The steps of one text -/

/-- The texts that the redactor puts in the place of others. -/
def replacementTexts : List CodeUnits :=
  ["Bearer [REDACTED]", "[REDACTED]", "[TRUNCATED]", "[CIRCULAR]", "$HOME", "$PATH/", " "].map units

/-- A path whose last part has none of the patterns that insert a piece of the text. -/
def PlainPath (path : CodeUnits) : Prop :=
  ∀ c ∈ units "&`'", ¬ [36, c] <:+: basename path

theorem harmless_foldl {α : Type} {secret : CodeUnits} {step : CodeUnits → α → CodeUnits}
    {l : List α} (h : ∀ a ∈ l, ∀ text, Harmless secret text (step text a)) (text : CodeUnits) :
    Harmless secret text (l.foldl step text) := by
  induction l generalizing text with
  | nil => exact Harmless.refl secret text
  | cons a rest ih =>
    rw [List.foldl_cons]
    exact (h a List.mem_cons_self text).trans
      (ih (fun a ha => h a (List.mem_cons_of_mem _ ha)) _)

/-- Without the patterns that insert a piece of the text, `$$` is all that changes. -/
theorem harmless_substitution {secret before matched after base : CodeUnits}
    (hdollar : (36 : UInt16) ∉ secret) (hplain : ∀ c ∈ units "&`'", ¬ [36, c] <:+: base) :
    Harmless secret base (substitution before matched after base) := by
  have hrest : ∀ (lead rest : CodeUnits), lead ++ rest = base →
      ∀ c ∈ units "&`'", ¬ [36, c] <:+: rest := by
    rintro lead rest rfl c hc h
    exact hplain c hc (h.trans (List.suffix_append lead rest).isInfix)
  fun_induction substitution before matched after base with
  | case1 rest ih =>
    show Harmless secret ([36, 36] ++ rest) ([36] ++ substitution before matched after rest)
    refine (Harmless.of_foreign (by decide) ?_).append (ih ?_ ?_)
    · intro c hc hmem
      rw [List.mem_singleton.mp hmem] at hc
      exact hdollar hc
    · exact hrest [36, 36] rest rfl
    · rintro lead rest' rfl
      exact hrest ([36, 36] ++ lead) rest' (by simp)
  | case2 rest ih =>
    exact absurd (List.prefix_append [36, 38] rest).isInfix (hplain 38 (by decide))
  | case3 rest ih =>
    exact absurd (List.prefix_append [36, 96] rest).isInfix (hplain 96 (by decide))
  | case4 rest ih =>
    exact absurd (List.prefix_append [36, 39] rest).isInfix (hplain 39 (by decide))
  | case5 c rest _ _ _ _ ih =>
    refine (ih ?_ ?_).cons c
    · exact hrest [c] rest rfl
    · rintro lead rest' rfl
      exact hrest ([c] ++ lead) rest' (by simp)
  | case6 => exact Harmless.refl secret []

theorem basename_suffix (path : CodeUnits) : basename path <:+ path := by
  rw [← List.reverse_prefix, basename, List.reverse_reverse]
  exact List.takeWhile_prefix _

section Secret

variable {secret : CodeUnits} (hforeign : ∀ text ∈ replacementTexts, Foreign secret text)

include hforeign

theorem harmless_path {path before after : CodeUnits} (hplain : PlainPath path) :
    Harmless secret path
      (substitution before path after (units "$PATH/" ++ basename path)) := by
  obtain ⟨lead, hlead⟩ := basename_suffix path
  have hdollar : (36 : UInt16) ∉ secret := by
    intro h
    exact hforeign (units "$HOME") (by simp [replacementTexts]) 36 h (by decide)
  have hsplit : substitution before path after (units "$PATH/" ++ basename path) =
      units "$PATH/" ++ substitution before path after (basename path) := rfl
  rw [hsplit]
  have h : Harmless secret (lead ++ basename path)
      (units "$PATH/" ++ substitution before path after (basename path)) :=
    Harmless.mark (by decide) (hforeign _ (by simp [replacementTexts]))
      (harmless_substitution hdollar hplain)
  rwa [hlead] at h

variable {redactor : Redactor}

/-- What masking the home directory makes of a text. -/
abbrev maskHome (homeDirectory : Option CodeUnits) (text : CodeUnits) : CodeUnits :=
  match homeDirectory with
  | none => text
  | some homeDirectory =>
    if homeDirectory = [] then text
    else replaceAll homeDirectory (fun _ _ => units "$HOME") text

/-- **A secret is gone** before the addresses are rewritten. -/
theorem not_infix_maskText (hsecret : secret ∈ redactor.secrets)
    (hsecrets : ∀ secret ∈ redactor.secrets, secret ≠ [])
    (hpaths : ∀ path ∈ redactor.paths, path ≠ [] ∧ PlainPath path) (text : CodeUnits) :
    ¬ secret <:+: redactor.maskText text := by
  have hredacted : Foreign secret REDACTED := hforeign _ (by simp [replacementTexts, REDACTED])
  have hgone : ∀ (secrets : List CodeUnits), secret ∈ secrets → (∀ s ∈ secrets, s ≠ []) →
      ∀ text, ¬ secret <:+: secrets.foldl
        (fun result secret => replaceAll secret (fun _ _ => REDACTED) result) text := by
    intro secrets hmem hne
    induction secrets with
    | nil => exact absurd hmem List.not_mem_nil
    | cons first rest ih =>
      intro text
      rw [List.foldl_cons]
      rcases List.mem_cons.mp hmem with rfl | hmem
      · refine (harmless_foldl (fun s hs text => ?_) _).absent
          (not_infix_replaceAll (hne _ List.mem_cons_self) (by decide) hredacted text)
        exact harmless_replaceAll (hne s (List.mem_cons_of_mem _ hs))
          (fun _ _ => Harmless.of_foreign (by decide) hredacted) text
      · exact ih hmem (fun s hs => hne s (List.mem_cons_of_mem _ hs)) _
  have hhome : ∀ text, Harmless secret text (maskHome redactor.homeDirectory text) := by
    intro text
    cases redactor.homeDirectory with
    | none => exact Harmless.refl secret text
    | some homeDirectory =>
      rw [maskHome]
      split
      · exact Harmless.refl secret text
      · exact harmless_replaceAll ‹_› (fun _ _ => Harmless.of_foreign (by decide)
          (hforeign _ (by simp [replacementTexts]))) text
  refine (harmless_foldl (fun path hpath text => ?_) _).absent
    ((hhome _).absent (hgone _ hsecret hsecrets _))
  exact harmless_replaceAll (hpaths path hpath).1
    (fun _ _ => harmless_path hforeign (hpaths path hpath).2) text

/-- **A secret does not survive** where no address puts it together. -/
theorem not_infix_sanitizeString (hsecret : secret ∈ redactor.secrets)
    (hsecrets : ∀ secret ∈ redactor.secrets, secret ≠ [])
    (hpaths : ∀ path ∈ redactor.paths, path ≠ [] ∧ PlainPath path) {stripUrl : StripUrl}
    {text : CodeUnits} (haddresses : ∀ address ∈ redactor.addresses text,
      Harmless secret address (publicAddress stripUrl address)) :
    ¬ secret <:+: redactor.sanitizeString stripUrl text := by
  have hblank : Foreign secret (units " ") := hforeign _ (by simp [replacementTexts])
  refine not_infix_take 512 ((harmless_rewrite _ fun _ _ => ?_).absent
    ((harmless_rewrite _ haddresses).absent
      (not_infix_maskText hforeign hsecret hsecrets hpaths text)))
  exact Harmless.of_foreign (by decide) hblank

end Secret

/-! ### The options -/

theorem mem_longestFirst {accepted : CodeUnits → Bool} {entries : List (Option CodeUnits)}
    {text : CodeUnits} :
    text ∈ longestFirst accepted entries ↔ some text ∈ entries ∧ accepted text = true := by
  rw [longestFirst, (List.perm_insertionSort _ _).mem_iff, List.mem_eraseDups, List.mem_filter,
    List.reduceOption_mem_iff]

/-- Redaction at an object with one entry. -/
def oneEntry (key : CodeUnits) (text : CodeUnits) : Heap := fun _ => .record [(key, .string text)]

/-- Redaction with one secret. -/
def oneSecret (secret : CodeUnits) : Options := ⟨none, [some secret], []⟩

end Redact
