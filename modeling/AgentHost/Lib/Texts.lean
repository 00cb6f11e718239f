import AgentHost.Lib.JsonValue

/-!
# Cutting texts

* `Texts.split`, `Texts.join` — a text as its parts between separators, and back (`join_split`).
* `Texts.trim` — a text without the white space at its ends.
-/

namespace Texts

/-- `split(separator)`, for a separator of one character. -/
def split (separator : Char) : List Char → List (List Char)
  | [] => [[]]
  | c :: cs =>
    if c = separator then [] :: split separator cs
    else
      match split separator cs with
      | [] => [[c]]
      | part :: parts => (c :: part) :: parts

/-- `join(separator)`. -/
def join (separator : Char) : List (List Char) → List Char
  | [] => []
  | [part] => part
  | part :: next :: parts => part ++ separator :: join separator (next :: parts)

/-- `trim`. -/
def trim (text : List Char) : List Char :=
  ((text.dropWhile isSpace).reverse.dropWhile isSpace).reverse

theorem split_ne_nil (separator : Char) (text : List Char) : split separator text ≠ [] := by
  cases text with
  | nil => exact List.cons_ne_nil _ _
  | cons c cs =>
    rw [split]
    split
    · exact List.cons_ne_nil _ _
    · split <;> exact List.cons_ne_nil _ _

@[simp] theorem split_separator (separator : Char) (text : List Char) :
    split separator (separator :: text) = [] :: split separator text := by
  rw [split, if_pos rfl]

/-- The parts are the text again. -/
theorem join_split (separator : Char) (text : List Char) :
    join separator (split separator text) = text := by
  induction text with
  | nil => rfl
  | cons c cs ih =>
    have hne := split_ne_nil separator cs
    rw [split]
    split
    · next hc =>
      obtain ⟨part, parts, hparts⟩ := List.exists_cons_of_ne_nil hne
      rw [hparts] at ih ⊢
      rw [join, ih, hc]
      rfl
    · obtain ⟨part, parts, hparts⟩ := List.exists_cons_of_ne_nil hne
      rw [hparts] at ih ⊢
      cases parts with
      | nil => exact congrArg (c :: ·) ih
      | cons next parts => exact congrArg (c :: ·) ih

/-- No part has the separator in it. -/
theorem separator_notMem_of_mem_split {separator : Char} {text part : List Char}
    (h : part ∈ split separator text) : separator ∉ part := by
  induction text generalizing part with
  | nil =>
    obtain rfl := List.mem_singleton.mp h
    exact List.not_mem_nil
  | cons c cs ih =>
    rw [split] at h
    split at h
    · rcases List.mem_cons.mp h with rfl | h
      · exact List.not_mem_nil
      · exact ih h
    · next hc =>
      obtain ⟨head, parts, hparts⟩ := List.exists_cons_of_ne_nil (split_ne_nil separator cs)
      rw [hparts] at h
      rcases List.mem_cons.mp h with rfl | h
      · intro hmem
        rcases List.mem_cons.mp hmem with heq | hmem
        · exact hc heq.symm
        · exact ih (hparts ▸ List.mem_cons_self) hmem
      · exact ih (hparts ▸ List.mem_cons_of_mem _ h)

/-- The parts have the characters of the text. -/
theorem mem_of_mem_split {separator : Char} {text part : List Char}
    (h : part ∈ split separator text) : part ⊆ text := by
  intro c hc
  rw [← join_split separator text]
  have hjoin : ∀ parts : List (List Char), part ∈ parts → c ∈ join separator parts := by
    intro parts hpart
    induction parts with
    | nil => cases hpart
    | cons head parts ih =>
      cases parts with
      | nil =>
        obtain rfl := List.mem_singleton.mp hpart
        exact hc
      | cons next parts =>
        rw [join, List.mem_append, List.mem_cons]
        rcases List.mem_cons.mp hpart with rfl | hpart
        · exact .inl hc
        · exact .inr (.inr (ih hpart))
  exact hjoin _ h

/-- A joined text has the characters of its parts, and separators. -/
theorem mem_join {separator c : Char} {parts : List (List Char)} (h : c ∈ join separator parts) :
    c = separator ∨ ∃ part ∈ parts, c ∈ part := by
  induction parts with
  | nil => cases h
  | cons head parts ih =>
    cases parts with
    | nil => exact .inr ⟨head, List.mem_cons_self, h⟩
    | cons next parts =>
      rw [join, List.mem_append, List.mem_cons] at h
      rcases h with h | h | h
      · exact .inr ⟨head, List.mem_cons_self, h⟩
      · exact .inl h
      · rcases ih h with h | ⟨part, hpart, hc⟩
        · exact .inl h
        · exact .inr ⟨part, List.mem_cons_of_mem _ hpart, hc⟩

/-- Parts without the separator are found again. -/
theorem split_join {separator : Char} {parts : List (List Char)} (hne : parts ≠ [])
    (h : ∀ part ∈ parts, separator ∉ part) : split separator (join separator parts) = parts := by
  have happend : ∀ (part rest : List Char), separator ∉ part →
      split separator (part ++ separator :: rest) = part :: split separator rest := by
    intro part rest hpart
    induction part with
    | nil => exact split_separator separator rest
    | cons c part ih =>
      rw [List.mem_cons, not_or] at hpart
      rw [List.cons_append, split, if_neg (Ne.symm hpart.1), ih hpart.2]
  have hself : ∀ part : List Char, separator ∉ part → split separator part = [part] := by
    intro part hpart
    induction part with
    | nil => rfl
    | cons c part ih =>
      rw [List.mem_cons, not_or] at hpart
      rw [split, if_neg (Ne.symm hpart.1), ih hpart.2]
  induction parts with
  | nil => exact absurd rfl hne
  | cons part parts ih =>
    have hpart := h part List.mem_cons_self
    cases parts with
    | nil => exact hself part hpart
    | cons next parts =>
      rw [join, happend part _ hpart,
        ih (List.cons_ne_nil _ _) fun p hp => h p (List.mem_cons_of_mem _ hp)]

end Texts
