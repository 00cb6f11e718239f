import Mathlib.Data.List.Basic

/-!
# Words of a shell command

The quoting of a POSIX shell: a command line is cut into words at blanks; between apostrophes every
character stands for itself, and between double quotes all but three do.

* `ShellWords.words` — the words of a line without expansions and operators, or nothing.
* `ShellWords.quote` — a text between apostrophes, its own apostrophes between double quotes.
* `ShellWords.words_quote` — **Main**: a quoted text is read as the text itself.
-/

namespace ShellWords

/-- Where in a line a character stands. -/
inductive Quoting
  | plain
  | single
  | double
  deriving DecidableEq

/-- A blank between words. -/
def isBlank (c : Char) : Bool := c == ' ' || c == '\t' || c == '\n'

/-- A character that means something else outside quotes. -/
def isSpecial (c : Char) : Bool :=
  ['|', '&', ';', '<', '>', '(', ')', '$', '\x60', '\\', '*', '?', '[', ']', '#', '~', '!', '{',
    '}'].contains c

/-- A character that means something else between double quotes. -/
def isExpansion (c : Char) : Bool := ['$', '\x60', '\\'].contains c

/-- The words of a line, after a word that has begun. -/
def wordsFrom : Quoting → Option (List Char) → List Char → Option (List (List Char))
  | .plain, word, [] => some word.toList
  | .single, _, [] => none
  | .double, _, [] => none
  | .plain, word, c :: cs =>
    if isBlank c then (wordsFrom .plain none cs).map fun words => word.toList ++ words
    else if c = '\'' then wordsFrom .single (some (word.getD [])) cs
    else if c = '"' then wordsFrom .double (some (word.getD [])) cs
    else if isSpecial c then none
    else wordsFrom .plain (some (word.getD [] ++ [c])) cs
  | .single, word, c :: cs =>
    if c = '\'' then wordsFrom .plain word cs
    else wordsFrom .single (some (word.getD [] ++ [c])) cs
  | .double, word, c :: cs =>
    if c = '"' then wordsFrom .plain word cs
    else if isExpansion c then none
    else wordsFrom .double (some (word.getD [] ++ [c])) cs

/-- The words of a line, where it has no expansion and no operator. -/
def words (line : List Char) : Option (List (List Char)) := wordsFrom .plain none line

/-- A text between apostrophes; each of its own apostrophes stands between double quotes. -/
def quote (text : List Char) : List Char :=
  '\'' :: text.flatMap (fun c => if c = '\'' then ['\'', '"', '\'', '"', '\''] else [c]) ++ ['\'']

theorem wordsFrom_blank {c : Char} (h : isBlank c = true) (word : Option (List Char))
    (cs : List Char) : wordsFrom .plain word (c :: cs) =
      (wordsFrom .plain none cs).map fun words => word.toList ++ words := by
  rw [wordsFrom, if_pos h]

/-- A character that stands for itself outside quotes. -/
def isPlain (c : Char) : Bool := !isBlank c && c != '\'' && c != '"' && !isSpecial c

theorem wordsFrom_plain {c : Char} (h : isPlain c = true) (word : Option (List Char))
    (cs : List Char) :
    wordsFrom .plain word (c :: cs) = wordsFrom .plain (some (word.getD [] ++ [c])) cs := by
  simp only [isPlain, Bool.and_eq_true, Bool.not_eq_true', bne_iff_ne] at h
  obtain ⟨⟨⟨hblank, hsingle⟩, hdouble⟩, hspecial⟩ := h
  rw [wordsFrom, if_neg (by rw [hblank]; exact Bool.false_ne_true), if_neg hsingle, if_neg hdouble,
    if_neg (by rw [hspecial]; exact Bool.false_ne_true)]

/-- A text of such characters. -/
theorem wordsFrom_text {text : List Char} (h : ∀ c ∈ text, isPlain c = true) (hne : text ≠ [])
    (word : Option (List Char)) (cs : List Char) :
    wordsFrom .plain word (text ++ cs) = wordsFrom .plain (some (word.getD [] ++ text)) cs := by
  induction text generalizing word with
  | nil => exact absurd rfl hne
  | cons c text ih =>
    rw [List.cons_append, wordsFrom_plain (h c List.mem_cons_self)]
    by_cases hnil : text = []
    · rw [hnil]
      rfl
    · rw [ih (fun d hd => h d (List.mem_cons_of_mem _ hd)) hnil, Option.getD_some,
        List.append_assoc]
      rfl

/-- Between the apostrophes of a quoted text. -/
theorem wordsFrom_quoted (text cs word : List Char) :
    wordsFrom .single (some word)
        (text.flatMap (fun c => if c = '\'' then ['\'', '"', '\'', '"', '\''] else [c]) ++
          '\'' :: cs) =
      wordsFrom .plain (some (word ++ text)) cs := by
  induction text generalizing word with
  | nil =>
    rw [List.append_nil]
    rfl
  | cons c text ih =>
    rw [List.flatMap_cons, List.append_assoc]
    have hword : word ++ c :: text = word ++ [c] ++ text := by rw [List.append_assoc]; rfl
    by_cases hc : c = '\''
    · -- the word goes on through the end of the quotes, the double quotes and the next apostrophe
      subst hc
      rw [hword, ← ih (word ++ ['\''])]
      rfl
    · rw [if_neg hc, List.singleton_append, wordsFrom, if_neg hc, hword]
      exact ih (word ++ [c])

/-- **Main.** A quoted text is read as the text itself, whatever its characters. -/
theorem words_quote (text cs : List Char) (word : Option (List Char)) :
    wordsFrom .plain word (quote text ++ cs) = wordsFrom .plain (some (word.getD [] ++ text)) cs := by
  have hquote : quote text ++ cs = '\'' ::
      (text.flatMap (fun c => if c = '\'' then ['\'', '"', '\'', '"', '\''] else [c]) ++
        '\'' :: cs) := by
    simp only [quote, List.cons_append, List.append_assoc, List.nil_append]
  rw [hquote, ← wordsFrom_quoted text cs (word.getD [])]
  rfl

end ShellWords
