import AgentHost.Installation.Operations
import AgentHost.Lib.ShellWords

/-!
# The launcher's script

What a shell makes of the script that `writeLauncher` writes, and what the installer makes of it later.

* `launcherScript_words` — **Main**: the words of its command are the paths themselves, whatever their
  characters.
* `manages_launcherScript` — the script is recognized as this installation's, where the path needs no
  quoting.
-/

namespace AgentHost.Installation

variable {paths : Paths}

/-! ### The words of the command -/

/-- The command of the script, up to the launcher's own arguments. -/
def launcherCommand (paths : Paths) : List Char :=
  "AGENT_HOST_LAUNCHER_PATH=".toList ++ shellQuote paths.launcher ++ " exec ".toList ++
    shellQuote paths.nodePath ++ ' ' :: shellQuote paths.cli

theorem shellQuote_eq_quote (value : List Char) : shellQuote value = ShellWords.quote value := rfl

/-- The words of a command with an assignment, whose paths are quoted. -/
theorem words_command {assigned command : List Char}
    (hassigned : ∀ c ∈ assigned, ShellWords.isPlain c = true) (hassigned_ne : assigned ≠ [])
    (hcommand : ∀ c ∈ command, ShellWords.isPlain c = true) (hcommand_ne : command ≠ [])
    (launcher node script : List Char) :
    ShellWords.words (assigned ++ ShellWords.quote launcher ++ (' ' :: command ++ [' ']) ++
        ShellWords.quote node ++ ' ' :: ShellWords.quote script) =
      some [assigned ++ launcher, command, node, script] := by
  have hend : ShellWords.wordsFrom .plain none (ShellWords.quote script) = some [script] := by
    have hquote := ShellWords.words_quote script [] none
    rw [List.append_nil] at hquote
    exact hquote
  simp only [List.append_assoc, List.cons_append, List.nil_append]
  rw [ShellWords.words, ShellWords.wordsFrom_text hassigned hassigned_ne, ShellWords.words_quote,
    ShellWords.wordsFrom_blank rfl, ShellWords.wordsFrom_text hcommand hcommand_ne,
    ShellWords.wordsFrom_blank rfl, ShellWords.words_quote, ShellWords.wordsFrom_blank rfl, hend]
  rfl

/-- A shell reads the assignment, `exec` and the two paths. -/
theorem launcherCommand_words (paths : Paths) :
    ShellWords.words (launcherCommand paths) =
      some ["AGENT_HOST_LAUNCHER_PATH=".toList ++ paths.launcher, "exec".toList, paths.nodePath,
        paths.cli] := by
  have hvariable : ∀ c ∈ "AGENT_HOST_LAUNCHER_PATH=".toList, ShellWords.isPlain c = true := by
    rw [← List.all_eq_true]
    simp only [String.reduceToList]
    decide
  have hexec : ∀ c ∈ "exec".toList, ShellWords.isPlain c = true := by
    rw [← List.all_eq_true]
    simp only [String.reduceToList]
    decide
  have hblanks : " exec ".toList = ' ' :: "exec".toList ++ [' '] := by simp
  have hvariable_ne : "AGENT_HOST_LAUNCHER_PATH=".toList ≠ [] := by simp
  have hexec_ne : "exec".toList ≠ [] := by simp
  have hwords := words_command hvariable hvariable_ne hexec hexec_ne paths.launcher paths.nodePath
    paths.cli
  rw [← hblanks] at hwords
  exact hwords

theorem append_command (first assigned launcher command node script last : List Char) :
    first ++ assigned ++ launcher ++ command ++ node ++ ' ' :: script ++ last =
      first ++ (assigned ++ launcher ++ command ++ node ++ ' ' :: script) ++ last := by
  simp only [List.append_assoc, List.cons_append]

/-- **Main.** The script is the line that names the shell, and a command whose words are the paths
    themselves, whatever their characters; what the launcher is called with follows. -/
theorem launcherScript_words (paths : Paths) :
    launcherScript paths =
        "#!/bin/sh\n".toList ++ launcherCommand paths ++ " \"$@\"\n".toList ∧
      ShellWords.words (launcherCommand paths) =
        some ["AGENT_HOST_LAUNCHER_PATH=".toList ++ paths.launcher, "exec".toList, paths.nodePath,
          paths.cli] := by
  have hfirst : "#!/bin/sh\nAGENT_HOST_LAUNCHER_PATH=".toList =
      "#!/bin/sh\n".toList ++ "AGENT_HOST_LAUNCHER_PATH=".toList := by simp
  have hscript := append_command "#!/bin/sh\n".toList "AGENT_HOST_LAUNCHER_PATH=".toList
    (shellQuote paths.launcher) " exec ".toList (shellQuote paths.nodePath) (shellQuote paths.cli)
    " \"$@\"\n".toList
  rw [← hfirst] at hscript
  exact ⟨hscript, launcherCommand_words paths⟩

/-! ### The launcher is recognized -/

/-- Without apostrophes, a quoted text stands as it is between its quotes. -/
theorem shellQuote_eq {value : List Char} (h : '\'' ∉ value) :
    shellQuote value = '\'' :: value ++ ['\''] := by
  have hsame : value.flatMap (fun c => if c = '\'' then "'\"'\"'".toList else [c]) = value := by
    induction value with
    | nil => rfl
    | cons c value ih =>
      rw [List.mem_cons, not_or] at h
      rw [List.flatMap_cons, if_neg (Ne.symm h.1), ih h.2]
      rfl
  rw [shellQuote, hsame]

theorem manages_of_infix {before after : List Char} :
    manages paths (before ++ paths.cli ++ after) = true := by
  refine List.any_eq_true.mpr ⟨paths.cli ++ after, ?_, ?_⟩
  · exact (List.mem_tails _ _).mpr ⟨before, by rw [List.append_assoc]⟩
  · exact List.isPrefixOf_iff_prefix.mpr ⟨after, rfl⟩

theorem append_quoted (before value after : List Char) :
    before ++ ' ' :: ('\'' :: value ++ ['\'']) ++ after =
      (before ++ [' ', '\'']) ++ value ++ ('\'' :: after) := by
  simp only [List.append_assoc, List.cons_append, List.nil_append]

/-- The launcher that is written is recognized, where its path needs no quoting. -/
theorem manages_launcherScript (h : '\'' ∉ paths.cli) :
    manages paths (launcherScript paths) = true := by
  have hscript : ∀ before after : List Char,
      manages paths (before ++ ' ' :: shellQuote paths.cli ++ after) = true := by
    intro before after
    rw [shellQuote_eq h, append_quoted]
    exact manages_of_infix
  exact hscript _ _

-- with an apostrophe in the path, the script that was written is not recognized
example :
    let paths : Paths := ⟨"/home/o'hara/host".toList, "/home/o'hara/bin".toList, "/usr/bin/node".toList⟩
    manages paths (launcherScript paths) = false := by decide +kernel

end AgentHost.Installation
