import AgentHost.Lib.CodeUnits
import Mathlib.Logic.Function.Basic

namespace AgentHost

/-!
# The command line (`config.js`, `parseCommandLine`)

* `StringOption`, `ValueFlag` — the flags that take a value; `CommandOptions` — what they set.
* `parseFrom` — the loop of the parser; `parseCommandLine` — the parser.
* `readTo` — how far a list of arguments brings the parser (`parseFrom_append`); `LineStanding`, `lineStanding`
  — the same without what is recorded on the way (`lineStanding_readTo`).
* `spellings_agree_iff` — **Main**: `--flag=v` and `--flag v` are parsed alike, whatever follows, exactly
  where an argument before them is rejected already, or no flag before them waits for its value and `v`
  has no `=`.
-/

open CodeUnits

/-! ### Flags -/

/-- The options that a flag sets to a text. -/
inductive StringOption
  | configFile | bind | port | refreshMs | adapterTimeoutMs | enabledAdapters | codexTransport
  | codexSocket | cursorUserDataDirectory | cursorProjectsDirectory | tokenFile | lockFile | logLevel
  | logFile | dashboardUrl | dashboardDirectory | reportFile
  deriving DecidableEq

/-- The flags that take a value: one of these, or `--allowed-origin`, which may be repeated. -/
inductive ValueFlag
  | single (option : StringOption)
  | allowedOrigin
  deriving DecidableEq

def StringOption.all : List StringOption :=
  [.configFile, .bind, .port, .refreshMs, .adapterTimeoutMs, .enabledAdapters, .codexTransport,
    .codexSocket, .cursorUserDataDirectory, .cursorProjectsDirectory, .tokenFile, .lockFile, .logLevel,
    .logFile, .dashboardUrl, .dashboardDirectory, .reportFile]

def StringOption.flag : StringOption → String
  | configFile => "--config"
  | bind => "--bind"
  | port => "--port"
  | refreshMs => "--refresh-ms"
  | adapterTimeoutMs => "--adapter-timeout-ms"
  | enabledAdapters => "--enabled-adapters"
  | codexTransport => "--codex-transport"
  | codexSocket => "--codex-socket"
  | cursorUserDataDirectory => "--cursor-user-data-dir"
  | cursorProjectsDirectory => "--cursor-projects-dir"
  | tokenFile => "--token-file"
  | lockFile => "--lock-file"
  | logLevel => "--log-level"
  | logFile => "--log-file"
  | dashboardUrl => "--dashboard-url"
  | dashboardDirectory => "--dashboard-dir"
  | reportFile => "--report"

def ValueFlag.all : List ValueFlag := .allowedOrigin :: StringOption.all.map .single

def ValueFlag.text : ValueFlag → CodeUnits
  | single option => units option.flag
  | allowedOrigin => units "--allowed-origin"

/-- The flag with a text. -/
def valueFlag? (text : CodeUnits) : Option ValueFlag :=
  ValueFlag.all.find? fun flag => flag.text = text

/-! ### The parser -/

/-- `ConfigurationError`. -/
structure ConfigurationError where
  message : CodeUnits
  code : String
  deriving DecidableEq

/-- The options that flags have set. -/
structure CommandOptions where
  values : StringOption → Option CodeUnits
  allowedOrigins : Option (List CodeUnits)
  json : Bool

def CommandOptions.record (options : CommandOptions) : ValueFlag → CodeUnits → CommandOptions
  | .single option, value =>
    { options with values := Function.update options.values option (some value) }
  | .allowedOrigin, value =>
    { options with allowedOrigins := some (options.allowedOrigins.getD [] ++ [value]) }

/-- The variables of the loop. -/
structure ParserState where
  command : Option CodeUnits
  positionals : List CodeUnits
  options : CommandOptions
  terminated : Bool

def ParserState.initial : ParserState := ⟨none, [], ⟨fun _ => none, none, false⟩, false⟩

def ParserState.record (s : ParserState) (flag : ValueFlag) (value : CodeUnits) : ParserState :=
  { s with options := s.options.record flag value }

/-- `!command`. -/
def ParserState.needsCommand (s : ParserState) : Bool := s.command.getD [] = []

/-- `arg.startsWith("--")`. -/
def hasDashes (arg : CodeUnits) : Bool := (units "--").isPrefixOf arg

/-- `arg.split("=", 2)`: the parts before the first separator, and from there to the second one. -/
def splitTwo (arg : CodeUnits) : List CodeUnits := (arg.splitOn 61).take 2

/-- `requires a value`. -/
def missingValue (flag : CodeUnits) : ConfigurationError :=
  ⟨flag ++ units " requires a value", "invalid_cli_argument"⟩

def unknownOption (flag : CodeUnits) : ConfigurationError :=
  ⟨units "unknown option: " ++ flag, "invalid_cli_argument"⟩

/-- The loop over the arguments. -/
def parseFrom (s : ParserState) : List CodeUnits → Except ConfigurationError ParserState
  | [] => .ok s
  | arg :: rest =>
    if s.terminated then parseFrom { s with positionals := s.positionals ++ [arg] } rest
    else if arg = units "--" then parseFrom { s with terminated := true } rest
    else if s.needsCommand && !hasDashes arg then parseFrom { s with command := some arg } rest
    else if !hasDashes arg then parseFrom { s with positionals := s.positionals ++ [arg] } rest
    else
      let flag := (splitTwo arg).headD []
      match valueFlag? flag with
      | some option =>
        match (splitTwo arg)[1]? with
        | some inline => parseFrom (s.record option inline) rest
        | none =>
          match rest with
          | value :: rest => parseFrom (s.record option value) rest
          | [] => .error (missingValue flag)
      | none =>
        if flag = units "--json" then
          parseFrom { s with options := { s.options with json := true } } rest
        else .error (unknownOption flag)

structure ParsedCommandLine where
  command : CodeUnits
  positionals : List CodeUnits
  options : CommandOptions

def parseCommandLine (argv : List CodeUnits) : Except ConfigurationError ParsedCommandLine :=
  (parseFrom .initial argv).map fun s =>
    ⟨s.command.getD (units "serve"), s.positionals, s.options⟩

/-! ### One argument -/

/-- What an argument does to the parser: it goes on, takes the next argument as the value of a flag, or
    stops. -/
inductive Reading
  | next (s : ParserState)
  | wants (flag : ValueFlag) (text : CodeUnits)
  | rejected (error : ConfigurationError)

def readArgument (s : ParserState) (arg : CodeUnits) : Reading :=
  if s.terminated then .next { s with positionals := s.positionals ++ [arg] }
  else if arg = units "--" then .next { s with terminated := true }
  else if s.needsCommand && !hasDashes arg then .next { s with command := some arg }
  else if !hasDashes arg then .next { s with positionals := s.positionals ++ [arg] }
  else
    let flag := (splitTwo arg).headD []
    match valueFlag? flag with
    | some option =>
      match (splitTwo arg)[1]? with
      | some inline => .next (s.record option inline)
      | none => .wants option flag
    | none =>
      if flag = units "--json" then
        .next { s with options := { s.options with json := true } }
      else .rejected (unknownOption flag)

/-- The loop, one argument at a time. -/
theorem parseFrom_cons (s : ParserState) (arg : CodeUnits) (rest : List CodeUnits) :
    parseFrom s (arg :: rest) =
      match readArgument s arg with
      | .next s' => parseFrom s' rest
      | .wants option flag =>
        match rest with
        | value :: rest => parseFrom (s.record option value) rest
        | [] => .error (missingValue flag)
      | .rejected error => .error error := by
  rw [parseFrom, readArgument]
  by_cases hterminated : s.terminated = true
  · rw [if_pos hterminated, if_pos hterminated]
  rw [if_neg hterminated, if_neg hterminated]
  by_cases hend : arg = units "--"
  · rw [if_pos hend, if_pos hend]
  rw [if_neg hend, if_neg hend]
  by_cases hcommand : (s.needsCommand && !hasDashes arg) = true
  · rw [if_pos hcommand, if_pos hcommand]
  rw [if_neg hcommand, if_neg hcommand]
  by_cases hflag : (!hasDashes arg) = true
  · rw [if_pos hflag, if_pos hflag]
  rw [if_neg hflag, if_neg hflag]
  dsimp only
  split
  · split <;> rfl
  · split <;> rfl

/-! ### A list of arguments -/

/-- How far a list of arguments brings the parser. -/
inductive ReadTo
  | ready (s : ParserState)
  | waiting (s : ParserState) (flag : ValueFlag) (text : CodeUnits)
  | rejected (error : ConfigurationError)

def readTo (s : ParserState) : List CodeUnits → ReadTo
  | [] => .ready s
  | arg :: rest =>
    match readArgument s arg with
    | .next s' => readTo s' rest
    | .wants option flag =>
      match rest with
      | value :: rest => readTo (s.record option value) rest
      | [] => .waiting s option flag
    | .rejected error => .rejected error

/-- The parser goes on from where the first arguments bring it. -/
theorem parseFrom_append (s : ParserState) (before more : List CodeUnits) :
    parseFrom s (before ++ more) =
      match readTo s before, more with
      | .ready s', more => parseFrom s' more
      | .waiting s' option _, value :: more => parseFrom (s'.record option value) more
      | .waiting _ _ flag, [] => .error (missingValue flag)
      | .rejected error, _ => .error error := by
  fun_induction readTo s before with
  | case1 s => rfl
  | case2 s arg rest s' hread ih => rw [List.cons_append, parseFrom_cons, hread]; exact ih
  | case3 s arg option flag hread value rest ih =>
    rw [List.cons_append, parseFrom_cons, hread]
    exact ih
  | case4 s arg option flag hread =>
    rw [List.cons_append, parseFrom_cons, hread]
    cases more <;> rfl
  | case5 s arg rest error hread => rw [List.cons_append, parseFrom_cons, hread]

/-- Where a list of arguments leaves the parser: between two arguments, at a flag without its value,
    behind `--`, or nowhere, as one of them is not known. -/
inductive LineStanding
  | ready | waiting | terminated | rejected
  deriving DecidableEq

def lineStanding : List CodeUnits → LineStanding
  | [] => .ready
  | arg :: rest =>
    if arg = units "--" then .terminated
    else if !hasDashes arg then lineStanding rest
    else
      match valueFlag? ((splitTwo arg).headD []) with
      | some _ =>
        match (splitTwo arg)[1]? with
        | some _ => lineStanding rest
        | none =>
          match rest with
          | _ :: rest => lineStanding rest
          | [] => .waiting
      | none =>
        if (splitTwo arg).headD [] = units "--json" then lineStanding rest else .rejected

/-- What a standing says of the parser. -/
def LineStanding.Describes : LineStanding → ReadTo → Prop
  | ready, read => ∃ s, read = .ready s ∧ s.terminated = false
  | waiting, read => ∃ s flag text, read = .waiting s flag text
  | terminated, _ => True
  | rejected, read => ∃ error, read = .rejected error

/-- A flag, before `--`. -/
theorem readArgument_flag {s : ParserState} {arg : CodeUnits} (h : s.terminated = false)
    (hend : arg ≠ units "--") (hflag : hasDashes arg = true) :
    readArgument s arg =
      match valueFlag? ((splitTwo arg).headD []) with
      | some option =>
        match (splitTwo arg)[1]? with
        | some inline => .next (s.record option inline)
        | none => .wants option ((splitTwo arg).headD [])
      | none =>
        if (splitTwo arg).headD [] = units "--json" then
          .next { s with options := { s.options with json := true } }
        else .rejected (unknownOption ((splitTwo arg).headD [])) := by
  rw [readArgument, h, if_neg Bool.false_ne_true, if_neg hend, if_neg (by simp [hflag]),
    if_neg (by simp [hflag])]

/-- An argument that is no flag, before `--`. -/
theorem readArgument_plain {s : ParserState} {arg : CodeUnits} (h : s.terminated = false)
    (hend : arg ≠ units "--") (hflag : hasDashes arg = false) :
    ∃ s', readArgument s arg = .next s' ∧ s'.terminated = false := by
  rw [readArgument, h, if_neg Bool.false_ne_true, if_neg hend]
  by_cases hcommand : s.needsCommand = true
  · rw [if_pos (by simp [hcommand, hflag])]
    exact ⟨_, rfl, rfl⟩
  · rw [if_neg (by simp [hcommand]), if_pos (by simp [hflag])]
    exact ⟨_, rfl, rfl⟩

theorem lineStanding_readTo {s : ParserState} (h : s.terminated = false) (before : List CodeUnits) :
    (lineStanding before).Describes (readTo s before) := by
  fun_induction lineStanding before generalizing s with
  | case1 => exact ⟨s, rfl, h⟩
  | case2 rest => trivial
  | case3 arg rest hend hflag ih =>
    rw [Bool.not_eq_true'] at hflag
    obtain ⟨s', hread, hs'⟩ := readArgument_plain h hend hflag
    rw [readTo, hread]
    exact ih hs'
  | case4 arg rest hend hflag option hoption inline hinline ih =>
    have hread := readArgument_flag h hend (by simpa using hflag)
    rw [hoption, hinline] at hread
    rw [readTo, hread]
    exact ih h
  | case5 arg hend hflag option hoption hinline value rest ih =>
    have hread := readArgument_flag h hend (by simpa using hflag)
    rw [hoption, hinline] at hread
    rw [readTo, hread]
    exact ih h
  | case6 arg hend hflag option hoption hinline =>
    have hread := readArgument_flag h hend (by simpa using hflag)
    rw [hoption, hinline] at hread
    rw [readTo, hread]
    exact ⟨s, _, _, rfl⟩
  | case7 arg rest hend hflag hoption hjson ih =>
    have hread := readArgument_flag h hend (by simpa using hflag)
    rw [hoption] at hread
    simp only [if_pos hjson] at hread
    rw [readTo, hread]
    exact ih h
  | case8 arg rest hend hflag hoption hjson =>
    have hread := readArgument_flag h hend (by simpa using hflag)
    rw [hoption] at hread
    simp only [if_neg hjson] at hread
    rw [readTo, hread]
    exact ⟨_, rfl⟩

/-! ### Flags and values -/

theorem ValueFlag.text_spec (flag : ValueFlag) :
    hasDashes flag.text = true ∧ flag.text ≠ units "--" ∧ 61 ∉ flag.text ∧
      valueFlag? flag.text = some flag := by
  cases flag with
  | allowedOrigin => decide
  | single option => cases option <;> decide

/-- The part behind the first separator ends at the second one. -/
theorem splitTwo_inline {flag value : CodeUnits} (h : 61 ∉ flag) :
    ∃ part, splitTwo (flag ++ 61 :: value) = [flag, part] ∧ (part = value ↔ 61 ∉ value) := by
  rw [splitTwo, List.splitOn_append_cons_self_of_not_mem h]
  by_cases hvalue : (61 : UInt16) ∈ value
  · obtain ⟨part, rest, rfl, hpart⟩ := List.eq_append_cons_of_mem hvalue
    rw [List.splitOn_append_cons_self_of_not_mem hpart]
    refine ⟨part, rfl, fun heq => ?_, fun hnot => absurd hvalue hnot⟩
    have hlength := congrArg List.length heq
    rw [List.length_append, List.length_cons] at hlength
    omega
  · rw [List.splitOn_eq_singleton hvalue]
    exact ⟨value, rfl, by simp [hvalue]⟩

/-- A part behind a separator is shorter than the argument. -/
theorem length_lt_of_splitTwo {arg part : CodeUnits} (h : (splitTwo arg)[1]? = some part) :
    part.length < arg.length := by
  have hjoin : List.intercalate [61] (arg.splitOn 61) = arg := List.intercalate_splitOn 61
  rw [splitTwo] at h
  match hsplit : arg.splitOn 61 with
  | [] => exact absurd hsplit (List.splitOn_ne_nil _ _)
  | [only] => rw [hsplit] at h; cases h
  | first :: second :: rest =>
    rw [hsplit] at h hjoin
    cases h
    rw [List.intercalate_cons_cons] at hjoin
    have hlength := congrArg List.length hjoin
    have hpart : part.length ≤ (List.intercalate [61] (part :: rest)).length := by
      cases rest with
      | nil => rw [List.intercalate_singleton]
      | cons third rest =>
        rw [List.intercalate_cons_cons, List.length_append, List.length_append]
        omega
    rw [List.length_append, List.length_append, List.length_singleton] at hlength
    omega

/-- The flag alone. -/
theorem readArgument_text {s : ParserState} (h : s.terminated = false) (flag : ValueFlag) :
    readArgument s flag.text = .wants flag flag.text := by
  obtain ⟨hflag, hend, hseparator, hfind⟩ := flag.text_spec
  have hsplit : splitTwo flag.text = [flag.text] := by
    rw [splitTwo, List.splitOn_eq_singleton hseparator]
    rfl
  have hread := readArgument_flag h hend hflag
  rw [hsplit, List.headD_cons, hfind] at hread
  exact hread

/-- The flag with a value. -/
theorem readArgument_inline {s : ParserState} (h : s.terminated = false) (flag : ValueFlag)
    (value : CodeUnits) : ∃ part, (part = value ↔ 61 ∉ value) ∧
      readArgument s (flag.text ++ 61 :: value) = .next (s.record flag part) := by
  obtain ⟨hflag, _, hseparator, hfind⟩ := flag.text_spec
  obtain ⟨part, hsplit, hpart⟩ :
      ∃ part, splitTwo (flag.text ++ 61 :: value) = [flag.text, part] ∧ (part = value ↔ 61 ∉ value) :=
    splitTwo_inline hseparator
  have hend : flag.text ++ 61 :: value ≠ units "--" := by
    intro heq
    have hmem : (61 : UInt16) ∈ units "--" := heq ▸ List.mem_append_right _ List.mem_cons_self
    exact absurd hmem (by decide)
  have hprefix : hasDashes (flag.text ++ 61 :: value) = true := by
    rw [hasDashes, List.isPrefixOf_iff_prefix] at hflag ⊢
    exact hflag.trans (List.prefix_append _ _)
  have hread := readArgument_flag h hend hprefix
  rw [hsplit, List.headD_cons, hfind] at hread
  exact ⟨part, hpart, hread⟩

/-! ### The last value of a flag -/

/-- The value that a flag was given last. -/
def CommandOptions.latest (options : CommandOptions) : ValueFlag → Option CodeUnits
  | .single option => options.values option
  | .allowedOrigin => options.allowedOrigins.bind List.getLast?

@[simp] theorem CommandOptions.latest_record (options : CommandOptions) (flag : ValueFlag)
    (value : CodeUnits) : (options.record flag value).latest flag = some value := by
  cases flag with
  | single option => exact Function.update_self ..
  | allowedOrigin => simp [record, latest]

theorem CommandOptions.latest_record_of_ne (options : CommandOptions) {flag other : ValueFlag}
    (h : other ≠ flag) (value : CodeUnits) :
    (options.record flag value).latest other = options.latest other := by
  cases flag with
  | allowedOrigin =>
    cases other with
    | allowedOrigin => exact absurd rfl h
    | single _ => rfl
  | single option =>
    cases other with
    | allowedOrigin => rfl
    | single other => exact Function.update_of_ne (fun heq => h (congrArg _ heq)) ..

/-- One argument gives a flag no value, or a part of itself. -/
theorem latest_readArgument {s s' : ParserState} {arg : CodeUnits}
    (h : readArgument s arg = .next s') (flag : ValueFlag) :
    s'.options.latest flag = s.options.latest flag ∨
      ∃ part, s'.options.latest flag = some part ∧ part.length < arg.length := by
  unfold readArgument at h
  split at h
  next => exact .inl (by cases h; rfl)
  split at h
  next => exact .inl (by cases h; rfl)
  split at h
  next => exact .inl (by cases h; rfl)
  split at h
  next => exact .inl (by cases h; rfl)
  dsimp only at h
  split at h
  next option hoption =>
    split at h
    next inline hinline =>
      cases h
      by_cases hsame : flag = option
      · subst hsame
        exact .inr ⟨inline, CommandOptions.latest_record .., length_lt_of_splitTwo hinline⟩
      · exact .inl (CommandOptions.latest_record_of_ne _ hsame _)
    next => cases h
  next =>
    split at h
    next => exact .inl (by cases h; cases flag <;> rfl)
    next => cases h

/-! ### The two spellings -/

/-- Both spellings of a value, between the same arguments, are parsed alike. -/
def SpellingsAgree (flag : ValueFlag) (value : CodeUnits) (before after : List CodeUnits) : Prop :=
  parseCommandLine (before ++ (flag.text ++ 61 :: value) :: after) =
    parseCommandLine (before ++ flag.text :: value :: after)

/-- Alike results have the same last values. -/
theorem latest_of_map_eq {s : ParserState} {result : Except ConfigurationError ParserState}
    {f : ParserState → ParsedCommandLine} (hf : ∀ s, (f s).options = s.options)
    (h : (Except.ok s : Except ConfigurationError ParserState).map f = result.map f) :
    ∃ s', result = .ok s' ∧ s'.options = s.options := by
  cases result with
  | error error => cases h
  | ok s' =>
    refine ⟨s', rfl, ?_⟩
    have hparsed : f s = f s' := by injection h
    rw [← hf, ← hf, hparsed]

/-- **Main.** The two spellings of a value agree, whatever follows them, exactly where an argument before
    them is rejected, or where no flag before them waits for its value and the value has no `=`. -/
theorem spellings_agree_iff (flag : ValueFlag) (value : CodeUnits) (before : List CodeUnits)
    (hbefore : lineStanding before ≠ .terminated) :
    (∀ after, SpellingsAgree flag value before after) ↔
      lineStanding before = .rejected ∨ lineStanding before = .ready ∧ 61 ∉ value := by
  have hdescribes := lineStanding_readTo (s := .initial) rfl before
  unfold SpellingsAgree parseCommandLine
  simp only [parseFrom_append]
  match hstanding : lineStanding before with
  | .terminated => exact absurd hstanding hbefore
  | .rejected =>
    rw [hstanding] at hdescribes
    obtain ⟨error, hread⟩ := hdescribes
    simp [hread]
  | .ready =>
    rw [hstanding] at hdescribes
    obtain ⟨s, hread, hs⟩ := hdescribes
    obtain ⟨part, hpart, hinline⟩ := readArgument_inline hs flag value
    simp only [hread, parseFrom_cons, hinline, readArgument_text hs flag]
    constructor
    · intro h
      obtain ⟨s', hs', hoptions⟩ := latest_of_map_eq (fun _ => rfl) (h [])
      cases hs'
      have hlatest := congrArg (fun options => options.latest flag) hoptions
      simp only [ParserState.record, CommandOptions.latest_record, Option.some.injEq] at hlatest
      exact .inr ⟨trivial, hpart.mp hlatest.symm⟩
    · rintro (h | ⟨_, h⟩) after
      · cases h
      · rw [hpart.mpr h]
  | .waiting =>
    rw [hstanding] at hdescribes
    obtain ⟨s, other, text, hread⟩ := hdescribes
    simp only [hread]
    constructor
    · intro h
      -- the value that the waiting flag was given last has different lengths
      obtain ⟨s', hs', hoptions⟩ := latest_of_map_eq (fun _ => rfl) (h [])
      have hlatest : s'.options.latest other = some (flag.text ++ 61 :: value) := by
        rw [hoptions]
        exact CommandOptions.latest_record ..
      have hlength : flag.text.length + value.length < (flag.text ++ 61 :: value).length := by
        rw [List.length_append, List.length_cons]
        omega
      rw [parseFrom_cons] at hs'
      split at hs'
      next s'' hnext =>
        obtain rfl : s'' = s' := by cases hs'; rfl
        obtain hkeeps | ⟨part, hgives, hshort⟩ := latest_readArgument hnext other
        · have hfirst : s''.options.latest other = some flag.text := by
            rw [hkeeps]
            exact CommandOptions.latest_record ..
          rw [hlatest, Option.some.injEq] at hfirst
          have := congrArg List.length hfirst
          omega
        · rw [hlatest, Option.some.injEq] at hgives
          have := congrArg List.length hgives
          omega
      next => cases hs'
      next => cases hs'
    · rintro (h | ⟨h, _⟩) <;> cases h

/-- A value with `=` is cut. -/
theorem equals_sign_cut : ¬ SpellingsAgree (.single .configFile) (units "/a=b") [] [] := by
  intro h
  have hvalue := congrArg (fun result => result.toOption.bind fun parsed =>
    parsed.options.values .configFile) h
  revert hvalue
  decide +kernel

theorem spellings_agree_iff_port :
    (∀ after, SpellingsAgree (.single .port) (units "4777") [units "serve"] after) ↔
      lineStanding [units "serve"] = .rejected ∨
        lineStanding [units "serve"] = .ready ∧ 61 ∉ units "4777" :=
  spellings_agree_iff _ _ _ (by decide)

end AgentHost
