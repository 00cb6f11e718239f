import Mathlib
import AgentHost.Lib.CodeUnits

/-!
# Redaction (`operations/redact.js`)

What logs and diagnostics may show: a recursive walk over a value that rewrites its texts.

* `createRedactor` — the configured secrets, paths and home directory, longest first.
* `sanitizeWith` — the walk, over objects that may refer to one another in a cycle; it may be told to
  leave the texts as they are (`shownPart`).
* `Redactor.sanitizeString` — the rewriting steps of one text.
* `Redactor.redact` — the redacted value.
-/

open CodeUnits

namespace Redact

/-! ### Values -/

abbrev Ref := Nat

/-- A value; objects are references, so that they may be cyclic. -/
inductive Value
  | undefined
  | null
  | boolean (b : Bool)
  | number (n : Option ℚ)
  | string (text : CodeUnits)
  | bigint (n : Int)
  | callable
  | object (ref : Ref)
  deriving DecidableEq

/-- What stands at a reference: an `Error` with what is read of it, an array, or the own enumerable
    entries of any other object. -/
inductive HeapObject
  | error (name : CodeUnits) (code : Option CodeUnits) (message : CodeUnits)
  | array (items : List Value)
  | record (entries : List (CodeUnits × Value))

abbrev Heap := Ref → HeapObject

/-- A redacted value. A `mark` is a string that the walk itself writes. -/
inductive Shown
  | undefined
  | null
  | boolean (b : Bool)
  | number (n : Option ℚ)
  | string (text : CodeUnits)
  | bigint (n : Int)
  | mark (text : CodeUnits)
  | array (items : List Shown)
  | record (entries : List (CodeUnits × Shown))

def Shown.isUndefined : Shown → Bool
  | .undefined => true
  | _ => false

/-! ### Keys -/

/-- A unit without the case of its letter, as a pattern with the flag `i` compares it. -/
def foldCase (c : UInt16) : UInt16 := if 65 ≤ c ∧ c ≤ 90 then c + 32 else c

def sensitiveWords : List CodeUnits :=
  ["authorization", "cookie", "token", "secret", "password", "prompt", "text", "command",
    "metadata", "environment", "header", "headers"].map units

/-- The parts of a key between `.`, `_` and `-`. -/
def keyParts : CodeUnits → List CodeUnits
  | [] => [[]]
  | c :: rest =>
    if c = 46 ∨ c = 95 ∨ c = 45 then [] :: keyParts rest
    else
      match keyParts rest with
      | [] => [[c]]
      | part :: parts => (c :: part) :: parts

/-- `SENSITIVE_KEY`: no word has a separator, so a word between two of them is a part. -/
def SENSITIVE_KEY (key : CodeUnits) : Bool :=
  (keyParts key).any fun part => part.map foldCase ∈ sensitiveWords

/-- The words of `SENSITIVE_CAMEL_SUFFIX`. -/
def camelWords : List CodeUnits :=
  ["Authorization", "Cookie", "Token", "Secret", "Password", "Prompt", "Text", "Command",
    "Metadata", "Environment", "Header", "Headers"].map units

def SENSITIVE_CAMEL_SUFFIX (key : CodeUnits) : Bool :=
  camelWords.any fun word => word.isSuffixOf key

/-! ### The walk -/

/-- `map` with a callback that adds to the set of objects that were seen. -/
def walk {α β : Type} (callback : α → List Ref → β × List Ref) :
    List α → List Ref → List β × List Ref
  | [], seen => ([], seen)
  | a :: rest, seen =>
    let (b, seen) := callback a seen
    let (bs, seen) := walk callback rest seen
    (b :: bs, seen)

/-- An own property set to a value. -/
def setEntry (key : CodeUnits) (value : Shown) :
    List (CodeUnits × Shown) → List (CodeUnits × Shown)
  | [] => [(key, value)]
  | entry :: rest =>
    if entry.1 = key then (key, value) :: rest else entry :: setEntry key value rest

/-- `Object.fromEntries`: a later entry replaces an earlier one of its key. -/
def fromEntries (entries : List (CodeUnits × Shown)) : List (CodeUnits × Shown) :=
  entries.foldl (fun object entry => setEntry entry.1 entry.2 object) []

/-- The entries that are not undefined, as an object. -/
def compact (entries : List (CodeUnits × Shown)) : Shown :=
  .record (fromEntries (entries.filter fun entry => !entry.2.isUndefined))

/-- How many entries of an array under a key are shown. -/
def arrayLimit (key : CodeUnits) : Nat :=
  if key = units "recentLogs" then 200
  else if key ∈ ["counters", "gauges", "histograms", "buckets"].map units then 64
  else 20

def REDACTED : CodeUnits := units "[REDACTED]"
def TRUNCATED : CodeUnits := units "[TRUNCATED]"
def CIRCULAR : CodeUnits := units "[CIRCULAR]"

/-- `sanitize`, with what it does to a text. `levels` is what the depth leaves of 8. -/
def sanitizeWith (sanitizeString : CodeUnits → CodeUnits) (heap : Heap) :
    Nat → Bool → CodeUnits → Value → List Ref → Shown × List Ref
  | levels, structured, key, value, seen =>
    if SENSITIVE_KEY key || SENSITIVE_CAMEL_SUFFIX key then (.mark REDACTED, seen)
    else
      match value with
      | .undefined => (.undefined, seen)
      | .null => (.null, seen)
      | .boolean b => (.boolean b, seen)
      | .number n => (.number n, seen)
      | .string text => (.string (sanitizeString text), seen)
      | .bigint n => (.bigint n, seen)
      | .callable => (.undefined, seen)
      | .object ref =>
        let structured := structured || key = units "metrics" || key = units "readiness"
        match levels with
        | 0 => (.mark TRUNCATED, seen)
        | levels + 1 =>
          -- without `structured` only four levels of the eight are there
          if !structured && levels < 4 then (.mark TRUNCATED, seen)
          else if ref ∈ seen then (.mark CIRCULAR, seen)
          else
            match heap ref with
            | .error name code message =>
              (compact [(units "name", .string (sanitizeString name)),
                (units "code", (code.map fun code => .string (sanitizeString code)).getD .undefined),
                (units "message", .string (sanitizeString message))], ref :: seen)
            | .array items =>
              let (shown, seen) := walk
                (fun entry seen => sanitizeWith sanitizeString heap levels structured [] entry seen)
                (items.take (arrayLimit key)) (ref :: seen)
              (.array shown, seen)
            | .record entries =>
              let (shown, seen) := walk
                (fun entry seen =>
                  let (value, seen) := sanitizeWith sanitizeString heap levels structured entry.1
                    entry.2 seen
                  ((entry.1.take 64, value), seen))
                (entries.take 32) (ref :: seen)
              (compact shown, seen)

/-- What the walk shows of a value, with its texts as they are. -/
def shownPart (heap : Heap) (value : Value) : Shown :=
  (sanitizeWith id heap 8 false [] value []).1

/-! ### Patterns -/

/-- `\s`. -/
def isSpaceUnit (c : UInt16) : Bool :=
  (9 ≤ c && c ≤ 13) || c = 0x20 || c = 0xA0 || c = 0x1680 || (0x2000 ≤ c && c ≤ 0x200A) ||
    c = 0x2028 || c = 0x2029 || c = 0x202F || c = 0x205F || c = 0x3000 || c = 0xFEFF

/-- `\w`. -/
def isWordUnit (c : UInt16) : Bool :=
  (48 ≤ c && c ≤ 57) || (65 ≤ c && c ≤ 90) || c = 95 || (97 ≤ c && c ≤ 122)

/-- A unit of a bearer token: a letter, a digit or one of the signs below. -/
def isTokenUnit (c : UInt16) : Bool :=
  (isWordUnit c && c != 95) || c ∈ units "._~+/-"

/-- The length of the run of units of a class. -/
def run (unit : UInt16 → Bool) (text : CodeUnits) : Nat := (text.takeWhile unit).length

/-- The text begins with a word, whatever the case of its letters. -/
def startsWith (word : CodeUnits) (text : CodeUnits) : Bool :=
  (text.take word.length).map foldCase = word

/-- `BEARER`: the classes of its parts are disjoint, so each takes as much as there is. -/
def BEARER (last : Option UInt16) (text : CodeUnits) : Nat :=
  let blank := run isSpaceUnit (text.drop 6)
  let token := run isTokenUnit (text.drop (6 + blank))
  let padding := run (· = 61) (text.drop (6 + blank + token))
  if startsWith (units "bearer") text && !last.any isWordUnit && blank ≠ 0 && token ≠ 0 then
    6 + blank + token + padding
  else 0

/-- `https?:\/\/[^\s]+`. -/
def webAddress (_last : Option UInt16) (text : CodeUnits) : Nat :=
  let scheme := if startsWith (units "https://") text then 8
    else if startsWith (units "http://") text then 7
    else 0
  let rest := run (fun c => !isSpaceUnit c) (text.drop scheme)
  if scheme ≠ 0 && rest ≠ 0 then scheme + rest else 0

/-- `[\r\n\t]+`. -/
def lineBreaks (_last : Option UInt16) (text : CodeUnits) : Nat :=
  run (fun c => c = 9 || c = 10 || c = 13) text

/-! ### The rewriting of a text -/

/-- A replacement text with its `$` patterns carried out, for a pattern without groups. -/
def substitution (before matched after : CodeUnits) : CodeUnits → CodeUnits
  | 36 :: 36 :: rest => 36 :: substitution before matched after rest
  | 36 :: 38 :: rest => matched ++ substitution before matched after rest
  | 36 :: 96 :: rest => before ++ substitution before matched after rest
  | 36 :: 39 :: rest => after ++ substitution before matched after rest
  | c :: rest => c :: substitution before matched after rest
  | [] => []

/-- `path.split("/").at(-1)`. -/
def basename (path : CodeUnits) : CodeUnits :=
  (path.reverse.takeWhile (· ≠ 47)).reverse

/-- What the environment's `URL` makes of an address once its user, its password, its query and its
    fragment are removed; `none` where it throws. -/
abbrev StripUrl := CodeUnits → Option CodeUnits

/-- The callback that replaces an address. -/
def publicAddress (stripUrl : StripUrl) (candidate : CodeUnits) : CodeUnits :=
  match stripUrl candidate with
  | none => candidate
  | some text =>
    if text.getLast? = some 47 then
      text.dropLast ++ (if candidate.getLast? = some 47 then [47] else [])
    else text

/-- What a redactor keeps of its options. -/
structure Redactor where
  homeDirectory : Option CodeUnits
  secrets : List CodeUnits
  paths : List CodeUnits

namespace Redactor

/-- The text before the addresses in it are rewritten. -/
def maskText (redactor : Redactor) (text : CodeUnits) : CodeUnits :=
  let result := rewrite BEARER (fun _ => units "Bearer [REDACTED]") text
  let result := redactor.secrets.foldl
    (fun result secret => replaceAll secret (fun _ _ => REDACTED) result) result
  let result := match redactor.homeDirectory with
    | none => result
    | some homeDirectory =>
      if homeDirectory = [] then result
      else replaceAll homeDirectory (fun _ _ => units "$HOME") result
  redactor.paths.foldl
    (fun result path => replaceAll path
      (fun before after => substitution before path after (units "$PATH/" ++ basename path)) result)
    result

/-- The addresses that are rewritten in a text. -/
def addresses (redactor : Redactor) (text : CodeUnits) : List CodeUnits :=
  matchesOf webAddress (redactor.maskText text)

def sanitizeString (redactor : Redactor) (stripUrl : StripUrl) (text : CodeUnits) : CodeUnits :=
  let result := rewrite webAddress (publicAddress stripUrl) (redactor.maskText text)
  (rewrite lineBreaks (fun _ => units " ") result).take 512

/-- The redactor as a function, `createRedactor`'s result. -/
def redact (redactor : Redactor) (stripUrl : StripUrl) (heap : Heap) (value : Value) : Shown :=
  (sanitizeWith (redactor.sanitizeString stripUrl) heap 8 false [] value []).1

end Redactor

/-! ### The options -/

/-- `Buffer.byteLength(value, "utf8")`. -/
def utf8Length : CodeUnits → Nat
  | [] => 0
  | [c] => if c < 0x80 then 1 else if c < 0x800 then 2 else 3
  | c :: d :: rest =>
    if 0xD800 ≤ c ∧ c < 0xDC00 ∧ 0xDC00 ≤ d ∧ d < 0xE000 then 4 + utf8Length rest
    else (if c < 0x80 then 1 else if c < 0x800 then 2 else 3) + utf8Length (d :: rest)

/-- The options; an entry that is no string is `none`. -/
structure Options where
  homeDirectory : Option CodeUnits
  secrets : List (Option CodeUnits)
  paths : List (Option CodeUnits)

/-- The entries that a test accepts, once each, the longest first. -/
def longestFirst (accepted : CodeUnits → Bool) (entries : List (Option CodeUnits)) :
    List CodeUnits :=
  ((entries.reduceOption.filter accepted).eraseDups).insertionSort
    fun left right => right.length ≤ left.length

def createRedactor (options : Options) : Redactor where
  homeDirectory := options.homeDirectory.map fun text =>
    (text.reverse.dropWhile (· = 47)).reverse
  secrets := longestFirst (fun secret => 8 ≤ utf8Length secret) options.secrets
  paths := longestFirst (fun path => path.head? = some 47) options.paths

end Redact
