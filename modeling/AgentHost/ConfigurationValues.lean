import Mathlib
import AgentHost.CommandLine
import AgentHost.Lib.JsonTexts
import AgentHost.Lib.PosixPath

/-!
# The values of a configuration (`config.js`, the normalizers)

Every normalizer reads a value of any source into a type whose values are normal: a path that is
absolute, an integer within its bounds, an origin that is its own origin.

* `integer`, `normalizeAdapters`, `normalizeOrigin`, `resolveConfiguredPath`,
  `resolveCursorSdkBridge` — the normalizers.
* `IntegerIn`, `AdapterNames`, `Origin`, `AbsolutePath`, `CursorSdkBridge` — what they yield, and
  `value` of each — what it is written as.
* `integer_value`, `normalizeAdapters_value`, `normalizeOrigins_value`,
  `resolveConfiguredPath_value`, `resolveCursorSdkBridge_value` — **Main**: a normalizer reads what
  was written as it was, in every directory.
-/

/-! ### Texts of values -/

namespace JsonValue

mutual

/-- `String(value)`. -/
def toText : JsonValue → String
  | .null => "null"
  | .bool true => "true"
  | .bool false => "false"
  | .number (some q) => String.ofList (NumberText.text q)
  | .number none => "Infinity"
  | .string s => s
  | .array items => itemsText items
  | .object _ => "[object Object]"

/-- `String(items)`: with commas between them, and nothing for `null`. -/
def itemsText : List JsonValue → String
  | [] => ""
  | [.null] => ""
  | [item] => toText item
  | .null :: items => "," ++ itemsText items
  | item :: items => toText item ++ "," ++ itemsText items

end

/-- `Number(value)`; `none` where it is infinite or not a number. -/
def toNumber : JsonValue → Option ℚ
  | .null => some 0
  | .bool b => some (if b then 1 else 0)
  | .number value => value
  | .string s => JsonParse.numberOfText s
  | .array items => JsonParse.numberOfText (itemsText items)
  | .object _ => none

end JsonValue

namespace AgentHost.Config

open JsonValue

/-- A result together with what is known of it. -/
def certify {ε α : Type} {P : α → Prop} :
    (result : Except ε α) → (∀ a, result = .ok a → P a) → Except ε {a // P a}
  | .ok a, h => .ok ⟨a, h a rfl⟩
  | .error error, _ => .error error

theorem certify_ok {ε α : Type} {P : α → Prop} {result : Except ε α}
    (h : ∀ a, result = .ok a → P a) {a : {a // P a}} (hresult : result = .ok a.1) :
    certify result h = .ok a := by
  subst hresult
  rfl

/-- `new ConfigurationError(message)`. -/
def configurationError (message : String) : ConfigurationError :=
  ⟨units message, "invalid_configuration"⟩

/-! ### Integers -/

/-- An integer from `minimum` to `maximum`. -/
def IntegerIn (minimum maximum : ℤ) : Type := {n : ℤ // minimum ≤ n ∧ n ≤ maximum}

def IntegerIn.value {minimum maximum : ℤ} (n : IntegerIn minimum maximum) : JsonValue :=
  .number (some (n.1 : ℚ))

def integer (value : Option JsonValue) (name : String) (minimum maximum : ℤ) :
    Except ConfigurationError (IntegerIn minimum maximum) :=
  match value.bind toNumber with
  | some q =>
    if h : q.den = 1 ∧ minimum ≤ q.num ∧ q.num ≤ maximum then .ok ⟨q.num, h.2⟩
    else .error (configurationError (name ++ " must be an integer from " ++ toString minimum ++
      " to " ++ toString maximum))
  | none => .error (configurationError (name ++ " must be an integer from " ++ toString minimum ++
      " to " ++ toString maximum))

theorem integer_value {minimum maximum : ℤ} (n : IntegerIn minimum maximum) (name : String) :
    integer (some n.value) name minimum maximum = .ok n := by
  have hbounds : ((n.1 : ℚ).den = 1 ∧ minimum ≤ (n.1 : ℚ).num ∧ (n.1 : ℚ).num ≤ maximum) :=
    ⟨Rat.den_intCast n.1, n.2⟩
  exact dif_pos hbounds

/-! ### Lists -/

/-- `splitList`. -/
def splitList (text : String) : List String :=
  (((Texts.split ',' text.toList).map Texts.trim).filter (· ≠ [])).map String.ofList

/-- A list of values, or the parts of a text. -/
def listOf (value : Option JsonValue) : Except ConfigurationError (List JsonValue) :=
  match value with
  | some (.array items) => .ok items
  | some (.string text) => .ok ((splitList text).map .string)
  | _ => .error (configurationError "list configuration values must be strings or arrays")

/-- `AVAILABLE_ADAPTER_NAMES`. -/
inductive AdapterName
  | codex | herdr | process | cursorDesktop | cursorSdkBridge
  deriving DecidableEq

def AdapterName.texts : TextSet AdapterName where
  all := [.codex, .herdr, .process, .cursorDesktop, .cursorSdkBridge]
  text
    | .codex => "codex"
    | .herdr => "herdr"
    | .process => "process"
    | .cursorDesktop => "cursor-desktop"
    | .cursorSdkBridge => "cursor-sdk-bridge"
  find?_text := by intro name; cases name <;> rfl

def AdapterName.value (name : AdapterName) : JsonValue := .string (AdapterName.texts.text name)

/-- Some adapters, each once. -/
def AdapterNames : Type := {names : List AdapterName // names ≠ [] ∧ names.Nodup}

def AdapterNames.value (names : AdapterNames) : JsonValue := .array (names.1.map AdapterName.value)

/-- The loop of `normalizeAdapters`, with the adapters so far. -/
def uniqueAdapters : List AdapterName → List JsonValue →
    Except ConfigurationError (List AdapterName)
  | unique, [] => .ok unique
  | unique, adapter :: adapters =>
    match AdapterName.texts.ofValue? (some adapter) with
    | none => .error (configurationError ("unknown enabled adapter: " ++ adapter.toText))
    | some name =>
      if name ∈ unique then
        .error (configurationError ("duplicate enabled adapter: " ++ adapter.toText))
      else uniqueAdapters (unique ++ [name]) adapters

theorem uniqueAdapters_spec {adapters : List JsonValue} {unique names : List AdapterName}
    (h : uniqueAdapters unique adapters = .ok names) (hunique : unique.Nodup) :
    names.Nodup ∧ unique.length + adapters.length = names.length := by
  induction adapters generalizing unique with
  | nil =>
    cases h
    exact ⟨hunique, rfl⟩
  | cons adapter adapters ih =>
    rw [uniqueAdapters] at h
    split at h
    · cases h
    · next name _ =>
      split at h
      · cases h
      · next hnew =>
        obtain ⟨hnodup, hlength⟩ := ih h (List.Nodup.append hunique (List.nodup_singleton name)
          (List.disjoint_singleton.mpr hnew))
        rw [List.length_append, List.length_singleton] at hlength
        exact ⟨hnodup, by rw [List.length_cons]; omega⟩

/-- `normalizeAdapters`, of a list that is not empty. -/
def adaptersOf (adapters : List JsonValue) (hne : adapters ≠ []) :
    Except ConfigurationError AdapterNames :=
  certify (uniqueAdapters [] adapters) fun names h => by
    obtain ⟨hnodup, hlength⟩ := uniqueAdapters_spec h List.nodup_nil
    refine ⟨?_, hnodup⟩
    rintro rfl
    exact hne (List.eq_nil_of_length_eq_zero (by simpa using hlength))

def normalizeAdapters (value : Option JsonValue) : Except ConfigurationError AdapterNames := do
  let adapters ← listOf value
  if hne : adapters ≠ [] then adaptersOf adapters hne
  else .error (configurationError "enabledAdapters must contain at least one adapter")

theorem uniqueAdapters_value {unique names : List AdapterName} (h : (unique ++ names).Nodup) :
    uniqueAdapters unique (names.map AdapterName.value) = .ok (unique ++ names) := by
  induction names generalizing unique with
  | nil => rw [List.append_nil]; rfl
  | cons name names ih =>
    have hnew : name ∉ unique := fun hmem => (List.disjoint_of_nodup_append h) hmem
      List.mem_cons_self
    have hrest : (unique ++ [name] ++ names).Nodup := by rwa [List.append_assoc]
    rw [List.map_cons, uniqueAdapters, AdapterName.value, TextSet.ofValue?_text]
    dsimp only
    rw [if_neg hnew, ih hrest, List.append_assoc]
    rfl

theorem normalizeAdapters_value (names : AdapterNames) :
    normalizeAdapters (some names.value) = .ok names := by
  have hne : names.1.map AdapterName.value ≠ [] := fun h => names.2.1 (List.map_eq_nil_iff.mp h)
  show (if hne : names.1.map AdapterName.value ≠ [] then adaptersOf _ hne else _) = _
  rw [dif_pos hne]
  have hread : uniqueAdapters [] (names.1.map AdapterName.value) = .ok names.1 :=
    uniqueAdapters_value names.2.2
  exact certify_ok _ hread

/-! ### Origins -/

/-- What `new URL` yields. -/
structure Url where
  protocol : String
  hostname : String
  port : String
  username : String
  password : String
  pathname : String
  search : String
  hash : String
  origin : String

variable (parseUrl : String → Option Url)

/-- A text is a canonical origin. -/
def IsOrigin (text : String) : Prop :=
  text ≠ "" ∧ ∃ url ∈ parseUrl text,
    (url.protocol = "http:" ∨ url.protocol = "https:") ∧ url.origin = text

/-- A canonical origin. -/
def Origin : Type := {text : String // IsOrigin parseUrl text}

instance : DecidableEq (Origin parseUrl) := Subtype.instDecidableEq

variable {parseUrl}

def Origin.value (origin : Origin parseUrl) : JsonValue := .string origin.1

variable (parseUrl)

def normalizeOrigin (value : JsonValue) (name : String) :
    Except ConfigurationError (Origin parseUrl) :=
  match value with
  | .string text =>
    if hne : text ≠ "" then
      match hurl : parseUrl text with
      | none => .error (configurationError (name ++ " contains an invalid URL: " ++ text))
      | some url =>
        if h : (url.protocol = "http:" ∨ url.protocol = "https:") ∧ url.origin = text then
          .ok ⟨text, hne, url, hurl, h⟩
        else .error (configurationError
          (name ++ " must use canonical http(s) origins: " ++ text))
    else .error (configurationError (name ++ " must contain canonical origins"))
  | _ => .error (configurationError (name ++ " must contain canonical origins"))

def normalizeOrigins (value : Option JsonValue) (name : String) :
    Except ConfigurationError (List (Origin parseUrl)) := do
  let origins ← listOf value
  origins.mapM fun origin => normalizeOrigin parseUrl origin name

variable {parseUrl}

theorem normalizeOrigin_value (origin : Origin parseUrl) (name : String) :
    normalizeOrigin parseUrl origin.value name = .ok origin := by
  obtain ⟨text, hne, url, hurl, h⟩ := origin
  show normalizeOrigin parseUrl (.string text) name = _
  rw [normalizeOrigin, dif_pos hne]
  split
  · next hnone => rw [Option.mem_def, hnone] at hurl; cases hurl
  · next found hfound =>
    obtain rfl : found = url := Option.some.inj (hfound.symm.trans hurl)
    rw [dif_pos h]

theorem normalizeOrigins_value (origins : List (Origin parseUrl)) (name : String) :
    normalizeOrigins parseUrl (some (.array (origins.map Origin.value))) name = .ok origins := by
  show (origins.map Origin.value).mapM (fun origin => normalizeOrigin parseUrl origin name) = _
  induction origins with
  | nil => rfl
  | cons origin origins ih =>
    rw [List.map_cons, List.mapM_cons, normalizeOrigin_value, ih]
    rfl

/-! ### Paths -/

/-- An absolute path. -/
def AbsolutePath : Type := {path : List Char // PosixPath.isAbsolute path = true}

instance : DecidableEq AbsolutePath := Subtype.instDecidableEq

def AbsolutePath.text (path : AbsolutePath) : String := String.ofList path.1

def AbsolutePath.value (path : AbsolutePath) : JsonValue := .string path.text

/-- `resolve`, in a working directory. -/
def AbsolutePath.resolve (cwd : List Char) (paths : List (List Char)) : AbsolutePath :=
  ⟨PosixPath.resolvePaths cwd paths, PosixPath.isAbsolute_resolvePaths cwd paths⟩

/-- A relative path is resolved in `baseDirectory`, which is itself in the working directory. -/
def resolveConfiguredPath (cwd : List Char) (value : Option JsonValue) (baseDirectory : List Char)
    (name : String) : Except ConfigurationError AbsolutePath :=
  match value with
  | some (.string text) =>
    if text = "" then .error (configurationError (name ++ " must be a non-empty path"))
    else if h : PosixPath.isAbsolute text.toList = true then .ok ⟨text.toList, h⟩
    else .ok (AbsolutePath.resolve cwd [baseDirectory, text.toList])
  | _ => .error (configurationError (name ++ " must be a non-empty path"))

theorem resolveConfiguredPath_value (cwd : List Char) (path : AbsolutePath)
    (baseDirectory : List Char) (name : String) :
    resolveConfiguredPath cwd (some path.value) baseDirectory name = .ok path := by
  obtain ⟨path, habsolute⟩ := path
  have hne : String.ofList path ≠ "" := by
    intro hempty
    have hnil : path = [] := by rw [← String.toList_ofList (l := path), hempty]; rfl
    rw [hnil] at habsolute
    exact absurd habsolute (by decide)
  have hlist : PosixPath.isAbsolute (String.ofList path).toList = true := by
    rwa [String.toList_ofList]
  show resolveConfiguredPath cwd (some (.string (String.ofList path))) baseDirectory name = _
  rw [resolveConfiguredPath, if_neg hne, dif_pos hlist]
  exact congrArg Except.ok (Subtype.ext String.toList_ofList)

/-- A path that is not empty is resolved in some way. -/
theorem exists_resolveConfiguredPath (cwd : List Char) {path : List Char} (hne : path ≠ [])
    (baseDirectory : List Char) (name : String) :
    ∃ resolved, resolveConfiguredPath cwd (some (.string (String.ofList path))) baseDirectory name
      = .ok resolved := by
  have hne' : String.ofList path ≠ "" := by
    intro hempty
    exact hne (by rw [← String.toList_ofList (l := path), hempty]; rfl)
  rw [resolveConfiguredPath, if_neg hne']
  split
  · exact ⟨_, rfl⟩
  · exact ⟨_, rfl⟩

/-! ### The Cursor bridge -/

/-- `^[A-Za-z0-9._:-]{1,100}$`. -/
def isIdentifier (text : String) : Bool :=
  decide (1 ≤ text.length) && decide (text.length ≤ 100) &&
    text.toList.all fun c => c.isAlphanum || c == '.' || c == '_' || c == ':' || c == '-'

def Identifier : Type := {text : String // isIdentifier text = true}

instance : DecidableEq Identifier := Subtype.instDecidableEq

def Identifier.value (identifier : Identifier) : JsonValue := .string identifier.1

/-- `[0-9]+`, and what follows. -/
def afterDigits (text : List Char) : Option (List Char) :=
  if (text.takeWhile Char.isDigit).isEmpty then none else some (text.dropWhile Char.isDigit)

/-- What follows a point. -/
def afterPoint : List Char → Option (List Char)
  | '.' :: text => some text
  | _ => none

/-- `^[0-9]+\.[0-9]+\.[0-9]+(?:[-+][A-Za-z0-9.-]+)?$`. -/
def isSemver (text : String) : Bool :=
  match afterDigits text.toList >>= afterPoint >>= afterDigits >>= afterPoint >>= afterDigits with
  | none => false
  | some [] => true
  | some (c :: suffix) => (c == '-' || c == '+') && !suffix.isEmpty &&
      suffix.all fun c => c.isAlphanum || c == '.' || c == '-'

/-- A version of the SDK. -/
def SdkVersion : Type := {text : String // utf16Length text ≤ 64 ∧ isSemver text = true}

variable (parseUrl)

/-- A text is a literal loopback HTTP origin. -/
def IsEndpoint (text : String) : Prop :=
  ∃ url ∈ parseUrl text, (url.hostname = "127.0.0.1" ∨ url.hostname = "[::1]") ∧
    url.protocol = "http:" ∧ url.port ≠ "" ∧ url.username = "" ∧ url.password = "" ∧
    url.pathname = "/" ∧ url.search = "" ∧ url.hash = "" ∧ url.origin = text

/-- The origin of the bridge. -/
def Endpoint : Type := {text : String // IsEndpoint parseUrl text}

def invalidEndpoint : ConfigurationError :=
  configurationError "cursorSdkBridge.endpoint must be a literal loopback HTTP origin"

def endpointOf (value : Option JsonValue) : Except ConfigurationError (Endpoint parseUrl) :=
  match value with
  | some (.string text) =>
    match hurl : parseUrl text with
    | none => .error invalidEndpoint
    | some url =>
      if h : (url.hostname = "127.0.0.1" ∨ url.hostname = "[::1]") ∧
          url.protocol = "http:" ∧ url.port ≠ "" ∧ url.username = "" ∧ url.password = "" ∧
          url.pathname = "/" ∧ url.search = "" ∧ url.hash = "" ∧ url.origin = text then
        .ok ⟨text, url, hurl, h⟩
      else .error invalidEndpoint
  | _ => .error invalidEndpoint

variable {parseUrl}

theorem endpointOf_value (endpoint : Endpoint parseUrl) :
    endpointOf parseUrl (some (.string endpoint.1)) = .ok endpoint := by
  obtain ⟨text, url, hurl, h⟩ := endpoint
  rw [endpointOf]
  split
  · next hnone => rw [Option.mem_def, hnone] at hurl; cases hurl
  · next found hfound =>
    obtain rfl : found = url := Option.some.inj (hfound.symm.trans hurl)
    rw [dif_pos h]

def sdkVersionOf (value : Option JsonValue) : Except ConfigurationError SdkVersion :=
  match value with
  | some (.string text) =>
    if h : utf16Length text ≤ 64 ∧ isSemver text = true then .ok ⟨text, h⟩
    else .error (configurationError "cursorSdkBridge.sdkVersion must be explicit semver")
  | _ => .error (configurationError "cursorSdkBridge.sdkVersion must be explicit semver")

theorem sdkVersionOf_value (version : SdkVersion) :
    sdkVersionOf (some (.string version.1)) = .ok version := dif_pos version.2

/-- A directory in which the bridge may work, with its profiles. -/
structure Target where
  id : Identifier
  cwd : AbsolutePath
  profiles : List Identifier
  some_profile : 1 ≤ profiles.length
  few_profiles : profiles.length ≤ 20
  profiles_nodup : profiles.Nodup

def Target.value (target : Target) : JsonValue :=
  .object [("id", target.id.value), ("cwd", target.cwd.value),
    ("profiles", .array (target.profiles.map Identifier.value))]

/-- An identifier, and nothing where the value is not one. -/
def identifierOf (value : JsonValue) : Option Identifier :=
  match value with
  | .string text => if h : isIdentifier text = true then some ⟨text, h⟩ else none
  | _ => none

@[simp] theorem identifierOf_value (identifier : Identifier) :
    identifierOf identifier.value = some identifier := dif_pos identifier.2

def invalidTarget : ConfigurationError :=
  configurationError "cursorSdkBridge.targets contains an invalid or duplicate target"

/-- A turn of the loop over the targets, with the identifiers so far. -/
def targetOf (cwd baseDirectory : List Char) (ids : List Identifier) (value : JsonValue) :
    Except ConfigurationError Target :=
  match value with
  | .object members =>
    if members.all fun member => member.1 ∈ ["id", "cwd", "profiles"] then
      match memberOf members "id" >>= identifierOf, memberOf members "profiles" with
      | some id, some (.array items) =>
        match items.mapM identifierOf with
        | some profiles =>
          if h : id ∉ ids ∧ 1 ≤ profiles.length ∧ profiles.length ≤ 20 ∧ profiles.Nodup then do
            let cwd ← resolveConfiguredPath cwd (memberOf members "cwd") baseDirectory
              "cursorSdkBridge.targets.cwd"
            .ok ⟨id, cwd, profiles, h.2.1, h.2.2.1, h.2.2.2⟩
          else .error invalidTarget
        | none => .error invalidTarget
      | _, _ => .error invalidTarget
    else .error invalidTarget
  | _ => .error invalidTarget

theorem mapM_identifierOf (identifiers : List Identifier) :
    (identifiers.map Identifier.value).mapM identifierOf = some identifiers := by
  induction identifiers with
  | nil => rfl
  | cons identifier identifiers ih =>
    rw [List.map_cons, List.mapM_cons, identifierOf_value, ih]
    rfl

theorem targetOf_value (cwd baseDirectory : List Char) {ids : List Identifier} {target : Target}
    (h : target.id ∉ ids) : targetOf cwd baseDirectory ids target.value = .ok target := by
  obtain ⟨id, directory, profiles, hsome, hfew, hnodup⟩ := target
  have hid : (memberOf [("id", id.value), ("cwd", directory.value),
      ("profiles", .array (profiles.map Identifier.value))] "id" >>= identifierOf) = some id := by
    show identifierOf id.value = some id
    exact identifierOf_value id
  have hmembers : memberOf [("id", id.value), ("cwd", directory.value),
      ("profiles", .array (profiles.map Identifier.value))] "profiles" =
      some (.array (profiles.map Identifier.value)) := rfl
  have hcwd : memberOf [("id", id.value), ("cwd", directory.value),
      ("profiles", .array (profiles.map Identifier.value))] "cwd" = some directory.value := rfl
  have hnames : [("id", id.value), ("cwd", directory.value),
      ("profiles", .array (profiles.map Identifier.value))].all
      (fun member => member.1 ∈ ["id", "cwd", "profiles"]) = true := rfl
  rw [Target.value, targetOf, if_pos hnames]
  simp only [hid, hmembers, mapM_identifierOf]
  rw [dif_pos ⟨h, hsome, hfew, hnodup⟩, hcwd, resolveConfiguredPath_value]
  rfl

/-- The loop over the targets, with the identifiers so far. -/
def targetsOf (cwd baseDirectory : List Char) : List Identifier → List JsonValue →
    Except ConfigurationError (List Target)
  | _, [] => .ok []
  | ids, value :: values => do
    let target ← targetOf cwd baseDirectory ids value
    let targets ← targetsOf cwd baseDirectory (ids ++ [target.id]) values
    .ok (target :: targets)

theorem targetOf_new {cwd baseDirectory : List Char} {ids : List Identifier} {value : JsonValue}
    {target : Target} (h : targetOf cwd baseDirectory ids value = .ok target) :
    target.id ∉ ids := by
  unfold targetOf at h
  repeat' split at h
  all_goals try cases h
  next id _ _ _ _ _ profiles _ hnew =>
    cases hpath : resolveConfiguredPath cwd _ baseDirectory "cursorSdkBridge.targets.cwd" with
    | error error => rw [hpath] at h; cases h
    | ok path =>
      rw [hpath] at h
      cases h
      exact hnew.1

theorem targetsOf_spec {cwd baseDirectory : List Char} {values : List JsonValue}
    {ids : List Identifier} {targets : List Target}
    (h : targetsOf cwd baseDirectory ids values = .ok targets) :
    targets.length = values.length ∧ (targets.map Target.id).Nodup ∧
      ∀ target ∈ targets, target.id ∉ ids := by
  induction values generalizing ids targets with
  | nil =>
    cases h
    exact ⟨rfl, List.nodup_nil, fun _ hmem => absurd hmem List.not_mem_nil⟩
  | cons value values ih =>
    rw [targetsOf] at h
    cases htarget : targetOf cwd baseDirectory ids value with
    | error error => rw [htarget] at h; cases h
    | ok target =>
      rw [htarget] at h
      change (targetsOf cwd baseDirectory (ids ++ [target.id]) values >>= fun targets =>
        Except.ok (target :: targets)) = _ at h
      cases hrest : targetsOf cwd baseDirectory (ids ++ [target.id]) values with
      | error error => rw [hrest] at h; cases h
      | ok rest =>
        rw [hrest] at h
        cases h
        obtain ⟨hlength, hnodup, hnew⟩ := ih hrest
        refine ⟨by rw [List.length_cons, List.length_cons, hlength], ?_, ?_⟩
        · rw [List.map_cons, List.nodup_cons]
          refine ⟨?_, hnodup⟩
          rintro hmem
          obtain ⟨other, hother, hid⟩ := List.mem_map.mp hmem
          exact hnew other hother (hid ▸ List.mem_append_right ids (List.mem_singleton_self _))
        · intro other hother
          rcases List.mem_cons.mp hother with rfl | hother
          · exact targetOf_new htarget
          · exact fun hmem => hnew other hother (List.mem_append_left _ hmem)

theorem targetsOf_value (cwd baseDirectory : List Char) {targets : List Target}
    {ids : List Identifier} (h : (ids ++ targets.map Target.id).Nodup) :
    targetsOf cwd baseDirectory ids (targets.map Target.value) = .ok targets := by
  induction targets generalizing ids with
  | nil => rfl
  | cons target targets ih =>
    rw [List.map_cons] at h
    have hnew : target.id ∉ ids := fun hmem => (List.disjoint_of_nodup_append h) hmem
      List.mem_cons_self
    have hrest : (ids ++ [target.id] ++ targets.map Target.id).Nodup := by
      rwa [List.append_assoc]
    rw [List.map_cons, targetsOf, targetOf_value cwd baseDirectory hnew]
    change (targetsOf cwd baseDirectory (ids ++ [target.id]) (targets.map Target.value) >>=
      fun targets => Except.ok (target :: targets)) = _
    rw [ih hrest]
    rfl

variable (parseUrl) in
/-- The options of the bridge. -/
structure CursorSdkBridge where
  endpoint : Endpoint parseUrl
  sdkVersion : SdkVersion
  bearerTokenFile : AbsolutePath
  apiKeyFile : AbsolutePath
  helperPath : AbsolutePath
  storeDirectory : AbsolutePath
  provenanceFile : AbsolutePath
  timeoutMs : IntegerIn 1 60000
  targets : List Target
  separate_files : bearerTokenFile ≠ apiKeyFile
  some_target : 1 ≤ targets.length
  few_targets : targets.length ≤ 20
  ids_nodup : (targets.map Target.id).Nodup

def CursorSdkBridge.members (bridge : CursorSdkBridge parseUrl) : List (String × JsonValue) :=
  [("endpoint", .string bridge.endpoint.1), ("sdkVersion", .string bridge.sdkVersion.1),
    ("bearerTokenFile", bridge.bearerTokenFile.value), ("apiKeyFile", bridge.apiKeyFile.value),
    ("helperPath", bridge.helperPath.value), ("storeDirectory", bridge.storeDirectory.value),
    ("provenanceFile", bridge.provenanceFile.value), ("timeoutMs", bridge.timeoutMs.value),
    ("targets", .array (bridge.targets.map Target.value))]

def CursorSdkBridge.value (bridge : CursorSdkBridge parseUrl) : JsonValue :=
  .object bridge.members

def bridgeKeys : List String :=
  ["endpoint", "sdkVersion", "bearerTokenFile", "apiKeyFile", "helperPath", "storeDirectory",
    "provenanceFile", "timeoutMs", "targets"]

/-- The targets of a bridge. -/
def BridgeTargets : Type :=
  {targets : List Target //
    (1 ≤ targets.length ∧ targets.length ≤ 20) ∧ (targets.map Target.id).Nodup}

def bridgeTargets (cwd baseDirectory : List Char) (value : Option JsonValue) :
    Except ConfigurationError BridgeTargets :=
  match value with
  | some (.array values) =>
    if hcount : 1 ≤ values.length ∧ values.length ≤ 20 then
      certify (targetsOf cwd baseDirectory [] values) fun _ h =>
        ⟨(targetsOf_spec h).1 ▸ hcount, (targetsOf_spec h).2.1⟩
    else .error (configurationError "cursorSdkBridge.targets must contain 1-20 targets")
  | _ => .error (configurationError "cursorSdkBridge.targets must contain 1-20 targets")

theorem bridgeTargets_value (cwd baseDirectory : List Char) (targets : BridgeTargets) :
    bridgeTargets cwd baseDirectory (some (.array (targets.1.map Target.value))) =
      .ok targets := by
  have hcount : 1 ≤ (targets.1.map Target.value).length ∧
      (targets.1.map Target.value).length ≤ 20 := by
    rw [List.length_map]
    exact targets.2.1
  have hread : targetsOf cwd baseDirectory [] (targets.1.map Target.value) = .ok targets.1 :=
    targetsOf_value cwd baseDirectory targets.2.2
  exact (dif_pos hcount).trans (certify_ok _ hread)

/-- The time limit of the bridge, and its default. -/
def bridgeTimeout (value : Option JsonValue) : Except ConfigurationError (IntegerIn 1 60000) :=
  match value with
  | none => .ok ⟨10000, by decide⟩
  | some value => integer (some value) "cursorSdkBridge.timeoutMs" 1 60000

variable (parseUrl) in
def resolveCursorSdkBridge (cwd : List Char) (value : JsonValue) (baseDirectory : List Char) :
    Except ConfigurationError (CursorSdkBridge parseUrl) :=
  match value with
  | .object members =>
    match members.find? fun member => member.1 ∉ bridgeKeys with
    | some (key, _) => .error (configurationError ("unknown cursorSdkBridge key: " ++ key))
    | none => do
      let endpoint ← endpointOf parseUrl (memberOf members "endpoint")
      let sdkVersion ← sdkVersionOf (memberOf members "sdkVersion")
      let targets ← bridgeTargets cwd baseDirectory (memberOf members "targets")
      let path := fun name => resolveConfiguredPath cwd (memberOf members name) baseDirectory
        ("cursorSdkBridge." ++ name)
      let bearerTokenFile ← path "bearerTokenFile"
      let apiKeyFile ← path "apiKeyFile"
      if hseparate : bearerTokenFile ≠ apiKeyFile then
        let helperPath ← path "helperPath"
        let storeDirectory ← path "storeDirectory"
        let provenanceFile ← path "provenanceFile"
        let timeoutMs ← bridgeTimeout (memberOf members "timeoutMs")
        .ok ⟨endpoint, sdkVersion, bearerTokenFile, apiKeyFile, helperPath, storeDirectory,
          provenanceFile, timeoutMs, targets.1, hseparate, targets.2.1.1, targets.2.1.2,
          targets.2.2⟩
      else .error (configurationError
        "cursorSdkBridge bearer token and API key files must be separate")
  | _ => .error (configurationError "cursorSdkBridge must be an object")

theorem resolveCursorSdkBridge_value (cwd : List Char) (bridge : CursorSdkBridge parseUrl)
    (baseDirectory : List Char) :
    resolveCursorSdkBridge parseUrl cwd bridge.value baseDirectory = .ok bridge := by
  have hkeys : bridge.members.find? (fun member => member.1 ∉ bridgeKeys) = none := rfl
  have hendpoint : memberOf bridge.members "endpoint" = some (.string bridge.endpoint.1) := rfl
  have hversion : memberOf bridge.members "sdkVersion" = some (.string bridge.sdkVersion.1) := rfl
  have htargets : memberOf bridge.members "targets" =
    some (.array (bridge.targets.map Target.value)) := rfl
  have hbearer : memberOf bridge.members "bearerTokenFile" =
    some bridge.bearerTokenFile.value := rfl
  have hkey : memberOf bridge.members "apiKeyFile" = some bridge.apiKeyFile.value := rfl
  have hhelper : memberOf bridge.members "helperPath" = some bridge.helperPath.value := rfl
  have hstore : memberOf bridge.members "storeDirectory" = some bridge.storeDirectory.value := rfl
  have hprovenance : memberOf bridge.members "provenanceFile" =
    some bridge.provenanceFile.value := rfl
  have hlimit : memberOf bridge.members "timeoutMs" = some bridge.timeoutMs.value := rfl
  have htimeout : bridgeTimeout (some bridge.timeoutMs.value) = .ok bridge.timeoutMs :=
    integer_value bridge.timeoutMs _
  have hread := bridgeTargets_value cwd baseDirectory
    ⟨bridge.targets, ⟨bridge.some_target, bridge.few_targets⟩, bridge.ids_nodup⟩
  rw [CursorSdkBridge.value, resolveCursorSdkBridge, hkeys, hendpoint, hversion, htargets, hlimit,
    endpointOf_value, sdkVersionOf_value, hread, htimeout]
  simp only [hbearer, hkey, hhelper, hstore, hprovenance, resolveConfiguredPath_value]
  exact dif_pos bridge.separate_files

end AgentHost.Config
