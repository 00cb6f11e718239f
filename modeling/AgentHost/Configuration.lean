import Mathlib
import AgentHost.ConfigurationValues

namespace AgentHost.Config

/-!
# The configuration (`config.js`, `loadConfiguration`)

Four sources are merged, the command line before the environment, the file and the defaults.

* `ConfigKey` — the properties; `Source` — what a source says of them; `Sources.merged` — what the
  first source says that says something.
* `Configuration` — what is accepted; `loadConfiguration` — the loader;
  `serializableConfiguration`, `configurationText` — what is saved of it.
* `Tells.readConfiguration` — sources that say what a configuration says are accepted as it.
* `saved_configuration_reloads` — **Main**: the saved text is loaded, with the same value of every
  property that is saved, and saved again as the same text.
-/

open JsonValue

variable (parseUrl : String → Option Url)

/-! ### Sources -/

/-- The properties of a configuration. -/
inductive ConfigKey
  | schemaVersion | bind | port | refreshMs | adapterTimeoutMs | enabledAdapters | codexTransport
  | codexSocket | tokenFile | lockFile | logLevel | logFile | dashboardUrl | allowedOrigins
  | cursorSdkBridge | dashboardDirectory | cursorUserDataDirectory | cursorProjectsDirectory
  deriving DecidableEq

namespace ConfigKey

def name : ConfigKey → String
  | schemaVersion => "schemaVersion"
  | bind => "bind"
  | port => "port"
  | refreshMs => "refreshMs"
  | adapterTimeoutMs => "adapterTimeoutMs"
  | enabledAdapters => "enabledAdapters"
  | codexTransport => "codexTransport"
  | codexSocket => "codexSocket"
  | tokenFile => "tokenFile"
  | lockFile => "lockFile"
  | logLevel => "logLevel"
  | logFile => "logFile"
  | dashboardUrl => "dashboardUrl"
  | allowedOrigins => "allowedOrigins"
  | cursorSdkBridge => "cursorSdkBridge"
  | dashboardDirectory => "dashboardDirectory"
  | cursorUserDataDirectory => "cursorUserDataDirectory"
  | cursorProjectsDirectory => "cursorProjectsDirectory"

/-- `CONFIG_KEYS`: the properties of a file, in the order in which they are saved. -/
def configKeys : List ConfigKey :=
  [schemaVersion, bind, port, refreshMs, adapterTimeoutMs, enabledAdapters, codexTransport,
    codexSocket, tokenFile, lockFile, logLevel, logFile, dashboardUrl, allowedOrigins,
    cursorSdkBridge]

/-- The option of the command line that sets a property to a text. -/
def option : ConfigKey → Option StringOption
  | bind => some .bind
  | port => some .port
  | refreshMs => some .refreshMs
  | adapterTimeoutMs => some .adapterTimeoutMs
  | enabledAdapters => some .enabledAdapters
  | codexTransport => some .codexTransport
  | codexSocket => some .codexSocket
  | tokenFile => some .tokenFile
  | lockFile => some .lockFile
  | logLevel => some .logLevel
  | logFile => some .logFile
  | dashboardUrl => some .dashboardUrl
  | dashboardDirectory => some .dashboardDirectory
  | cursorUserDataDirectory => some .cursorUserDataDirectory
  | cursorProjectsDirectory => some .cursorProjectsDirectory
  | schemaVersion | allowedOrigins | cursorSdkBridge => none

/-- The variable of the environment that sets a property. -/
def envName : ConfigKey → Option String
  | bind => some "AGENT_HOST_BIND"
  | port => some "AGENT_HOST_PORT"
  | refreshMs => some "AGENT_HOST_REFRESH_MS"
  | adapterTimeoutMs => some "AGENT_HOST_ADAPTER_TIMEOUT_MS"
  | enabledAdapters => some "AGENT_HOST_ENABLED_ADAPTERS"
  | codexTransport => some "AGENT_HOST_CODEX_TRANSPORT"
  | codexSocket => some "AGENT_HOST_CODEX_SOCKET"
  | cursorUserDataDirectory => some "AGENT_HOST_CURSOR_USER_DATA_DIR"
  | cursorProjectsDirectory => some "AGENT_HOST_CURSOR_PROJECTS_DIR"
  | tokenFile => some "AGENT_HOST_TOKEN_FILE"
  | lockFile => some "AGENT_HOST_LOCK_FILE"
  | logLevel => some "AGENT_HOST_LOG_LEVEL"
  | logFile => some "AGENT_HOST_LOG_FILE"
  | dashboardUrl => some "AGENT_HOST_DASHBOARD_URL"
  | dashboardDirectory => some "AGENT_HOST_DASHBOARD_DIR"
  | allowedOrigins => some "AGENT_HOST_ALLOWED_ORIGINS"
  | schemaVersion | cursorSdkBridge => none

end ConfigKey

/-- What a source says of the properties. -/
abbrev Source := ConfigKey → Option JsonValue

/-- The options of the command line, as texts. -/
structure CliOptions where
  values : StringOption → Option String
  allowedOrigins : Option (List String)

def CliOptions.source (cli : CliOptions) : Source := fun key =>
  if key = .allowedOrigins then
    cli.allowedOrigins.map fun origins => .array (origins.map .string)
  else (key.option.bind cli.values).map .string

/-- `environmentConfiguration`. -/
def environmentConfiguration (env : String → Option String) : Source := fun key =>
  (key.envName.bind env).map fun text =>
    if key = .allowedOrigins then .array ((splitList text).map .string) else .string text

/-- The members of a file. -/
def fileConfiguration (members : List (String × JsonValue)) : Source := fun key =>
  memberOf members key.name

/-- The operating systems that the paths of a host may be those of. -/
inductive Platform
  | darwin | other
  deriving DecidableEq

/-- `defaultCursorDirectories`: of the user's data and of the projects. -/
def defaultCursorDirectories (platform : Platform) (homeDirectory : List Char)
    (env : String → Option String) : List Char × List Char :=
  let userDataDirectory :=
    match platform with
    | .darwin => PosixPath.joinPaths [homeDirectory, "Library".toList,
        "Application Support".toList, "Cursor".toList]
    | .other =>
      let configHome := ((env "XDG_CONFIG_HOME").getD "").toList
      PosixPath.joinPaths [if configHome = [] then
        PosixPath.joinPaths [homeDirectory, ".config".toList] else configHome, "Cursor".toList]
  (userDataDirectory, PosixPath.joinPaths [homeDirectory, ".cursor".toList, "projects".toList])

/-- The default of every property. -/
def defaults (baseDirectory : List Char) (cursorPaths : List Char × List Char) : Source
  | .schemaVersion => some (.number (some 1))
  | .bind => some (.string "127.0.0.1")
  | .port => some (.number (some 4777))
  | .refreshMs => some (.number (some 1500))
  | .adapterTimeoutMs => some (.number (some 20000))
  | .enabledAdapters => some (.array [.string "codex", .string "herdr", .string "process"])
  | .codexTransport => some (.string "owned")
  | .tokenFile => some (.string (String.ofList
      (PosixPath.joinPaths [baseDirectory, "token".toList])))
  | .lockFile => some (.string (String.ofList
      (PosixPath.joinPaths [baseDirectory, "agent-host.lock".toList])))
  | .logLevel => some (.string "info")
  | .logFile => some (.string (String.ofList
      (PosixPath.joinPaths [baseDirectory, "agent-host.log".toList])))
  | .cursorUserDataDirectory => some (.string (String.ofList cursorPaths.1))
  | .cursorProjectsDirectory => some (.string (String.ofList cursorPaths.2))
  | .allowedOrigins => some (.array [])
  | .codexSocket | .dashboardUrl | .dashboardDirectory | .cursorSdkBridge => none

/-- The four sources. -/
structure Sources where
  cli : Source
  environment : Source
  fileConfig : Source
  defaults : Source

/-- `merged[key]`: what the first source that says something says. -/
def Sources.merged (sources : Sources) : Source := fun key =>
  (sources.cli key).or ((sources.environment key).or
    ((sources.fileConfig key).or (sources.defaults key)))

/-- Where the working directory and the directory of the file are. -/
structure Directories where
  cwd : List Char
  baseDirectory : List Char

/-- `resolvePathBySource`. -/
def resolvePathBySource (directories : Directories) (sources : Sources) (key : ConfigKey) :
    Except ConfigurationError AbsolutePath :=
  match sources.cli key with
  | some value => resolveConfiguredPath directories.cwd (some value) directories.cwd key.name
  | none =>
    match sources.environment key with
    | some value => resolveConfiguredPath directories.cwd (some value) directories.cwd key.name
    | none => resolveConfiguredPath directories.cwd
        ((sources.fileConfig key).or (sources.defaults key)) directories.baseDirectory key.name

/-- A path that need not be there. -/
def optionalPath (directories : Directories) (sources : Sources) (key : ConfigKey) :
    Except ConfigurationError (Option AbsolutePath) :=
  if (sources.merged key).isSome then some <$> resolvePathBySource directories sources key
  else .ok none

/-! ### Configurations -/

inductive Bind
  | ipv4 | localhost | ipv6
  deriving DecidableEq

def Bind.texts : TextSet Bind where
  all := [.ipv4, .localhost, .ipv6]
  text
    | .ipv4 => "127.0.0.1"
    | .localhost => "localhost"
    | .ipv6 => "::1"
  find?_text := by intro bind; cases bind <;> rfl

inductive CodexTransport
  | owned | control
  deriving DecidableEq

def CodexTransport.texts : TextSet CodexTransport where
  all := [.owned, .control]
  text
    | .owned => "owned"
    | .control => "control"
  find?_text := by intro transport; cases transport <;> rfl

/-- `LOG_LEVELS`. -/
inductive LogLevel
  | debug | info | warn | error
  deriving DecidableEq

def LogLevel.texts : TextSet LogLevel where
  all := [.debug, .info, .warn, .error]
  text
    | .debug => "debug"
    | .info => "info"
    | .warn => "warn"
    | .error => "error"
  find?_text := by intro level; cases level <;> rfl

/-- A configuration that is accepted. -/
structure Configuration where
  bind : Bind
  port : IntegerIn 1 65535
  refreshMs : IntegerIn 1 Doubles.maxSafeInteger
  adapterTimeoutMs : IntegerIn 1 Doubles.maxSafeInteger
  enabledAdapters : AdapterNames
  codexTransport : CodexTransport
  codexSocket : Option AbsolutePath
  tokenFile : AbsolutePath
  lockFile : AbsolutePath
  logLevel : LogLevel
  logFile : AbsolutePath
  dashboardUrl : Option (Origin parseUrl)
  allowedOrigins : List (Origin parseUrl)
  cursorSdkBridge : Option (CursorSdkBridge parseUrl)
  dashboardDirectory : Option AbsolutePath
  cursorUserDataDirectory : AbsolutePath
  cursorProjectsDirectory : AbsolutePath
  bridge_given : .cursorSdkBridge ∈ enabledAdapters.1 → cursorSdkBridge.isSome = true
  socket_given : .codex ∈ enabledAdapters.1 ∧ codexTransport = .control → codexSocket.isSome = true
  dashboard_allowed : ∀ origin ∈ dashboardUrl, origin ∈ allowedOrigins

variable {parseUrl}

/-- What a configuration says of a property. -/
def Configuration.value (configuration : Configuration parseUrl) : Source
  | .schemaVersion => some (.number (some 1))
  | .bind => some (.string (Bind.texts.text configuration.bind))
  | .port => some configuration.port.value
  | .refreshMs => some configuration.refreshMs.value
  | .adapterTimeoutMs => some configuration.adapterTimeoutMs.value
  | .enabledAdapters => some configuration.enabledAdapters.value
  | .codexTransport => some (.string (CodexTransport.texts.text configuration.codexTransport))
  | .codexSocket => configuration.codexSocket.map AbsolutePath.value
  | .tokenFile => some configuration.tokenFile.value
  | .lockFile => some configuration.lockFile.value
  | .logLevel => some (.string (LogLevel.texts.text configuration.logLevel))
  | .logFile => some configuration.logFile.value
  | .dashboardUrl => configuration.dashboardUrl.map Origin.value
  | .allowedOrigins => some (.array (configuration.allowedOrigins.map Origin.value))
  | .cursorSdkBridge => configuration.cursorSdkBridge.map CursorSdkBridge.value
  | .dashboardDirectory => configuration.dashboardDirectory.map AbsolutePath.value
  | .cursorUserDataDirectory => some configuration.cursorUserDataDirectory.value
  | .cursorProjectsDirectory => some configuration.cursorProjectsDirectory.value

/-- `serializableConfiguration`. -/
def serializableConfiguration (configuration : Configuration parseUrl) : JsonValue :=
  .object (ConfigKey.configKeys.filterMap fun key =>
    (configuration.value key).map fun value => (key.name, value))

/-- `JSON.stringify(serializableConfiguration(configuration), null, gap)`, and white space:
`initializeState` saves it with a gap of two and a line break. -/
def configurationText (gap : Nat) (white : List Char) (configuration : Configuration parseUrl) :
    String :=
  String.ofList ((serializableConfiguration configuration).render gap 0 ++ white)

/-- A text of a set of texts. -/
def textOf {α : Type} (texts : TextSet α) (value : Option JsonValue) (message : String) :
    Except ConfigurationError α :=
  match texts.ofValue? value with
  | some a => .ok a
  | none => .error (configurationError message)

/-- A value that need not be there. -/
def whenGiven {α : Type} (value : Option JsonValue)
    (normalize : JsonValue → Except ConfigurationError α) : Except ConfigurationError (Option α) :=
  match value with
  | none => .ok none
  | some value => some <$> normalize value

variable (parseUrl)

/-- What `loadConfiguration` makes of the merged sources; from `bind` on, `validateConfiguration`. -/
def readConfiguration (directories : Directories) (sources : Sources) :
    Except ConfigurationError (Configuration parseUrl) := do
  let path := resolvePathBySource directories sources
  let tokenFile ← path .tokenFile
  let lockFile ← path .lockFile
  let logFile ← path .logFile
  let codexSocket ← optionalPath directories sources .codexSocket
  let dashboardDirectory ← optionalPath directories sources .dashboardDirectory
  let cursorUserDataDirectory ← path .cursorUserDataDirectory
  let cursorProjectsDirectory ← path .cursorProjectsDirectory
  let cursorSdkBridge ← whenGiven (sources.merged .cursorSdkBridge) fun value =>
    resolveCursorSdkBridge parseUrl directories.cwd value directories.baseDirectory
  let bind ← textOf Bind.texts (sources.merged .bind) "bind must be 127.0.0.1, localhost, or ::1"
  let port ← integer (sources.merged .port) "port" 1 65535
  let refreshMs ← integer (sources.merged .refreshMs) "refreshMs" 1 Doubles.maxSafeInteger
  let adapterTimeoutMs ←
    integer (sources.merged .adapterTimeoutMs) "adapterTimeoutMs" 1 Doubles.maxSafeInteger
  let enabledAdapters ← normalizeAdapters (sources.merged .enabledAdapters)
  if hbridge : .cursorSdkBridge ∈ enabledAdapters.1 → cursorSdkBridge.isSome = true then
    let codexTransport ← textOf CodexTransport.texts (sources.merged .codexTransport)
      "codexTransport must be owned or control"
    if hsocket : .codex ∈ enabledAdapters.1 ∧ codexTransport = .control →
        codexSocket.isSome = true then
      let logLevel ← textOf LogLevel.texts (sources.merged .logLevel)
        "logLevel must be debug, info, warn, or error"
      let allowedOrigins ←
        normalizeOrigins parseUrl (sources.merged .allowedOrigins) "allowedOrigins"
      let dashboardUrl ← whenGiven (sources.merged .dashboardUrl) fun value =>
        normalizeOrigin parseUrl value "dashboardUrl"
      .ok {
        bind, port, refreshMs, adapterTimeoutMs, enabledAdapters, codexTransport, codexSocket
        tokenFile, lockFile, logLevel, logFile, dashboardUrl, cursorSdkBridge, dashboardDirectory
        cursorUserDataDirectory, cursorProjectsDirectory
        allowedOrigins := allowedOrigins ++ dashboardUrl.toList.filter (· ∉ allowedOrigins)
        bridge_given := hbridge
        socket_given := hsocket
        dashboard_allowed := by
          intro origin hmem
          rw [Option.mem_def] at hmem
          by_cases hin : origin ∈ allowedOrigins
          · exact List.mem_append_left _ hin
          · refine List.mem_append_right _ (List.mem_filter.mpr ⟨?_, decide_eq_true hin⟩)
            rw [hmem]
            exact List.mem_singleton_self _ }
    else .error (configurationError "codexSocket is required when codexTransport is control")
  else .error (configurationError
    "cursorSdkBridge is required when cursor-sdk-bridge is enabled")

/-! ### Loading -/

/-- What reading a file fails with. -/
structure ReadError where
  code : String
  message : String
  deriving DecidableEq

/-- What loading fails with. -/
inductive LoadError
  | configuration (error : ConfigurationError)
  | file (error : ReadError)

/-- The host: its platform, its working directory and its private files. -/
structure Host where
  platform : Platform
  cwd : List Char
  readPrivateFile : List Char → Except ReadError String

/-- The options of `loadConfiguration`. -/
structure LoadOptions where
  cli : CliOptions
  env : String → Option String
  homeDirectory : List Char
  allowMissingExplicit : Bool

/-- `cli.configFile ?? env.AGENT_HOST_CONFIG`, where it is not empty. -/
def LoadOptions.configuredPath (options : LoadOptions) : Option String :=
  ((options.cli.values .configFile).or (options.env "AGENT_HOST_CONFIG")).filter (· ≠ "")

/-- `defaultPaths(homeDirectory).configFile`. -/
def defaultConfigFile (homeDirectory : List Char) : List Char :=
  PosixPath.joinPaths [PosixPath.joinPaths [homeDirectory, ".agent-host".toList],
    "config.json".toList]

/-- The path of the configuration. -/
def configFile (host : Host) (options : LoadOptions) : List Char :=
  match options.configuredPath with
  | some path => PosixPath.resolvePaths host.cwd [path.toList]
  | none => defaultConfigFile options.homeDirectory

/-- `readPrivateFile` and `JSON.parse`; nothing where the file may be missing, and is. -/
def readConfigFile (host : Host) (options : LoadOptions) : Except LoadError (Option JsonValue) :=
  let path := configFile host options
  match host.readPrivateFile path with
  | .ok text =>
    match JsonParse.parse text with
    | some value => .ok (some value)
    | none => .error (.configuration (configurationError
        ("configuration file is not valid JSON: " ++ String.ofList path)))
  | .error error =>
    if error.code = "ENOENT" then
      if options.configuredPath = none ∨ options.allowMissingExplicit then .ok none
      else .error (.configuration
        ⟨units ("configuration file does not exist: " ++ String.ofList path),
          "configuration_not_found"⟩)
    else .error (.file error)

/-- `value.schemaVersion === CONFIG_SCHEMA_VERSION`. -/
def isSchemaVersion : JsonValue → Bool
  | .number (some q) => q = 1
  | _ => false

def validateFileShape (value : JsonValue) (path : List Char) (configExists : Bool) :
    Except ConfigurationError (List (String × JsonValue)) :=
  match value with
  | .object members =>
    match members.find? fun member => member.1 ∉ ConfigKey.configKeys.map ConfigKey.name with
    | some (key, _) => .error (configurationError ("unknown configuration key: " ++ key))
    | none =>
      match memberOf members "schemaVersion" with
      | none =>
        if configExists then .error (configurationError
          ("configuration schemaVersion is required: " ++ String.ofList path))
        else .ok members
      | some version =>
        if isSchemaVersion version then .ok members
        else .error (configurationError
          ("unsupported configuration schemaVersion: " ++ version.toText))
  | _ => .error (configurationError
      ("configuration must be a JSON object: " ++ String.ofList path))

/-- What `loadConfiguration` yields, but for the paths beside the configuration. -/
structure Loaded where
  configuration : Configuration parseUrl
  configFile : List Char
  configExists : Bool

/-- The sources of `loadConfiguration`, with the members of the file. -/
def sourcesOf (host : Host) (options : LoadOptions) (members : List (String × JsonValue)) :
    Sources where
  cli := options.cli.source
  environment := environmentConfiguration options.env
  fileConfig := fileConfiguration members
  defaults := defaults (PosixPath.dirname (configFile host options))
    (defaultCursorDirectories host.platform options.homeDirectory options.env)

def directoriesOf (host : Host) (options : LoadOptions) : Directories where
  cwd := host.cwd
  baseDirectory := PosixPath.dirname (configFile host options)

/-- `loadConfiguration`. -/
def loadConfiguration (host : Host) (options : LoadOptions) :
    Except LoadError (Loaded parseUrl) := do
  let path := configFile host options
  let read ← readConfigFile host options
  let members ← (validateFileShape (read.getD (.object [])) path read.isSome).mapError
    .configuration
  let configuration ← (readConfiguration parseUrl (directoriesOf host options)
    (sourcesOf host options members)).mapError .configuration
  .ok ⟨configuration, path, read.isSome⟩

variable {parseUrl}

/-! ### Reading what was saved -/

theorem name_injective : Function.Injective ConfigKey.name := by
  intro key other h
  cases key <;> cases other <;> first | rfl | exact absurd h (by decide)

/-- The members that are written of some properties. -/
theorem memberOf_filterMap (keys : List ConfigKey) (source : Source) (key : ConfigKey) :
    memberOf (keys.filterMap fun key => (source key).map fun value => (key.name, value)) key.name =
      if key ∈ keys then source key else none := by
  induction keys with
  | nil => rfl
  | cons first keys ih =>
    rw [List.filterMap_cons]
    by_cases hkey : key = first
    · subst hkey
      rw [if_pos List.mem_cons_self]
      cases hvalue : source key with
      | none =>
        rw [hvalue, ite_self] at ih
        exact ih
      | some value => simp
    · have hmem : (key ∈ first :: keys) = (key ∈ keys) := by
        rw [List.mem_cons, or_iff_right hkey]
      simp only [hmem]
      cases hvalue : source first with
      | none => exact ih
      | some value =>
        have hname : ¬ first.name = key.name := fun h => hkey (name_injective h).symm
        show memberOf ((first.name, value) :: _) key.name = _
        rw [memberOf_cons, if_neg hname, ih]

/-- A file with what was saved says of the properties what the configuration says. -/
theorem fileConfiguration_saved (configuration : Configuration parseUrl) (key : ConfigKey) :
    fileConfiguration (ConfigKey.configKeys.filterMap fun key =>
      (configuration.value key).map fun value => (key.name, value)) key =
        if key ∈ ConfigKey.configKeys then configuration.value key else none :=
  memberOf_filterMap ConfigKey.configKeys configuration.value key

/-- Sources that say what a configuration says of the properties that are saved. -/
structure Tells (sources : Sources) (configuration : Configuration parseUrl) : Prop where
  cli : ∀ key, sources.cli key = none
  environment : ∀ key, sources.environment key = none
  merged : ∀ key ∈ ConfigKey.configKeys, sources.merged key = configuration.value key
  dashboard : sources.merged .dashboardDirectory = none

section Tells

variable {sources : Sources} {configuration : Configuration parseUrl} {directories : Directories}

theorem Tells.file_or (h : Tells sources configuration) (key : ConfigKey) :
    (sources.fileConfig key).or (sources.defaults key) = sources.merged key := by
  rw [Sources.merged, h.cli, h.environment, Option.none_or, Option.none_or]

/-- A path is read as it was written. -/
theorem Tells.resolvePath (h : Tells sources configuration) {key : ConfigKey}
    (hkey : key ∈ ConfigKey.configKeys) {path : AbsolutePath}
    (hvalue : configuration.value key = some path.value) :
    resolvePathBySource directories sources key = .ok path := by
  rw [resolvePathBySource, h.cli, h.environment]
  dsimp only
  rw [h.file_or, h.merged key hkey, hvalue, resolveConfiguredPath_value]

theorem Tells.codexSocket (h : Tells sources configuration) :
    optionalPath directories sources .codexSocket = .ok configuration.codexSocket := by
  have hmem : ConfigKey.codexSocket ∈ ConfigKey.configKeys := by decide
  have hmerged : sources.merged .codexSocket = configuration.codexSocket.map AbsolutePath.value :=
    h.merged _ hmem
  rw [optionalPath, hmerged]
  cases hsocket : configuration.codexSocket with
  | none => rfl
  | some path =>
    have hvalue : configuration.value .codexSocket = some path.value := by
      show configuration.codexSocket.map AbsolutePath.value = _
      rw [hsocket]
      rfl
    rw [h.resolvePath hmem hvalue]
    rfl

/-- The same text is read as the same element. -/
theorem textOf_text {α : Type} (texts : TextSet α) (a : α) (message : String) :
    textOf texts (some (.string (texts.text a))) message = .ok a := by
  rw [textOf, TextSet.ofValue?_text]

theorem ok_bind {ε α β : Type} (a : α) (next : α → Except ε β) : (.ok a >>= next) = next a := rfl

theorem whenGiven_map {α : Type} {write : α → JsonValue}
    {normalize : JsonValue → Except ConfigurationError α}
    (h : ∀ a, normalize (write a) = .ok a) (a : Option α) :
    whenGiven (a.map write) normalize = .ok a := by
  cases a with
  | none => rfl
  | some a =>
    show some <$> normalize (write a) = _
    rw [h]
    rfl

/-- The dashboard is among the origins already. -/
theorem filter_dashboard (configuration : Configuration parseUrl) :
    configuration.dashboardUrl.toList.filter (· ∉ configuration.allowedOrigins) = [] := by
  rw [List.filter_eq_nil_iff]
  intro origin hmem hnew
  have hdashboard : origin ∈ configuration.dashboardUrl := Option.mem_toList.mp hmem
  exact of_decide_eq_true hnew (configuration.dashboard_allowed origin hdashboard)

/-- What the sources say is accepted, and but for the directories it is the configuration. -/
theorem Tells.readConfiguration (h : Tells sources configuration) {userData projects : AbsolutePath}
    (huserData : resolvePathBySource directories sources .cursorUserDataDirectory = .ok userData)
    (hprojects : resolvePathBySource directories sources .cursorProjectsDirectory = .ok projects) :
    readConfiguration parseUrl directories sources = .ok { configuration with
      dashboardDirectory := none
      cursorUserDataDirectory := userData
      cursorProjectsDirectory := projects } := by
  have hmerged : ∀ key, key ∈ ConfigKey.configKeys → ∀ {value : Option JsonValue},
      configuration.value key = value → sources.merged key = value := fun key hkey _ hvalue =>
    (h.merged key hkey).trans hvalue
  have hdashboard : optionalPath directories sources .dashboardDirectory = .ok none := by
    rw [optionalPath, h.dashboard]
    rfl
  have hbridge : whenGiven (configuration.cursorSdkBridge.map CursorSdkBridge.value)
      (fun value => resolveCursorSdkBridge parseUrl directories.cwd value
        directories.baseDirectory) = .ok configuration.cursorSdkBridge :=
    whenGiven_map (fun bridge => resolveCursorSdkBridge_value directories.cwd bridge
      directories.baseDirectory) _
  have hurl : whenGiven (configuration.dashboardUrl.map Origin.value)
      (fun value => normalizeOrigin parseUrl value "dashboardUrl") =
        .ok configuration.dashboardUrl :=
    whenGiven_map (fun origin => normalizeOrigin_value origin "dashboardUrl") _
  have horigins := filter_dashboard configuration
  rw [Config.readConfiguration, h.resolvePath (by decide) rfl, h.resolvePath (by decide) rfl,
    h.resolvePath (by decide) rfl, h.codexSocket, hdashboard, huserData, hprojects,
    hmerged .cursorSdkBridge (by decide) rfl, hmerged .bind (by decide) rfl,
    hmerged .port (by decide) rfl, hmerged .refreshMs (by decide) rfl,
    hmerged .adapterTimeoutMs (by decide) rfl, hmerged .enabledAdapters (by decide) rfl,
    hmerged .codexTransport (by decide) rfl, hmerged .logLevel (by decide) rfl,
    hmerged .allowedOrigins (by decide) rfl, hmerged .dashboardUrl (by decide) rfl]
  simp only [Configuration.value, hbridge, hurl, textOf_text, integer_value,
    normalizeAdapters_value, normalizeOrigins_value, ok_bind]
  rw [dif_pos configuration.bridge_given, dif_pos configuration.socket_given]
  simp only [horigins, List.append_nil]

end Tells

/-! ### The saved text -/

theorem wellFormed_integer {minimum maximum : ℤ} (hminimum : 0 ≤ minimum)
    (hmaximum : maximum ≤ Doubles.maxSafeInteger) (n : IntegerIn minimum maximum) :
    n.value.wellFormed = true := by
  have hsafe : n.1.natAbs ≤ Doubles.maxSafeInteger := by
    have := n.2
    omega
  exact decide_eq_true (Doubles.nearest_intCast hsafe)

theorem wellFormed_array {α : Type} {write : α → JsonValue}
    (h : ∀ a, (write a).wellFormed = true) (items : List α) :
    (JsonValue.array (items.map write)).wellFormed = true := by
  rw [wellFormed, wellFormedItems_iff]
  intro item hitem
  obtain ⟨a, -, rfl⟩ := List.mem_map.mp hitem
  exact h a

theorem Target.wellFormed_value (target : Target) : target.value.wellFormed = true := by
  have hprofiles : (JsonValue.array (target.profiles.map Identifier.value)).wellFormed = true :=
    wellFormed_array (fun _ => rfl) target.profiles
  rw [Target.value, wellFormed, Bool.and_eq_true, wellFormedMembers_iff]
  refine ⟨rfl, ?_⟩
  simp only [List.forall_mem_cons, List.not_mem_nil, false_imp_iff, implies_true, and_true]
  exact ⟨rfl, rfl, hprofiles⟩

theorem CursorSdkBridge.wellFormed_value (bridge : CursorSdkBridge parseUrl) :
    bridge.value.wellFormed = true := by
  have htimeout := wellFormed_integer (by decide) (by decide) bridge.timeoutMs
  have htargets := wellFormed_array Target.wellFormed_value bridge.targets
  rw [CursorSdkBridge.value, wellFormed, Bool.and_eq_true, wellFormedMembers_iff]
  refine ⟨rfl, ?_⟩
  simp only [CursorSdkBridge.members, List.forall_mem_cons, List.not_mem_nil, false_imp_iff,
    implies_true, and_true]
  exact ⟨rfl, rfl, rfl, rfl, rfl, rfl, rfl, htimeout, htargets⟩

theorem Configuration.wellFormed_value (configuration : Configuration parseUrl) {key : ConfigKey}
    {value : JsonValue} (h : configuration.value key = some value) : value.wellFormed = true := by
  have hpath : ∀ {path : Option AbsolutePath}, path.map AbsolutePath.value = some value →
      value.wellFormed = true := by
    intro path hmap
    obtain ⟨_, -, rfl⟩ := Option.map_eq_some_iff.mp hmap
    rfl
  cases key with
  | schemaVersion =>
    obtain rfl := Option.some.inj h
    exact decide_eq_true (Doubles.nearest_intCast (n := 1) (by decide))
  | port =>
    obtain rfl := Option.some.inj h
    exact wellFormed_integer (by decide) (by decide) configuration.port
  | refreshMs =>
    obtain rfl := Option.some.inj h
    exact wellFormed_integer (by decide) le_rfl configuration.refreshMs
  | adapterTimeoutMs =>
    obtain rfl := Option.some.inj h
    exact wellFormed_integer (by decide) le_rfl configuration.adapterTimeoutMs
  | enabledAdapters =>
    obtain rfl := Option.some.inj h
    exact wellFormed_array (fun _ => rfl) configuration.enabledAdapters.1
  | allowedOrigins =>
    obtain rfl := Option.some.inj h
    exact wellFormed_array (fun _ => rfl) configuration.allowedOrigins
  | cursorSdkBridge =>
    obtain ⟨bridge, -, rfl⟩ := Option.map_eq_some_iff.mp h
    exact bridge.wellFormed_value
  | dashboardUrl =>
    obtain ⟨_, -, rfl⟩ := Option.map_eq_some_iff.mp h
    rfl
  | codexSocket | dashboardDirectory => exact hpath h
  | _ =>
    obtain rfl := Option.some.inj h
    rfl

/-- The members that are saved. -/
def savedMembers (configuration : Configuration parseUrl) : List (String × JsonValue) :=
  ConfigKey.configKeys.filterMap fun key =>
    (configuration.value key).map fun value => (key.name, value)

theorem names_savedMembers (configuration : Configuration parseUrl) :
    ((savedMembers configuration).map Prod.fst).Sublist
      (ConfigKey.configKeys.map ConfigKey.name) := by
  have hnames : ∀ keys : List ConfigKey, ((keys.filterMap fun key =>
      (configuration.value key).map fun value => (key.name, value)).map Prod.fst).Sublist
        (keys.map ConfigKey.name) := by
    intro keys
    induction keys with
    | nil => exact List.Sublist.refl []
    | cons key keys ih =>
      rw [List.filterMap_cons, List.map_cons]
      cases configuration.value key with
      | none => exact ih.cons _
      | some value => exact ih.cons_cons _
  exact hnames _

theorem wellFormed_serializable (configuration : Configuration parseUrl) :
    (serializableConfiguration configuration).wellFormed = true := by
  have hnodup : (ConfigKey.configKeys.map ConfigKey.name).Nodup := by decide
  show (JsonValue.object (savedMembers configuration)).wellFormed = true
  rw [wellFormed, Bool.and_eq_true, wellFormedMembers_iff]
  refine ⟨decide_eq_true (hnodup.sublist (names_savedMembers configuration)), ?_⟩
  intro member hmember
  obtain ⟨key, -, hvalue⟩ := List.mem_filterMap.mp hmember
  obtain ⟨value, hkey, rfl⟩ := Option.map_eq_some_iff.mp hvalue
  exact configuration.wellFormed_value hkey

theorem validateFileShape_saved (configuration : Configuration parseUrl) (path : List Char)
    (configExists : Bool) : validateFileShape (serializableConfiguration configuration) path
      configExists = .ok (savedMembers configuration) := by
  have hknown : (savedMembers configuration).find?
      (fun member => member.1 ∉ ConfigKey.configKeys.map ConfigKey.name) = none := by
    rw [List.find?_eq_none]
    intro member hmember hunknown
    exact of_decide_eq_true hunknown ((names_savedMembers configuration).subset
      (List.mem_map_of_mem hmember))
  have hversion : memberOf (savedMembers configuration) "schemaVersion" =
      some (.number (some 1)) :=
    fileConfiguration_saved configuration .schemaVersion
  show validateFileShape (.object (savedMembers configuration)) path configExists = _
  rw [validateFileShape, hknown, hversion]
  rfl

/-- No options but the path of the configuration, and an empty environment. -/
structure LoadOptions.OnlyPath (options : LoadOptions) : Prop where
  values : ∀ option, option ≠ .configFile → options.cli.values option = none
  allowedOrigins : options.cli.allowedOrigins = none
  env : ∀ name, options.env name = none

theorem LoadOptions.OnlyPath.source {options : LoadOptions} (h : options.OnlyPath)
    (key : ConfigKey) : options.cli.source key = none := by
  rw [CliOptions.source]
  split
  · rw [h.allowedOrigins]
    rfl
  · cases hoption : key.option with
    | none => rfl
    | some option =>
      have hne : option ≠ .configFile := by
        rintro rfl
        cases key <;> cases hoption
      rw [Option.bind_some, h.values option hne]
      rfl

theorem LoadOptions.OnlyPath.environment {options : LoadOptions} (h : options.OnlyPath)
    (key : ConfigKey) : environmentConfiguration options.env key = none := by
  rw [environmentConfiguration]
  cases key.envName with
  | none => rfl
  | some name =>
    rw [Option.bind_some, h.env]
    rfl

theorem merged_saved (host : Host) {options : LoadOptions} (h : options.OnlyPath)
    (members : List (String × JsonValue)) (key : ConfigKey) :
    (sourcesOf host options members).merged key =
      (fileConfiguration members key).or ((sourcesOf host options members).defaults key) := by
  show (options.cli.source key).or ((environmentConfiguration options.env key).or _) = _
  rw [h.source, h.environment, Option.none_or, Option.none_or]
  rfl

/-- The sources of a load of what was saved. -/
theorem tells_saved (host : Host) {options : LoadOptions} (h : options.OnlyPath)
    (configuration : Configuration parseUrl) :
    Tells (sourcesOf host options (savedMembers configuration)) configuration where
  cli := h.source
  environment := h.environment
  merged key hkey := by
    have hfile : fileConfiguration (savedMembers configuration) key = configuration.value key :=
      (fileConfiguration_saved configuration key).trans (if_pos hkey)
    rw [merged_saved host h, hfile]
    cases hvalue : configuration.value key with
    | some value => rfl
    | none => cases key <;> first | rfl | cases hvalue
  dashboard := by
    have hfile : fileConfiguration (savedMembers configuration) .dashboardDirectory = none :=
      fileConfiguration_saved configuration .dashboardDirectory
    rw [merged_saved host h, hfile]
    rfl

/-- A directory of Cursor is resolved in some way. -/
theorem exists_resolvePath (directories : Directories) {sources : Sources} {key : ConfigKey}
    (hcli : sources.cli key = none) (henvironment : sources.environment key = none)
    (hfile : sources.fileConfig key = none) {path : List Char} (hne : path ≠ [])
    (hdefault : sources.defaults key = some (.string (String.ofList path))) :
    ∃ resolved, resolvePathBySource directories sources key = .ok resolved := by
  rw [resolvePathBySource, hcli, henvironment]
  dsimp only
  rw [hfile, hdefault, Option.none_or]
  exact exists_resolveConfiguredPath directories.cwd hne directories.baseDirectory key.name

/-- The saved text is loaded as what was saved. -/
theorem load_saved (configuration : Configuration parseUrl) {host : Host} {options : LoadOptions}
    (h : options.OnlyPath) (gap : Nat) {white : List Char}
    (hwhite : ∀ c ∈ white, JsonParse.isWhite c = true)
    (hread : host.readPrivateFile (configFile host options) =
      .ok (configurationText gap white configuration)) :
    ∃ userData projects, loadConfiguration parseUrl host options = .ok {
      configuration := { configuration with
        dashboardDirectory := none
        cursorUserDataDirectory := userData
        cursorProjectsDirectory := projects }
      configFile := configFile host options
      configExists := true } := by
  have hparse : JsonParse.parse (configurationText gap white configuration) =
      some (serializableConfiguration configuration) :=
    JsonParse.parse_render (wellFormed_serializable configuration) gap hwhite
  have hfile : readConfigFile host options =
      .ok (some (serializableConfiguration configuration)) := by
    rw [readConfigFile, hread]
    dsimp only
    rw [hparse]
  have htells := tells_saved host h configuration
  have hcursor : ∀ key, key ∉ ConfigKey.configKeys →
      fileConfiguration (savedMembers configuration) key = none := fun key hkey =>
    (fileConfiguration_saved configuration key).trans (if_neg hkey)
  obtain ⟨userData, huserData⟩ := exists_resolvePath (directoriesOf host options)
    (htells.cli .cursorUserDataDirectory) (htells.environment _) (hcursor _ (by decide))
    (by cases host.platform <;> exact PosixPath.joinPaths_ne_nil _) rfl
  obtain ⟨projects, hprojects⟩ := exists_resolvePath (directoriesOf host options)
    (htells.cli .cursorProjectsDirectory) (htells.environment _) (hcursor _ (by decide))
    (by exact PosixPath.joinPaths_ne_nil _) rfl
  refine ⟨userData, projects, ?_⟩
  rw [loadConfiguration, hfile]
  show ((validateFileShape (serializableConfiguration configuration) _ true).mapError
    LoadError.configuration >>= _) = _
  rw [validateFileShape_saved]
  show ((readConfiguration parseUrl (directoriesOf host options)
    (sourcesOf host options (savedMembers configuration))).mapError
      LoadError.configuration >>= _) = _
  rw [htells.readConfiguration huserData hprojects]
  rfl

theorem configFile_of_load {host : Host} {options : LoadOptions} {loaded : Loaded parseUrl}
    (h : loadConfiguration parseUrl host options = .ok loaded) :
    loaded.configFile = configFile host options := by
  rw [loadConfiguration] at h
  cases hread : readConfigFile host options with
  | error error => rw [hread] at h; cases h
  | ok read =>
    rw [hread, ok_bind] at h
    cases hshape : validateFileShape (read.getD (.object [])) (configFile host options)
        read.isSome with
    | error error => rw [hshape] at h; cases h
    | ok members =>
      rw [hshape] at h
      change ((readConfiguration parseUrl (directoriesOf host options)
        (sourcesOf host options members)).mapError LoadError.configuration >>= _) = _ at h
      cases hconfiguration : readConfiguration parseUrl (directoriesOf host options)
          (sourcesOf host options members) with
      | error error => rw [hconfiguration] at h; cases h
      | ok configuration =>
        rw [hconfiguration] at h
        cases h
        rfl

/-- **Main.** What a load accepts is saved as a text that is loaded again from the same path, with
no other options and in an empty environment, wherever that load runs: every property that is saved
has the same value, and the same text is saved again. -/
theorem saved_configuration_reloads {host : Host} {options : LoadOptions} {loaded : Loaded parseUrl}
    (h : loadConfiguration parseUrl host options = .ok loaded) (gap : Nat) {white : List Char}
    (hwhite : ∀ c ∈ white, JsonParse.isWhite c = true) {later : Host} {again : LoadOptions}
    (hagain : again.OnlyPath) (hpath : configFile later again = configFile host options)
    (hread : later.readPrivateFile (configFile host options) =
      .ok (configurationText gap white loaded.configuration)) :
    ∃ reloaded, loadConfiguration parseUrl later again = .ok reloaded ∧
      reloaded.configFile = loaded.configFile ∧
      (∀ key ∈ ConfigKey.configKeys,
        reloaded.configuration.value key = loaded.configuration.value key) ∧
      configurationText gap white reloaded.configuration =
        configurationText gap white loaded.configuration := by
  rw [← hpath] at hread
  obtain ⟨userData, projects, hload⟩ := load_saved loaded.configuration hagain gap hwhite hread
  refine ⟨_, hload, hpath.trans (configFile_of_load h).symm, ?_, rfl⟩
  intro key hkey
  cases key with
  | dashboardDirectory | cursorUserDataDirectory | cursorProjectsDirectory =>
    exact absurd hkey (by decide)
  | _ => rfl

theorem exists_ok {ε α : Type} {result : Except ε α} (h : result.isOk = true) :
    ∃ a, result = .ok a := by
  cases result with
  | ok a => exact ⟨a, rfl⟩
  | error error => cases h

/-- A dashboard on a port of the host. -/
def localDashboard (text : String) : Option Url :=
  if text = "http://localhost:3000" then
    some ⟨"http:", "localhost", "3000", "", "", "/", "", "", "http://localhost:3000"⟩
  else none

/-- A host without a configuration, on which a program runs in `/w`. -/
def emptyHost : Host := ⟨.other, "/w".toList, fun _ => .error ⟨"ENOENT", "no such file"⟩⟩

/-- A token file below the working directory, a port, and a dashboard. -/
def initOptions : LoadOptions where
  cli := ⟨fun
    | .configFile => some "/c/config.json"
    | .tokenFile => some "state/token"
    | .port => some "8080"
    | _ => none, none⟩
  env name := if name = "AGENT_HOST_DASHBOARD_URL" then some "http://localhost:3000" else none
  homeDirectory := "/h".toList
  allowMissingExplicit := true

/-- The options of a later load. -/
def pathOptions : LoadOptions where
  cli := ⟨fun
    | .configFile => some "/c/config.json"
    | _ => none, none⟩
  env _ := none
  homeDirectory := "/h".toList
  allowMissingExplicit := false

theorem onlyPath_pathOptions : pathOptions.OnlyPath where
  values option hne := by cases option <;> first | rfl | exact absurd rfl hne
  allowedOrigins := rfl
  env _ := rfl

/-- Both loads read the same file. -/
theorem configFile_pathOptions (files : List Char → Except ReadError String) :
    configFile ⟨.other, "/elsewhere".toList, files⟩ pathOptions =
      configFile emptyHost initOptions := by
  have hfirst : configFile emptyHost initOptions = "/c/config.json".toList := by decide +kernel
  have hlater : PosixPath.resolvePaths "/elsewhere".toList ["/c/config.json".toList] =
      "/c/config.json".toList := by decide +kernel
  rw [hfirst]
  exact hlater

theorem saved_configuration_reloads_init :
    ∃ loaded, loadConfiguration localDashboard emptyHost initOptions = .ok loaded ∧
      ∃ reloaded, loadConfiguration localDashboard ⟨.other, "/elsewhere".toList, fun _ =>
          .ok (configurationText 2 ['\n'] loaded.configuration)⟩ pathOptions = .ok reloaded ∧
        reloaded.configFile = loaded.configFile ∧
        (∀ key ∈ ConfigKey.configKeys,
          reloaded.configuration.value key = loaded.configuration.value key) ∧
        configurationText 2 ['\n'] reloaded.configuration =
          configurationText 2 ['\n'] loaded.configuration := by
  have hok : (loadConfiguration localDashboard emptyHost initOptions).isOk = true := by
    decide +kernel
  obtain ⟨loaded, hloaded⟩ := exists_ok hok
  refine ⟨loaded, hloaded, ?_⟩
  have hpath := configFile_pathOptions fun _ =>
    .ok (configurationText 2 ['\n'] loaded.configuration)
  have hwhite : ∀ c ∈ ['\n'], JsonParse.isWhite c = true := fun c hc => by
    rw [List.mem_singleton.mp hc]
    rfl
  exact saved_configuration_reloads hloaded 2 hwhite onlyPath_pathOptions hpath rfl

end AgentHost.Config
