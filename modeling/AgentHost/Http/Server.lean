import AgentHost.Http.Security
import AgentHost.Lib.Routines

namespace AgentHost

/-!
# The request handler (`http/server.js`)

A request is answered by a routine: its actions are the operations of the registry, of the launch
coordinator and of the action executor, and what it asks of its own process.

* `ServerOperation`, `ServerAnswer` — the actions; `ServerOperation.isData` — those that reach what the
  server guards.
* `routedUrl` — the target with the prefix of the application taken off.
* `checkRequest` — the checks, in their order.
* `route` — the routes; `handleRequest` — the handler with its error path.
* `runRequest` — a run against whatever answers.
-/

/-- What `registry.readiness()` returns. -/
structure Readiness where
  ready : Bool
  initialLoading : Bool
  refreshing : Bool
  degraded : Bool
  adapters : JsonValue

/-- An audited action. -/
structure RequestAudit where
  requestId : String
  agentId : String
  action : String

inductive ServerOperation
  /-- `registry.revision`. -/
  | revision
  | readiness
  /-- `registry.events.emit` of an `audit.action`; with its outcome once it is completed. -/
  | emitAudit (audit : RequestAudit) (completed : Option (Bool × Option String × Bool))
  /-- `launchCoordinator.capabilities()`. -/
  | launchCapabilities
  | submitLaunch (payload : JsonValue) (idempotencyKey : Option String)
  | getLaunch (launchId : String)
  | retireLaunch (launchId : String) (payload : JsonValue) (idempotencyKey : Option String)
  /-- `operations.snapshot` with the readiness of the registry. -/
  | diagnostics
  /-- `registry.listView`, and the page of the query. -/
  | listView (view : String) (searchParams : SearchParams)
  | refresh
  /-- `registry.events.subscribe`. -/
  | subscribe
  | repositoryContext (agentId : String)
  | getAgent (agentId : String)
  | executeAction (agentId action : String) (payload : JsonValue) (idempotencyKey : Option String)
  /-- A file of the dashboard. -/
  | serveDashboard (method pathname : String)
  /-- `jsonBody`. -/
  | jsonBody
  | randomUUID
  /-- The flag that `stop` sets. -/
  | stopping
  | log (event : String)

/-- Whether an operation is one of the registry, the coordinator, the executor or the diagnostics. -/
def ServerOperation.isData : ServerOperation → Bool
  | .serveDashboard _ _ | .jsonBody | .randomUUID | .stopping | .log _ => false
  | _ => true

/-- What is thrown: an error of the contract, or any other with the code that it has. -/
inductive Thrown
  | contract (error : ContractError)
  | other (code : Option String)

/-- The result of an action. -/
structure ExecutedAction where
  ok : Bool
  code : Option String
  message : Option String
  agentId : Option String
  action : Option String
  view : JsonValue
  replayed : Bool

/-- What an operation yields; `Except` where it may throw. -/
@[reducible] def ServerAnswer : ServerOperation → Type
  | .revision => Nat
  | .readiness => Readiness
  | .emitAudit _ _ | .log _ => Unit
  | .launchCapabilities | .diagnostics => Except Thrown JsonValue
  | .submitLaunch _ _ => Except Thrown (String × JsonValue)
  | .getLaunch _ => Option JsonValue
  | .retireLaunch _ _ _ => Except Thrown (Bool × JsonValue)
  | .listView _ _ => Except Thrown JsonValue
  | .refresh => Except Thrown Nat
  | .subscribe => Nat × Bool
  | .repositoryContext _ => Except Thrown (Option (Nat × JsonValue))
  | .getAgent _ => Option JsonValue
  | .executeAction _ _ _ _ => Except Thrown ExecutedAction
  | .serveDashboard _ _ => Except Thrown (Option (Nat × HttpHeaders × List UInt8))
  | .jsonBody => Except Thrown JsonValue
  | .randomUUID => String
  | .stopping => Bool

/-- The body of a response, by the data that it is written from. -/
inductive HttpBody
  | empty
  | error (code message : String) (details : Option (Option String × Option String))
  | health (revision : Nat)
  | ready (revision : Nat) (ready initialLoading refreshing degraded : Bool)
  | adapters (revision : Nat) (readiness : Readiness)
  | capabilities (launches : JsonValue)
  | launched (result : JsonValue)
  | launch (launch : JsonValue)
  | retired (result : JsonValue)
  | diagnostics (snapshot : JsonValue)
  | agents (revision : Nat) (page : JsonValue)
  | refreshed (revision agentCount : Nat) (readiness : Readiness)
  | events (revision sequence : Nat) (initialLoading : Bool)
  | repository (associationVersion : String) (revision : Nat) (agentId : String) (context : JsonValue)
  | agent (revision : Nat) (agent : JsonValue)
  | action (result : JsonValue) (replayed : Bool)
  | file (bytes : List UInt8)

structure HttpResponse where
  status : Nat
  headers : HttpHeaders
  body : HttpBody

/-- What a handler throws, with the headers that are set by then and the audit that is not completed. -/
structure ServerFailure where
  thrown : Thrown
  headers : HttpHeaders
  audit : Option RequestAudit

/-- A handler. -/
abbrev RequestRoutine := Routine ServerOperation ServerAnswer ServerFailure

/-! ### Responses -/

def send (headers : HttpHeaders) (status : Nat) (body : HttpBody) : HttpResponse :=
  ⟨status, headers.set "content-type" "application/json; charset=utf-8", body⟩

def sendPrivate (headers : HttpHeaders) (status : Nat) (body : HttpBody) : HttpResponse :=
  send (headers.set "cache-control" "private, no-store") status body

def sendError (headers : HttpHeaders) (status : Nat) (code message : String)
    (details : Option (Option String × Option String)) : HttpResponse :=
  sendPrivate headers status (.error code message details)

def actionErrorStatus (code : Option String) : Nat :=
  if code = some "agent_not_found" then 404
  else if code = some "unknown_action" then 400
  else if code = some "adapter_not_found" then 500
  else 409

/-- The response of the error path. -/
def sendThrown (headers : HttpHeaders) (thrown : Thrown) : HttpResponse :=
  let code := match thrown with
    | .contract error => some error.code
    | .other code => code
  let headers := if code = some "queue_full" ∨ code = some "launch_queue_full" then
    headers.set "retry-after" "1" else headers
  match thrown with
  | .contract error => sendError headers error.status error.code error.message none
  | .other _ => sendError headers 500 "internal_error" "internal server error" none

/-! ### Targets -/

/-- The parts of a pathname between its slashes. -/
def pathParts (pathname : String) : List String :=
  (Texts.split '/' pathname.toList).map String.ofList

/-- The target of a request, with the prefix of the application taken off. -/
def routedUrl (platform : HttpPlatform) (request : HttpRequest) : Option ServerUrl :=
  (platform.parseTarget (request.target.getD "/")).map fun url =>
    if url.pathname = "/agent-host" ∨ startsWith url.pathname "/agent-host/" = true then
      let rest := String.ofList (url.pathname.toList.drop "/agent-host".length)
      platform.assignPathname url (if rest = "" then "/" else rest)
    else url

/-- The paths that need a token. -/
def underApi (pathname : String) : Bool := pathname = "/v1" || startsWith pathname "/v1/"

def actionNames : List String :=
  ["prompt", "send-keys", "approve", "reject", "interrupt", "focus", "read"]

/-- `actionMatch`: the agent's segment and the action. -/
def actionMatch (pathname : String) : Option (String × String) :=
  match pathParts pathname with
  | ["", "v1", "agents", agent, action] =>
    if agent ≠ "" ∧ action ∈ actionNames then some (agent, action) else none
  | _ => none

def launchMatch (pathname : String) : Option String :=
  match pathParts pathname with
  | ["", "v1", "launches", launch] => if launch ≠ "" then some launch else none
  | _ => none

def retirementMatch (pathname : String) : Option String :=
  match pathParts pathname with
  | ["", "v1", "launches", launch, "retire"] => if launch ≠ "" then some launch else none
  | _ => none

def repositoryMatch (pathname : String) : Option String :=
  match pathParts pathname with
  | ["", "v1", "agents", agent, "repository-associations"] =>
    if agent ≠ "" then some agent else none
  | _ => none

def agentMatch (pathname : String) : Option String :=
  match pathParts pathname with
  | ["", "v1", "agents", agent] => if agent ≠ "" then some agent else none
  | _ => none

def decodeSegment (platform : HttpPlatform) (value : String) : Except ContractError String :=
  match platform.decodeURIComponent value with
  | some text => .ok text
  | none => .error ⟨"invalid_agent_id", "agent id is not valid percent-encoded text", 400⟩

def decodeLaunchSegment (platform : HttpPlatform) (value : String) : Except ContractError String :=
  match platform.decodeURIComponent value with
  | some text => .ok text
  | none => .error ⟨"invalid_launch_id", "launch id is not valid percent-encoded text", 400⟩

def parseRepositoryAssociationVersion (searchParams : SearchParams) :
    Except ContractError String :=
  let version := (searchParams.get "version").getD "1"
  if version ≠ "1" then
    .error ⟨"unsupported_repository_association_version",
      "requested repository association version is not supported", 406⟩
  else .ok version

/-! ### The checks, in their order -/

/-- What the checks come to. -/
inductive RequestCheck
  /-- One of them threw. -/
  | refused (headers : HttpHeaders) (error : ContractError)
  /-- The preflight was answered. -/
  | preflight (response : HttpResponse)
  | admitted (headers : HttpHeaders)

def checkRequest (security : ApiSecurity) (platform : HttpPlatform) (address : Option Nat)
    (request : HttpRequest) (pathname : String) : RequestCheck :=
  match security.validateHost platform request address with
  | .error error => .refused [] error
  | .ok requestOrigin =>
    match security.validateOrigin platform request requestOrigin with
    | .error error => .refused [] error
    | .ok origin =>
      let headers := ApiSecurity.applyCors [] origin
      if request.method = "OPTIONS" then
        match ApiSecurity.preflight platform request headers origin with
        | .error error => .refused headers error
        | .ok headers => .preflight ⟨204, headers, .empty⟩
      else if underApi pathname then
        match security.authenticate request with
        | .error (challenge, error) => .refused (headers.set "www-authenticate" challenge) error
        | .ok () => .admitted headers
      else .admitted headers

/-- `completeAudit`, of an audit that is not completed. -/
def completeAudit {ε : Type} (audit : Option RequestAudit) (ok : Bool) (code : Option String)
    (replayed : Bool) : Routine ServerOperation ServerAnswer ε Unit :=
  match audit with
  | none => .done ()
  | some audit =>
    .act .revision fun _ => .act (.emitAudit audit (some (ok, code, replayed))) fun _ =>
      .act (.log "action.completed") .done

/-! ### The routes -/

/-- What a route has besides the request. -/
structure RouteContext where
  platform : HttpPlatform
  /-- Whether a dashboard is served. -/
  dashboard : Bool
  request : HttpRequest
  url : ServerUrl
  headers : HttpHeaders
  audit : Option RequestAudit

namespace RouteContext

variable (context : RouteContext)

def throwContract {α : Type} (error : ContractError) : RequestRoutine α :=
  .fail ⟨.contract error, context.headers, context.audit⟩

/-- What a check of the contract returns. -/
def lift {α : Type} : Except ContractError α → RequestRoutine α
  | .ok value => .done value
  | .error error => context.throwContract error

/-- What an operation returns. -/
def returned {α : Type} : Except Thrown α → RequestRoutine α
  | .ok value => .done value
  | .error thrown => .fail ⟨thrown, context.headers, context.audit⟩

def perform (operation : ServerOperation) : RequestRoutine (ServerAnswer operation) :=
  .act operation .done

def refuseWhenStopping : RequestRoutine Unit := do
  let stopping : Bool ← perform .stopping
  if stopping then
    context.throwContract ⟨"shutting_down", "agent-host is shutting down", 503⟩
  else return ()

/-- The body of a request that must be JSON. -/
def requestBody : RequestRoutine JsonValue := do
  context.lift (ApiSecurity.requireJson context.request)
  context.returned (← perform .jsonBody)

end RouteContext

open RouteContext in
/-- The routes under `/v1`, in their order. -/
def apiRoute (context : RouteContext) : RequestRoutine HttpResponse :=
  let headers := context.headers
  let method := context.request.method
  let pathname := context.url.pathname
  if method = "GET" ∧ pathname = "/v1/capabilities" then do
    let launches ← context.returned (← perform .launchCapabilities)
    return sendPrivate headers 200 (.capabilities launches)
  else if method = "POST" ∧ pathname = "/v1/launches" then do
    context.refuseWhenStopping
    let payload ← context.requestBody
    let (launchId, result) ← context.returned
      (← perform (.submitLaunch payload context.request.idempotencyKey))
    return sendPrivate (headers.set "location" ("/v1/launches/" ++
      context.platform.encodeURIComponent launchId)) 202 (.launched result)
  else if method = "GET" ∧ (launchMatch pathname).isSome then do
    let launchId ← context.lift
      (decodeLaunchSegment context.platform ((launchMatch pathname).getD ""))
    match (← perform (.getLaunch launchId) : Option JsonValue) with
    | some launch => return sendPrivate headers 200 (.launch launch)
    | none => return sendError headers 404 "launch_not_found" "launch not found" none
  else if method = "POST" ∧ (retirementMatch pathname).isSome then do
    context.refuseWhenStopping
    context.lift (ApiSecurity.requireJson context.request)
    let launchId ← context.lift
      (decodeLaunchSegment context.platform ((retirementMatch pathname).getD ""))
    let payload ← context.returned (← perform .jsonBody)
    let (replayed, result) ← context.returned
      (← perform (.retireLaunch launchId payload context.request.idempotencyKey))
    completeAudit context.audit true none replayed
    return sendPrivate headers 200 (.retired result)
  else if method = "GET" ∧ pathname = "/v1/diagnostics" then do
    let snapshot ← context.returned (← perform .diagnostics)
    return send headers 200 (.diagnostics snapshot)
  else if method = "GET" ∧ pathname = "/v1/agents" then do
    let view := (context.url.searchParams.get "view").getD "recent"
    let page ← context.returned (← perform (.listView view context.url.searchParams))
    let revision : Nat ← perform .revision
    return send headers 200 (.agents revision page)
  else if method = "POST" ∧ pathname = "/v1/refresh" then do
    context.refuseWhenStopping
    let agentCount ← context.returned (← perform .refresh)
    let revision : Nat ← perform .revision
    let readiness : Readiness ← perform .readiness
    return send headers 200 (.refreshed revision agentCount readiness)
  else if method = "GET" ∧ pathname = "/v1/events" then do
    let (sequence, initialLoading) : Nat × Bool ← perform .subscribe
    let revision : Nat ← perform .revision
    return ⟨200, ((headers.set "content-type" "text/event-stream").set "cache-control"
      "no-cache").set "connection" "keep-alive", .events revision sequence initialLoading⟩
  else if method = "GET" ∧ (repositoryMatch pathname).isSome then do
    let headers := headers.set "cache-control" "private, no-store"
    let context := { context with headers }
    let associationVersion ← context.lift
      (parseRepositoryAssociationVersion context.url.searchParams)
    let agentId ← context.lift
      (decodeSegment context.platform ((repositoryMatch pathname).getD ""))
    match ← context.returned (← perform (.repositoryContext agentId)) with
    | some (revision, view) =>
      return sendPrivate headers 200 (.repository associationVersion revision agentId view)
    | none => return sendError headers 404 "agent_not_found" "agent not found" none
  else if method = "GET" ∧ (agentMatch pathname).isSome then do
    let agentId ← context.lift (decodeSegment context.platform ((agentMatch pathname).getD ""))
    match (← perform (.getAgent agentId) : Option JsonValue) with
    | some agent => do
      let revision : Nat ← perform .revision
      return send headers 200 (.agent revision agent)
    | none => return sendError headers 404 "agent_not_found" "agent not found" none
  else
    match (if method = "POST" then actionMatch pathname else none), context.audit with
    | some (_, action), some audit => do
      context.refuseWhenStopping
      let payload ← context.requestBody
      let result ← context.returned (← perform
        (.executeAction audit.agentId action payload context.request.idempotencyKey))
      completeAudit (some audit) result.ok result.code result.replayed
      if result.ok then return send headers 200 (.action result.view result.replayed)
      else
        return sendError headers (actionErrorStatus result.code) (result.code.getD "")
          (result.message.getD "") (some (result.agentId, result.action))
    | _, _ => return sendError headers 404 "not_found" "route not found" none

open RouteContext in
/-- The routes that need no token, and then those under `/v1`. -/
def route (context : RouteContext) : RequestRoutine HttpResponse :=
  let headers := context.headers
  let method := context.request.method
  let pathname := context.url.pathname
  if method = "GET" ∧ pathname = "/health" then do
    let revision : Nat ← perform .revision
    return send headers 200 (.health revision)
  else if method = "GET" ∧ pathname = "/ready" then do
    let readiness : Readiness ← perform .readiness
    let revision : Nat ← perform .revision
    return send headers (if readiness.ready then 200 else 503)
      (.ready revision readiness.ready readiness.initialLoading readiness.refreshing
        readiness.degraded)
  else if method = "GET" ∧ pathname = "/v1/adapters" then do
    let revision : Nat ← perform .revision
    let readiness : Readiness ← perform .readiness
    return send headers 200 (.adapters revision readiness)
  else if startsWith pathname "/v1" = false ∧ context.dashboard = true then do
    match ← context.returned (← perform (.serveDashboard method pathname)) with
    | some (status, fileHeaders, bytes) => return ⟨status, headers ++ fileHeaders, .file bytes⟩
    | none => apiRoute context
  else apiRoute context

open RouteContext in
/-- The audit of an action, and its first event. -/
def startAudit (context : RouteContext) : RequestRoutine (Option RequestAudit) := do
  let pathname := context.url.pathname
  if context.request.method = "POST" ∧
      ((actionMatch pathname).isSome ∨ (retirementMatch pathname).isSome) then do
    let requestId : String ← perform .randomUUID
    let agentId ← context.lift <|
      match actionMatch pathname with
      | some (agent, _) => decodeSegment context.platform agent
      | none => decodeLaunchSegment context.platform ((retirementMatch pathname).getD "")
    let action := ((actionMatch pathname).map Prod.snd).getD "retire-launch"
    let audit : RequestAudit := ⟨requestId, agentId, action⟩
    let _ : Nat ← perform .revision
    let _ : Unit ← perform (.emitAudit audit none)
    let _ : Unit ← perform (.log "action.attempted")
    return some audit
  else return none

/-- The error path: an audit that is not completed is completed with the error. -/
def failRequest (failure : ServerFailure) :
    Routine ServerOperation ServerAnswer Empty HttpResponse :=
  let code := match failure.thrown with
    | .contract error => error.code
    | .other _ => "internal_error"
  (completeAudit failure.audit false (some code) false).bind fun _ =>
    .done (sendThrown failure.headers failure.thrown)

/-- What the server is configured with. -/
structure ServerConfig where
  security : ApiSecurity
  platform : HttpPlatform
  dashboard : Bool

/-- The handler of a request; `address` is the port that the server listens on. -/
def handleRequest (config : ServerConfig) (address : Option Nat) (request : HttpRequest) :
    Routine ServerOperation ServerAnswer Empty HttpResponse :=
  match routedUrl config.platform request with
  | none => .done (sendThrown [] (.other (some "ERR_INVALID_URL")))
  | some url =>
    match checkRequest config.security config.platform address request url.pathname with
    | .refused headers error => .done (sendThrown headers (.contract error))
    | .preflight response => .done response
    | .admitted headers =>
      let context : RouteContext :=
        ⟨config.platform, config.dashboard, request, url, headers, none⟩
      ((startAudit context).bind fun audit => route { context with audit }).tryCatch failRequest

/-! ### Runs -/

/-- The operations that a routine does against what answers, each by its number, and what it returns. -/
def runRequest {ε α : Type} (answers : Nat → (operation : ServerOperation) → ServerAnswer operation) :
    Nat → Routine ServerOperation ServerAnswer ε α → List ServerOperation × Except ε α
  | _, .done value => ([], .ok value)
  | _, .fail error => ([], .error error)
  | n, .act operation next =>
    let rest := runRequest answers (n + 1) (next (answers n operation))
    (operation :: rest.1, rest.2)

end AgentHost
