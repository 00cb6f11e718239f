import Mathlib
import AgentHost.Core.AgentListQuery

namespace AgentHost

/-!
# The checks of a request (`http/security.js`)

* `HttpRequest` — what the server reads of a request; `HttpPlatform` — the environment's URLs.
* `createApiSecurity` — the token, the allowed origins and the allowed hosts.
* `ApiSecurity.validateHost`, `validateOrigin`, `preflight`, `authenticate`, `requireJson` — the checks.
* `safeEqual_iff` — the comparison of tokens is equality of their bytes.
-/

/-- The parts of a parsed URL that are read. -/
structure ServerUrl where
  protocol : String
  hostname : String
  port : String
  origin : String
  pathname : String
  searchParams : SearchParams
  deriving DecidableEq

/-- `new URL`, the assignment of a pathname, and `decodeURIComponent`; `none` where they throw. -/
structure HttpPlatform where
  parseUrl : String → Option ServerUrl
  /-- `new URL(target, "http://localhost")`. -/
  parseTarget : String → Option ServerUrl
  assignPathname : ServerUrl → String → ServerUrl
  decodeURIComponent : String → Option String
  encodeURIComponent : String → String
  toUpperCase : String → String

structure HttpRequest where
  method : String
  target : Option String
  host : Option String
  origin : Option String
  authorization : Option String
  accessControlRequestMethod : Option String
  accessControlRequestHeaders : Option String
  contentType : Option String
  idempotencyKey : Option String

/-- The headers set on a response. -/
abbrev HttpHeaders := List (String × String)

/-- `setHeader`: a header of the same name is replaced. -/
def HttpHeaders.set (headers : HttpHeaders) (name value : String) : HttpHeaders :=
  headers.filter (fun header => header.1 ≠ name) ++ [(name, value)]

/-- Whether a text begins with another one. -/
def startsWith (text word : String) : Bool := word.toList.isPrefixOf text.toList

/-! ### Origins and tokens -/

def originNotAllowed (message : String) : ContractError := ⟨"origin_not_allowed", message, 403⟩

def normalizeOrigin (platform : HttpPlatform) (value : String) : Except ContractError String :=
  if value = "null" then .error (originNotAllowed "request origin is not allowed")
  else
    match platform.parseUrl value with
    | none => .error (originNotAllowed "request origin is invalid")
    | some url =>
      if (url.protocol ≠ "http:" ∧ url.protocol ≠ "https:") ∨ url.origin ≠ value then
        .error (originNotAllowed "request origin is invalid")
      else .ok url.origin

/-- Buffers of one length that are equal. -/
def timingSafeEqual (left right : List UInt8) : Bool := left = right

def safeEqual (actual expected : String) : Bool :=
  let actualBytes := actual.toUTF8.toList
  let expectedBytes := expected.toUTF8.toList
  let comparable := if actualBytes.length = expectedBytes.length then actualBytes
    else List.replicate expectedBytes.length 0
  timingSafeEqual comparable expectedBytes && actualBytes.length = expectedBytes.length

/-- Tokens are compared by all of their bytes. -/
theorem safeEqual_iff {actual expected : String} :
    safeEqual actual expected = true ↔ actual.toUTF8.toList = expected.toUTF8.toList := by
  rw [safeEqual, Bool.and_eq_true, timingSafeEqual, decide_eq_true_eq, decide_eq_true_eq]
  constructor
  · rintro ⟨h, hlength⟩
    rwa [if_pos hlength] at h
  · intro h
    rw [if_pos (congrArg List.length h)]
    exact ⟨h, congrArg List.length h⟩

/-- `^Bearer ([^\s]+)$`, whatever the case of the scheme. -/
def bearerToken (authorization : String) : Option String :=
  let scheme := String.ofList (authorization.toList.take 6)
  let token := authorization.toList.drop 7
  if toLowerCase scheme = "bearer" ∧ authorization.toList[6]? = some ' ' ∧ token ≠ [] ∧
      token.all (fun c => !isSpace c) then some (String.ofList token)
  else none

/-! ### The checks -/

structure SecurityOptions where
  apiToken : Option String
  allowedOrigins : List String
  allowedHosts : Option (List String)
  port : Nat

structure ApiSecurity where
  apiToken : String
  generatedToken : Bool
  allowedOrigins : List String
  allowedHosts : List String
  port : Nat

/-- `createApiSecurity`, with the random token that stands where none is configured. -/
def createApiSecurity (platform : HttpPlatform) (options : SecurityOptions) (randomToken : String) :
    Except String ApiSecurity := do
  let configuredToken := (options.apiToken.map trimText).filter (· ≠ "")
  let allowedOrigins ← options.allowedOrigins.mapM fun value =>
    match normalizeOrigin platform value with
    | .ok origin => .ok origin
    | .error _ => .error ("invalid allowed origin: " ++ value)
  return {
    apiToken := configuredToken.getD randomToken
    generatedToken := configuredToken.isNone
    allowedOrigins
    allowedHosts := options.allowedHosts.getD ["127.0.0.1", "localhost", "[::1]"]
    port := options.port }

namespace ApiSecurity

def invalidHost (message : String) : ContractError := ⟨"invalid_host", message, 421⟩

/-- `validateHost`, with the port that the server listens on, once it does. -/
def validateHost (security : ApiSecurity) (platform : HttpPlatform) (request : HttpRequest)
    (address : Option Nat) : Except ContractError String :=
  match request.host.filter (· ≠ "") with
  | none => .error (invalidHost "Host header is required")
  | some rawHost =>
    match platform.parseUrl ("http://" ++ rawHost) with
    | none => .error (invalidHost "Host header is invalid")
    | some host =>
      let expectedPort := toString (address.getD security.port)
      let actualPort := if host.port = "" then "80" else host.port
      if host.hostname ∉ security.allowedHosts ∨ actualPort ≠ expectedPort then
        .error (invalidHost "Host header is not allowed")
      else .ok host.origin

def validateOrigin (security : ApiSecurity) (platform : HttpPlatform) (request : HttpRequest)
    (requestOrigin : String) : Except ContractError (Option String) :=
  match request.origin with
  | none => .ok none
  | some rawOrigin => do
    let origin ← normalizeOrigin platform rawOrigin
    if origin ≠ requestOrigin ∧ origin ∉ security.allowedOrigins then
      .error (originNotAllowed "request origin is not allowed")
    else .ok (some origin)

/-- `applyCors`; an empty origin is none. -/
def applyCors (headers : HttpHeaders) (origin : Option String) : HttpHeaders :=
  match origin.filter (· ≠ "") with
  | none => headers
  | some origin => (headers.set "access-control-allow-origin" origin).set "vary" "Origin"

/-- `preflight`: the headers of the empty response, 204. -/
def preflight (platform : HttpPlatform) (request : HttpRequest) (headers : HttpHeaders)
    (origin : Option String) : Except ContractError HttpHeaders :=
  if (origin.filter (· ≠ "")).isNone then
    .error ⟨"origin_required", "CORS preflight requires Origin", 403⟩
  else
    let method := platform.toUpperCase (request.accessControlRequestMethod.getD "")
    let requested := ((Texts.split ',' (request.accessControlRequestHeaders.getD "").toList).map
      fun header => toLowerCase (trimText (String.ofList header))).filter (· ≠ "")
    if method ∉ ["GET", "POST"] then
      .error ⟨"cors_method_not_allowed", "CORS method is not allowed", 403⟩
    else if requested.any (· ∉ ["authorization", "content-type", "idempotency-key"]) then
      .error ⟨"cors_headers_not_allowed", "CORS headers are not allowed", 403⟩
    else
      let headers := applyCors headers origin
      let headers := headers.set "access-control-allow-methods" "GET, POST"
      let headers := headers.set "access-control-allow-headers"
        "Authorization, Content-Type, Idempotency-Key"
      .ok (headers.set "access-control-max-age" "600")

/-- `authenticate`: an error comes with the challenge that it sets. -/
def authenticate (security : ApiSecurity) (request : HttpRequest) :
    Except (String × ContractError) Unit :=
  match request.authorization.filter (· ≠ "") with
  | none =>
    .error ("Bearer", ⟨"authentication_required", "Bearer token is required", 401⟩)
  | some authorization =>
    match bearerToken authorization with
    | none => .error ("Bearer error=\"invalid_token\"",
        ⟨"invalid_token", "Bearer token is invalid", 401⟩)
    | some token =>
      if safeEqual token security.apiToken then .ok ()
      else .error ("Bearer error=\"invalid_token\"",
        ⟨"invalid_token", "Bearer token is invalid", 401⟩)

def requireJson (request : HttpRequest) : Except ContractError Unit :=
  let type := (Texts.split ';' (request.contentType.getD "").toList).headD []
  if toLowerCase (trimText (String.ofList type)) = "application/json" then .ok ()
  else .error ⟨"unsupported_media_type", "Content-Type must be application/json", 415⟩

end ApiSecurity

end AgentHost
