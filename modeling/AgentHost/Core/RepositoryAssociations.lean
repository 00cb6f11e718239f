import AgentHost.Core.LaunchContracts
import AgentHost.Lib.JsonValue

namespace AgentHost

/-!
# Repository associations

The normal form of a repository context, as `repository-associations.js` computes it.

* `normalizeAssociation` — one association, or the error that rejects it.
* `normalizeRepositoryContext` — a context from any JSON value: what is invalid or too much is
  dropped and counted.
* `RepositoryContext.Intact` — the values of which nothing is dropped or counted.
* `normalize_idempotent` — these are the values whose normal form is its own normal form.
-/

def maxRepositoryAssociations : Nat := 100
def maxRawRepositoryAssociations : Nat := 200

/-! ### The limits of `MAX` -/

def maxForge : Nat := 32
def maxHost : Nat := 253
def maxOwner : Nat := 160
def maxName : Nat := 100
def maxOpaque : Nat := 200
def maxRepositoryId : Nat := 128
def maxWebUrl : Nat := 500
def maxBranch : Nat := 255
def maxWorktreeId : Nat := 128

/-! ### Data -/

inductive Freshness
  | current
  | stale
  deriving DecidableEq

inductive AssociationKind
  | confirmed
  | candidate
  deriving DecidableEq

inductive ProvenanceSource
  | adapterAuthoritative
  | userDeclared
  | adapterHeuristic
  deriving DecidableEq

inductive Confidence
  | low
  | medium
  | high
  deriving DecidableEq

inductive CandidateReason
  | repositoryMatch
  | branchMatch
  | adapterHeuristic
  deriving DecidableEq

inductive RepositoryVisibility
  | publicRepository
  | privateRepository
  | internalRepository
  | unknown
  deriving DecidableEq

inductive CoordinateKind
  | named
  | opaqueValue
  deriving DecidableEq

inductive ContextState
  | ready
  | unsupported
  | unavailable
  deriving DecidableEq

def Freshness.text : Freshness → String
  | .current => "current"
  | .stale => "stale"

def AssociationKind.text : AssociationKind → String
  | .confirmed => "confirmed"
  | .candidate => "candidate"

def ProvenanceSource.text : ProvenanceSource → String
  | .adapterAuthoritative => "adapter-authoritative"
  | .userDeclared => "user-declared"
  | .adapterHeuristic => "adapter-heuristic"

def Confidence.text : Confidence → String
  | .low => "low"
  | .medium => "medium"
  | .high => "high"

def CandidateReason.text : CandidateReason → String
  | .repositoryMatch => "repository_match"
  | .branchMatch => "branch_match"
  | .adapterHeuristic => "adapter_heuristic"

def RepositoryVisibility.text : RepositoryVisibility → String
  | .publicRepository => "public"
  | .privateRepository => "private"
  | .internalRepository => "internal"
  | .unknown => "unknown"

def CoordinateKind.text : CoordinateKind → String
  | .named => "named"
  | .opaqueValue => "opaque"

def ContextState.text : ContextState → String
  | .ready => "ready"
  | .unsupported => "unsupported"
  | .unavailable => "unavailable"

/-- `FRESHNESS`. -/
def Freshness.texts : TextSet Freshness where
  all := [.current, .stale]
  text := Freshness.text
  find?_text := by intro a; cases a <;> rfl

/-- `ASSOCIATION_KINDS`. -/
def AssociationKind.texts : TextSet AssociationKind where
  all := [.confirmed, .candidate]
  text := AssociationKind.text
  find?_text := by intro a; cases a <;> rfl

/-- `PROVENANCE_SOURCES`. -/
def ProvenanceSource.texts : TextSet ProvenanceSource where
  all := [.adapterAuthoritative, .userDeclared, .adapterHeuristic]
  text := ProvenanceSource.text
  find?_text := by intro a; cases a <;> rfl

/-- `CONFIDENCE`. -/
def Confidence.texts : TextSet Confidence where
  all := [.low, .medium, .high]
  text := Confidence.text
  find?_text := by intro a; cases a <;> rfl

/-- `CANDIDATE_REASONS`. -/
def CandidateReason.texts : TextSet CandidateReason where
  all := [.repositoryMatch, .branchMatch, .adapterHeuristic]
  text := CandidateReason.text
  find?_text := by intro a; cases a <;> rfl

/-- `VISIBILITY`. -/
def RepositoryVisibility.texts : TextSet RepositoryVisibility where
  all := [.publicRepository, .privateRepository, .internalRepository, .unknown]
  text := RepositoryVisibility.text
  find?_text := by intro a; cases a <;> rfl

/-- The kinds of coordinates. -/
def CoordinateKind.texts : TextSet CoordinateKind where
  all := [.named, .opaqueValue]
  text := CoordinateKind.text
  find?_text := by intro a; cases a <;> rfl

/-- `CONTEXT_STATES`. -/
def ContextState.texts : TextSet ContextState where
  all := [.ready, .unsupported, .unavailable]
  text := ContextState.text
  find?_text := by intro a; cases a <;> rfl

inductive Coordinates
  | named (owner name : String)
  | opaqueValue (value : String)
  deriving DecidableEq

structure Repository where
  forge : String
  host : String
  coordinates : Coordinates
  webUrl : String
  repositoryId : Option String
  visibility : Option RepositoryVisibility
  deriving DecidableEq

structure Provenance where
  source : ProvenanceSource
  confidence : Confidence
  deriving DecidableEq

/-- The branch and the id of the worktree. -/
structure Checkout where
  branch : Option String
  worktree : Option String
  deriving DecidableEq

structure PullRequest where
  number : Nat
  webUrl : Option String
  deriving DecidableEq

structure Association where
  kind : AssociationKind
  repository : Repository
  provenance : Provenance
  checkout : Option Checkout := none
  reason : Option CandidateReason := none
  pullRequest : Option PullRequest := none
  deriving DecidableEq

/-- The error of a partial context. -/
structure PartialError where
  retryable : Bool
  rejectedCount : Nat
  overflowCount : Nat
  deriving DecidableEq

inductive RepositoryContext
  | unsupported
  | unavailable (retryable : Bool)
  | ready (freshness : Freshness) (complete : Bool) (associations : List Association)
      (error : Option PartialError) (observedAt : Option String)
  deriving DecidableEq

/-! ### The values that are returned -/

def Coordinates.toJson : Coordinates → Json
  | .named owner name => .obj [("kind", .str "named"), ("owner", .str owner), ("name", .str name)]
  | .opaqueValue value => .obj [("kind", .str "opaque"), ("value", .str value)]

def Repository.toJson (repository : Repository) : Json :=
  .obj ([("forge", .str repository.forge), ("host", .str repository.host),
      ("coordinates", repository.coordinates.toJson), ("webUrl", .str repository.webUrl)] ++
    optionalMember "repositoryId" .str repository.repositoryId ++
    optionalMember "visibility" (fun v => .str v.text) repository.visibility)

def Provenance.toJson (provenance : Provenance) : Json :=
  .obj [("source", .str provenance.source.text), ("confidence", .str provenance.confidence.text)]

def Checkout.toJson (checkout : Checkout) : Json :=
  .obj (optionalMember "branch" .str checkout.branch ++
    optionalMember "worktree" (fun id => .obj [("id", .str id)]) checkout.worktree)

def PullRequest.toJson (pullRequest : PullRequest) : Json :=
  .obj (("number", .num pullRequest.number) :: optionalMember "webUrl" .str pullRequest.webUrl)

def Association.toJson (association : Association) : Json :=
  .obj ([("kind", .str association.kind.text), ("repository", association.repository.toJson),
      ("provenance", association.provenance.toJson)] ++
    optionalMember "checkout" Checkout.toJson association.checkout ++
    optionalMember "reason" (fun r => .str r.text) association.reason ++
    optionalMember "pullRequest" PullRequest.toJson association.pullRequest)

def PartialError.toJson (error : PartialError) : Json :=
  .obj [("code", .str "repository_associations_partial"), ("retryable", .bool error.retryable),
    ("rejectedCount", .num error.rejectedCount), ("overflowCount", .num error.overflowCount)]

def RepositoryContext.toJson : RepositoryContext → Json
  | .unsupported => .obj [("state", .str "unsupported"), ("reason", .str "adapter_not_supported")]
  | .unavailable retryable =>
    .obj [("state", .str "unavailable"),
      ("error", .obj [("code", .str "repository_associations_unavailable"),
        ("retryable", .bool retryable)])]
  | .ready freshness complete associations error observedAt =>
    .obj ([("state", .str "ready"), ("freshness", .str freshness.text), ("complete", .bool complete),
        ("associations", .arr (associations.map Association.toJson))] ++
      optionalMember "error" PartialError.toJson error ++
      optionalMember "observedAt" .str observedAt)

/-! ### Checks -/

/-- A parsed URL, and its serialization `href`. -/
structure WebUrl where
  protocol : String
  hostname : String
  username : String
  password : String
  search : String
  hash : String
  href : String

/-- `new URL` and `Date.parse`. -/
structure WebPlatform where
  parseUrl : String → Option WebUrl
  parseDate : String → Option Timestamp

/-- Throw unless a condition holds. -/
def require (condition : Bool) (message : String) : Except String Unit :=
  if condition then .ok () else .error message

/-- The members of a plain object. -/
def plainObject (value : Option JsonValue) (message : String) :
    Except String (List (String × JsonValue)) :=
  match value with
  | some (.object members) => .ok members
  | _ => .error message

/-- A member of a set of texts. -/
def oneOf {α : Type} (texts : TextSet α) (value : Option JsonValue) (message : String) :
    Except String α :=
  match texts.ofValue? value with
  | some a => .ok a
  | none => .error message

/-- Normalize a member where it is defined. -/
def whenDefined {α : Type} (value : Option JsonValue)
    (normalize : Option JsonValue → Except String α) : Except String (Option α) :=
  match value with
  | none => .ok none
  | some v => some <$> normalize (some v)

def isBounded (text : String) (maxLength : Nat) : Bool :=
  decide (1 ≤ utf16Length text) && decide (utf16Length text ≤ maxLength)

def boundedString (value : Option JsonValue) (name : String) (maxLength : Nat) :
    Except String String :=
  match value with
  | some (.string text) =>
    if isBounded text maxLength then .ok text
    else .error (name ++ " must be a bounded non-empty string")
  | _ => .error (name ++ " must be a bounded non-empty string")

/-- `^[a-z][a-z0-9-]*$`. -/
def safeForge (forge : String) : Bool :=
  forge.toList.all (fun c => isLowerAscii c && c.toNat != 46) &&
    forge.toList.head?.any fun c => decide (97 ≤ c.toNat)

/-- `^[a-z0-9.-]+$`, without a dot at either end. -/
def safeHost (host : String) : Bool :=
  host.toList.all isLowerAscii && host.toList.head?.any (fun c => c.toNat != 46) &&
    host.toList.getLast?.any fun c => c.toNat != 46

/-- A control character, or one of `\`, `?` and `#`. -/
def forbiddenInCoordinate (c : Char) : Bool :=
  c.toNat < 32 || c.toNat = 127 || c.toNat = 92 || c.toNat = 63 || c.toNat = 35

def safeCoordinate (value : String) (allowSlash : Bool) : Bool :=
  !value.toList.any forbiddenInCoordinate && !value.toList.head?.any isSpace &&
    !value.toList.getLast?.any isSpace && (allowSlash || !value.toList.contains '/') &&
    (value.toList.splitOn '/').all fun segment =>
      !segment.isEmpty && segment != ".".toList && segment != "..".toList

/-- `^[A-Za-z0-9._-]+$`. -/
def safeWorktreeId (id : String) : Bool :=
  !id.toList.isEmpty && id.toList.all fun c => hashChar c || c.toNat = 46

/-- A positive integer that a double holds exactly. -/
def positiveSafeInteger (value : Option JsonValue) : Option Nat :=
  match value with
  | some (.number (some q)) =>
    if q.den = 1 ∧ 1 ≤ q.num ∧ q.num ≤ 9007199254740991 then some q.num.toNat else none
  | _ => none

variable (platform : WebPlatform)

/-- The URL is HTTPS on the host, without credentials, query or fragment. -/
def canonicalUrl (parsed : WebUrl) (host : String) : Bool :=
  parsed.protocol == "https:" && toLowerCase parsed.hostname == host && parsed.username == "" &&
    parsed.password == "" && parsed.search == "" && parsed.hash == ""

def httpsUrl (value : Option JsonValue) (host : String) : Except String String := do
  let text ← boundedString value "webUrl" maxWebUrl
  match platform.parseUrl text with
  | none => .error "invalid web URL"
  | some parsed =>
    if canonicalUrl parsed host then .ok parsed.href
    else .error "web URL must be canonical HTTPS on the repository host"

def isoTimestamp (value : Option JsonValue) : Except String String := do
  let text ← boundedString value "observedAt" 40
  match platform.parseDate text with
  | none => .error "invalid observedAt"
  | some time =>
    if IsoTime.toISOString time = text then .ok text else .error "invalid observedAt"

def normalizeCoordinates (value : Option JsonValue) : Except String Coordinates := do
  let input ← plainObject value "invalid repository coordinates"
  let kind ← oneOf CoordinateKind.texts (JsonValue.memberOf input "kind")
    "invalid coordinate kind"
  match kind with
  | .named => do
    let owner ← boundedString (JsonValue.memberOf input "owner") "owner" maxOwner
    let name ← boundedString (JsonValue.memberOf input "name") "name" maxName
    require (safeCoordinate owner true && safeCoordinate name false) "invalid named coordinates"
    return .named owner name
  | .opaqueValue => do
    let text ← boundedString (JsonValue.memberOf input "value") "opaque coordinates" maxOpaque
    require (safeCoordinate text true) "invalid opaque coordinates"
    return .opaqueValue text

def normalizeRepository (value : Option JsonValue) : Except String Repository := do
  let input ← plainObject value "invalid repository"
  let forge ← boundedString (JsonValue.memberOf input "forge") "forge" maxForge
  require (safeForge (toLowerCase forge)) "invalid forge"
  let host ← boundedString (JsonValue.memberOf input "host") "host" maxHost
  require (safeHost (toLowerCase host)) "invalid repository host"
  let coordinates ← normalizeCoordinates (JsonValue.memberOf input "coordinates")
  let webUrl ← httpsUrl platform (JsonValue.memberOf input "webUrl") (toLowerCase host)
  let repositoryId ← whenDefined (JsonValue.memberOf input "repositoryId") fun v =>
    boundedString v "repositoryId" maxRepositoryId
  let visibility ← whenDefined (JsonValue.memberOf input "visibility") fun v =>
    oneOf RepositoryVisibility.texts v "invalid repository visibility"
  return ⟨toLowerCase forge, toLowerCase host, coordinates, webUrl, repositoryId, visibility⟩

/-- A confirmed association is of high confidence and not heuristic, a candidate is not of high
    confidence. -/
def admissibleProvenance (kind : AssociationKind) (provenance : Provenance) : Bool :=
  match kind with
  | .confirmed => provenance.source != .adapterHeuristic && provenance.confidence == .high
  | .candidate => provenance.confidence != .high

/-- What is thrown for a provenance that is not admissible. -/
def provenanceMessage : AssociationKind → String
  | .confirmed => "confirmed associations require high-confidence non-heuristic provenance"
  | .candidate => "candidate associations cannot be high confidence"

def normalizeProvenance (value : Option JsonValue) (kind : AssociationKind) :
    Except String Provenance := do
  let input ← plainObject value "invalid association provenance"
  let source ← oneOf ProvenanceSource.texts
    (JsonValue.memberOf input "source") "invalid association provenance"
  let confidence ← oneOf Confidence.texts (JsonValue.memberOf input "confidence")
    "invalid association provenance"
  require (admissibleProvenance kind ⟨source, confidence⟩) (provenanceMessage kind)
  return ⟨source, confidence⟩

/-- The worktree of a checkout. -/
def normalizeWorktree (value : Option JsonValue) : Except String String := do
  let input ← plainObject value "invalid worktree context"
  let id ← boundedString (JsonValue.memberOf input "id") "worktree id" maxWorktreeId
  require (safeWorktreeId id) "worktree id must be opaque, not a local path"
  return id

def normalizeCheckout (value : Option JsonValue) : Except String Checkout := do
  let input ← plainObject value "invalid checkout context"
  let branch ← whenDefined (JsonValue.memberOf input "branch") fun v =>
    boundedString v "branch" maxBranch
  let worktree ← whenDefined (JsonValue.memberOf input "worktree") normalizeWorktree
  require (branch.isSome || worktree.isSome) "empty checkout context"
  return ⟨branch, worktree⟩

def normalizePullRequest (value : Option JsonValue) (host : String) :
    Except String PullRequest := do
  let input ← plainObject value "invalid pull request coordinates"
  match positiveSafeInteger (JsonValue.memberOf input "number") with
  | none => .error "invalid pull request coordinates"
  | some number => do
    let webUrl ← whenDefined (JsonValue.memberOf input "webUrl") fun v => httpsUrl platform v host
    return ⟨number, webUrl⟩

def normalizeAssociation (value : Option JsonValue) : Except String Association := do
  let input ← plainObject value "invalid association kind"
  let kind ← oneOf AssociationKind.texts (JsonValue.memberOf input "kind")
    "invalid association kind"
  let repository ← normalizeRepository platform (JsonValue.memberOf input "repository")
  let provenance ← normalizeProvenance (JsonValue.memberOf input "provenance") kind
  let checkout ← whenDefined (JsonValue.memberOf input "checkout") normalizeCheckout
  match kind with
  | .candidate => do
    let reason ← oneOf CandidateReason.texts
      (JsonValue.memberOf input "reason") "invalid candidate reason"
    require (reason != .branchMatch || (checkout.bind Checkout.branch).isSome)
      "branch candidates require a branch"
    require (JsonValue.memberOf input "pullRequest").isNone
      "candidate associations cannot identify a pull request"
    return { kind := kind, repository, provenance, checkout, reason := some reason }
  | .confirmed => do
    let pullRequest ← whenDefined (JsonValue.memberOf input "pullRequest") fun v =>
      normalizePullRequest platform v repository.host
    return { kind := kind, repository, provenance, checkout, pullRequest }

/-! ### The context -/

/-- `JSON.stringify` of an association, which tells duplicates. -/
def Association.text (association : Association) : String := association.toJson.stringify

/-- `associationKey`. -/
def associationKey (association : Association) : String :=
  let repository := association.repository
  let coordinates :=
    match repository.coordinates with
    | .named owner name => "named:" ++ owner ++ "/" ++ name
    | .opaqueValue value => "opaque:" ++ value
  "\n".intercalate
    [repository.forge, repository.host, coordinates,
      if association.kind = .confirmed then "0" else "1",
      (association.checkout.bind Checkout.branch).getD "",
      (association.pullRequest.map fun pr => toString pr.number).getD "", association.text]

def compareAssociations (left right : Association) : Ordering :=
  compareTexts (associationKey left) (associationKey right)

/-- What the loop over the raw associations has found.  The set `seen` holds the texts of
    `normalized`. -/
structure CollectedAssociations where
  normalized : List Association := []
  rejectedCount : Nat := 0

/-- One turn of that loop. -/
def CollectedAssociations.add (found : CollectedAssociations) (item : JsonValue) :
    CollectedAssociations :=
  match normalizeAssociation platform (some item) with
  | .error _ => { found with rejectedCount := found.rejectedCount + 1 }
  | .ok association =>
    if association.text ∈ found.normalized.map Association.text then found
    else { found with normalized := found.normalized ++ [association] }

/-- The items of an array. -/
def arrayItems : Option JsonValue → Option (List JsonValue)
  | some (.array items) => some items
  | _ => none

/-- `value === flag`. -/
def isFlag (value : Option JsonValue) (flag : Bool) : Bool :=
  match value with
  | some (.bool b) => b == flag
  | _ => false

/-- The timestamp that a context keeps, and whether one is rejected. -/
def contextTimestamp (value : Option JsonValue) : Option String × Bool :=
  match whenDefined value (isoTimestamp platform) with
  | .ok observedAt => (observedAt, false)
  | .error _ => (none, true)

/-- The freshness that a context keeps, and whether one is rejected. -/
def contextFreshness (value : Option JsonValue) : Freshness × Bool :=
  match whenDefined value fun v => oneOf Freshness.texts v "" with
  | .ok freshness => (freshness.getD .current, false)
  | .error _ => (.current, true)

/-- A context whose state is `ready`. -/
def normalizeReady (input : List (String × JsonValue)) : RepositoryContext :=
  let items := arrayItems (JsonValue.memberOf input "associations")
  let source := items.getD []
  let found := (source.take maxRawRepositoryAssociations).foldl
    (CollectedAssociations.add platform) {}
  let associations :=
    (sortBy compareAssociations found.normalized).take maxRepositoryAssociations
  let overflowCount := (found.normalized.length - maxRepositoryAssociations) +
    (source.length - maxRawRepositoryAssociations)
  let observedAt := contextTimestamp platform (JsonValue.memberOf input "observedAt")
  let freshness := contextFreshness (JsonValue.memberOf input "freshness")
  let rejectedCount := items.isNone.toNat + found.rejectedCount + observedAt.2.toNat +
    freshness.2.toNat
  let complete := !isFlag (JsonValue.memberOf input "complete") false && rejectedCount == 0 &&
    overflowCount == 0
  let retryable := isFlag
    (JsonValue.optionGet? (JsonValue.memberOf input "error") "retryable") true
  .ready freshness.1 complete associations
    (if complete then none else some ⟨retryable, rejectedCount, overflowCount⟩) observedAt.1

/-- `normalizeRepositoryContext`; no value is `undefined`. -/
def normalizeRepositoryContext (value : Option JsonValue) : RepositoryContext :=
  match value with
  | none | some .null => .unsupported
  | some (.object input) =>
    match ContextState.texts.ofValue? (JsonValue.memberOf input "state") with
    | none => .ready .current false [] (some ⟨false, 1, 0⟩) none
    | some .unsupported => .unsupported
    | some .unavailable =>
      .unavailable (!isFlag (JsonValue.optionGet? (JsonValue.memberOf input "error") "retryable")
        false)
    | some .ready => normalizeReady platform input
  | some _ => .ready .current false [] (some ⟨false, 1, 0⟩) none

end AgentHost
