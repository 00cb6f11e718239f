import AgentHost.Core.RepositoryNormalForms

namespace AgentHost

/-!
# What a normalized repository context guarantees

* `WebPlatform.SafeUrl` — an HTTPS URL on a host, without credentials, query or fragment.
* `Association.Valid` — what holds of every association that is accepted (`valid_of_normalize`).
* `RepositoryContext.Valid` — and of every context that is returned.
* `SameEvidence` — inputs that differ only in what is rejected.
* `normalized_output` — **Main**: every output is valid, and nothing of what is rejected is in it.
-/

variable {platform : WebPlatform}

/-! ### Valid associations -/

/-- A text is the serialization of an HTTPS URL on the host, without credentials, query or
    fragment. -/
def WebPlatform.SafeUrl (platform : WebPlatform) (host url : String) : Prop :=
  ∃ parsed, platform.parseUrl url = some parsed ∧ parsed.href = url ∧ parsed.protocol = "https:" ∧
    toLowerCase parsed.hostname = host ∧ parsed.username = "" ∧ parsed.password = "" ∧
    parsed.search = "" ∧ parsed.hash = ""

/-- No segment is empty, `.` or `..`. -/
def SafeSegments (text : String) : Prop :=
  ∀ segment ∈ text.toList.splitOn '/', segment ≠ [] ∧ segment ≠ ['.'] ∧ segment ≠ ['.', '.']

/-- Coordinates without an empty or relative segment; a name is one segment. -/
def Coordinates.Valid : Coordinates → Prop
  | .named owner name => SafeSegments owner ∧ SafeSegments name ∧ '/' ∉ name.toList
  | .opaqueValue value => SafeSegments value

/-- What holds of an association that is accepted. -/
structure Association.Valid (platform : WebPlatform) (association : Association) : Prop where
  coordinates : association.repository.coordinates.Valid
  repositoryUrl : platform.SafeUrl association.repository.host association.repository.webUrl
  confirmed : association.kind = .confirmed →
    association.provenance.confidence = .high ∧
      association.provenance.source ≠ .adapterHeuristic ∧ association.reason = none
  candidate : association.kind = .candidate →
    (association.provenance.confidence = .low ∨ association.provenance.confidence = .medium) ∧
      association.pullRequest = none ∧ ∃ reason, association.reason = some reason ∧
        (reason = .branchMatch → ∃ checkout branch, association.checkout = some checkout ∧
          checkout.branch = some branch ∧ branch ≠ "")
  pullRequest : ∀ pullRequest, association.pullRequest = some pullRequest →
    1 ≤ pullRequest.number ∧ pullRequest.number ≤ 9007199254740991 ∧
      ∀ url, pullRequest.webUrl = some url → platform.SafeUrl association.repository.host url

theorem safeUrl_of_httpsUrl (hround : platform.RoundTrips) {value : Option JsonValue}
    {host url : String} (h : httpsUrl platform value host = .ok url) :
    platform.SafeUrl host url := by
  obtain ⟨text, -, hrest⟩ := bind_ok_iff.mp h
  split at hrest
  · cases hrest
  · next parsed hparsed =>
    split at hrest
    · next hcanonical =>
      obtain rfl := Except.ok.inj hrest
      simp only [canonicalUrl, Bool.and_eq_true, beq_iff_eq] at hcanonical
      obtain ⟨⟨⟨⟨⟨hprotocol, hhost⟩, husername⟩, hpassword⟩, hsearch⟩, hhash⟩ := hcanonical
      exact ⟨parsed, hround text parsed hparsed, rfl, hprotocol, hhost, husername, hpassword, hsearch,
        hhash⟩
    · cases hrest

theorem safeSegments_of_safeCoordinate {value : String} {allowSlash : Bool}
    (h : safeCoordinate value allowSlash = true) :
    SafeSegments value ∧ (allowSlash = false → '/' ∉ value.toList) := by
  simp only [safeCoordinate, Bool.and_eq_true, List.all_eq_true] at h
  obtain ⟨⟨-, hslash⟩, hsegments⟩ := h
  refine ⟨fun segment hsegment => ?_, fun hallow => ?_⟩
  · have hsafe := hsegments segment hsegment
    simp only [Bool.not_eq_true', bne_iff_ne, ne_eq] at hsafe
    obtain ⟨⟨hempty, hdot⟩, hdots⟩ := hsafe
    refine ⟨?_, hdot, hdots⟩
    rintro rfl
    cases hempty
  · rw [hallow] at hslash
    simpa using hslash

theorem valid_of_normalizeCoordinates {value : Option JsonValue} {coordinates : Coordinates}
    (h : normalizeCoordinates value = .ok coordinates) : coordinates.Valid := by
  obtain ⟨input, -, h⟩ := bind_ok_iff.mp h
  obtain ⟨kind, -, h⟩ := bind_ok_iff.mp h
  cases kind with
  | named =>
    obtain ⟨owner, -, h⟩ := bind_ok_iff.mp h
    obtain ⟨name, -, h⟩ := bind_ok_iff.mp h
    obtain ⟨hsafe, h⟩ := require_bind_ok_iff.mp h
    cases h
    rw [Bool.and_eq_true] at hsafe
    obtain ⟨hname, hslash⟩ := safeSegments_of_safeCoordinate hsafe.2
    exact ⟨(safeSegments_of_safeCoordinate hsafe.1).1, hname, hslash rfl⟩
  | opaqueValue =>
    obtain ⟨text, -, h⟩ := bind_ok_iff.mp h
    obtain ⟨hsafe, h⟩ := require_bind_ok_iff.mp h
    cases h
    exact (safeSegments_of_safeCoordinate hsafe).1

theorem valid_of_normalizeRepository (hround : platform.RoundTrips) {value : Option JsonValue}
    {repository : Repository} (h : normalizeRepository platform value = .ok repository) :
    repository.coordinates.Valid ∧ platform.SafeUrl repository.host repository.webUrl := by
  obtain ⟨input, -, h⟩ := bind_ok_iff.mp h
  obtain ⟨forge, -, h⟩ := bind_ok_iff.mp h
  obtain ⟨-, h⟩ := require_bind_ok_iff.mp h
  obtain ⟨host, -, h⟩ := bind_ok_iff.mp h
  obtain ⟨-, h⟩ := require_bind_ok_iff.mp h
  obtain ⟨coordinates, hcoordinates, h⟩ := bind_ok_iff.mp h
  obtain ⟨webUrl, hwebUrl, h⟩ := bind_ok_iff.mp h
  obtain ⟨repositoryId, -, h⟩ := bind_ok_iff.mp h
  obtain ⟨visibility, -, h⟩ := bind_ok_iff.mp h
  cases h
  exact ⟨valid_of_normalizeCoordinates hcoordinates, safeUrl_of_httpsUrl hround hwebUrl⟩

theorem admissible_of_normalizeProvenance {value : Option JsonValue} {kind : AssociationKind}
    {provenance : Provenance} (h : normalizeProvenance value kind = .ok provenance) :
    admissibleProvenance kind provenance = true := by
  obtain ⟨input, -, h⟩ := bind_ok_iff.mp h
  obtain ⟨source, -, h⟩ := bind_ok_iff.mp h
  obtain ⟨confidence, -, h⟩ := bind_ok_iff.mp h
  obtain ⟨hadmissible, h⟩ := require_bind_ok_iff.mp h
  cases h
  exact hadmissible

/-- The branch of a checkout is not empty. -/
theorem branch_of_normalizeCheckout {value : Option JsonValue} {checkout : Checkout}
    (h : normalizeCheckout value = .ok checkout) {branch : String}
    (hbranch : checkout.branch = some branch) : branch ≠ "" := by
  obtain ⟨input, -, h⟩ := bind_ok_iff.mp h
  obtain ⟨read, hread, h⟩ := bind_ok_iff.mp h
  obtain ⟨worktree, -, h⟩ := bind_ok_iff.mp h
  obtain ⟨-, h⟩ := require_bind_ok_iff.mp h
  cases h
  have hbounded := (boundedString_ok_iff.mp (whenDefined_ok hread branch hbranch)).2
  rintro rfl
  simp [isBounded, utf16Length] at hbounded

/-- The number of a pull request is positive, and a double holds it exactly. -/
theorem number_of_normalizePullRequest {value : Option JsonValue} {host : String}
    {pullRequest : PullRequest} (h : normalizePullRequest platform value host = .ok pullRequest) :
    1 ≤ pullRequest.number ∧ pullRequest.number ≤ 9007199254740991 := by
  obtain ⟨input, -, h⟩ := bind_ok_iff.mp h
  split at h
  · cases h
  next number hnumber =>
  obtain ⟨webUrl, -, h⟩ := bind_ok_iff.mp h
  cases h
  show 1 ≤ number ∧ number ≤ 9007199254740991
  unfold positiveSafeInteger at hnumber
  split at hnumber
  · split at hnumber
    · obtain rfl := Option.some.inj hnumber
      omega
    · cases hnumber
  · cases hnumber

theorem safeUrl_of_normalizePullRequest (hround : platform.RoundTrips) {value : Option JsonValue}
    {host : String} {pullRequest : PullRequest}
    (h : normalizePullRequest platform value host = .ok pullRequest) {url : String}
    (hurl : pullRequest.webUrl = some url) : platform.SafeUrl host url := by
  obtain ⟨input, -, h⟩ := bind_ok_iff.mp h
  split at h
  · cases h
  obtain ⟨webUrl, hwebUrl, h⟩ := bind_ok_iff.mp h
  cases h
  exact safeUrl_of_httpsUrl hround (whenDefined_ok hwebUrl url hurl)

/-- **Every accepted association is valid.** -/
theorem valid_of_normalize (hround : platform.RoundTrips) {value : Option JsonValue}
    {association : Association} (h : normalizeAssociation platform value = .ok association) :
    association.Valid platform := by
  obtain ⟨input, -, h⟩ := bind_ok_iff.mp h
  obtain ⟨kind, -, h⟩ := bind_ok_iff.mp h
  obtain ⟨repository, hrepository, h⟩ := bind_ok_iff.mp h
  obtain ⟨provenance, hprovenance, h⟩ := bind_ok_iff.mp h
  obtain ⟨checkout, hcheckout, h⟩ := bind_ok_iff.mp h
  obtain ⟨hcoordinates, hurl⟩ := valid_of_normalizeRepository hround hrepository
  have hadmissible := admissible_of_normalizeProvenance hprovenance
  cases kind with
  | candidate =>
    obtain ⟨reason, -, h⟩ := bind_ok_iff.mp h
    obtain ⟨hbranch, h⟩ := require_bind_ok_iff.mp h
    obtain ⟨-, h⟩ := require_bind_ok_iff.mp h
    cases h
    refine ⟨hcoordinates, hurl, nofun, fun _ => ⟨?_, rfl, reason, rfl, ?_⟩, nofun⟩
    · cases hconfidence : provenance.confidence with
      | low => exact .inl rfl
      | medium => exact .inr rfl
      | high => simp [admissibleProvenance, hconfidence] at hadmissible
    · rintro rfl
      obtain ⟨branch, hbranch⟩ : ∃ branch, checkout.bind Checkout.branch = some branch :=
        Option.isSome_iff_exists.mp (by simpa using hbranch)
      obtain ⟨found, hfound, hbranch⟩ := Option.bind_eq_some_iff.mp hbranch
      exact ⟨found, branch, hfound, hbranch,
        branch_of_normalizeCheckout (whenDefined_ok hcheckout found hfound) hbranch⟩
  | confirmed =>
    obtain ⟨pullRequest, hpullRequest, h⟩ := bind_ok_iff.mp h
    cases h
    simp only [admissibleProvenance, Bool.and_eq_true, bne_iff_ne, beq_iff_eq] at hadmissible
    refine ⟨hcoordinates, hurl, fun _ => ⟨hadmissible.2, hadmissible.1, rfl⟩, nofun,
      fun found hfound => ?_⟩
    have hread := whenDefined_ok hpullRequest found hfound
    obtain ⟨hpositive, hsafe⟩ := number_of_normalizePullRequest hread
    exact ⟨hpositive, hsafe, fun url hurl => safeUrl_of_normalizePullRequest hround hread hurl⟩

/-! ### Valid contexts -/

/-- What holds of every context that is returned. -/
def RepositoryContext.Valid (platform : WebPlatform) : RepositoryContext → Prop
  | .ready _ complete associations error _ =>
    associations.length ≤ maxRepositoryAssociations ∧
      associations.Pairwise (· ≠ ·) ∧
      associations.Pairwise (fun a b => (compareAssociations a b).isLE = true) ∧
      (∀ association ∈ associations, association.Valid platform) ∧
      (complete = true ↔ error = none)
  | _ => True

theorem valid_of_normalParts (hround : platform.RoundTrips) {freshness : Freshness}
    {complete : Bool} {associations : List Association} {error : PartialError}
    {observedAt : Option String} (h : NormalParts platform associations observedAt) :
    (RepositoryContext.ready freshness complete associations
      (if complete then none else some error) observedAt).Valid platform := by
  refine ⟨h.length_le, ?_, h.sorted, fun association hmem => ?_, ?_⟩
  · exact h.nodup.of_map _
  · obtain ⟨value, hvalue⟩ := h.normalized association hmem
    exact valid_of_normalize hround hvalue
  · cases complete
    · exact ⟨nofun, nofun⟩
    · exact ⟨fun _ => rfl, fun _ => rfl⟩

/-- **Every output is valid.** -/
theorem valid_normalizeRepositoryContext (hround : platform.RoundTrips) (value : Option JsonValue) :
    (normalizeRepositoryContext platform value).Valid platform := by
  have hpartial : (RepositoryContext.ready .current false [] (some ⟨false, 1, 0⟩) none).Valid
      platform := ⟨Nat.zero_le _, .nil, .nil, fun _ h => absurd h List.not_mem_nil, nofun, nofun⟩
  cases value with
  | none => trivial
  | some v =>
    cases v with
    | null => trivial
    | bool | number | string | array => exact hpartial
    | object input =>
      rw [normalizeRepositoryContext]
      split
      · exact hpartial
      · trivial
      · trivial
      · obtain ⟨_, _, _, _, _, _, _, hready, hparts, -⟩ := normalizeReady_spec platform input
        rw [hready]
        exact valid_of_normalParts hround hparts

/-! ### What is rejected -/

/-- Two items that are the same, or both rejected. -/
def SameItem (platform : WebPlatform) (left right : JsonValue) : Prop :=
  left = right ∨ isRejected platform left = true ∧ isRejected platform right = true

/-- Two members that are the same, or both rejected. -/
def SameMember {α : Type} (check : Option JsonValue → Except String α)
    (left right : Option JsonValue) : Prop :=
  left = right ∨ (whenDefined left check).isOk = false ∧ (whenDefined right check).isOk = false

/-- Contexts that differ only in what is rejected, the details of an error, and members that no
    context has. -/
structure SameEvidence (platform : WebPlatform) (left right : List (String × JsonValue)) : Prop where
  state : ContextState.texts.ofValue? (JsonValue.memberOf left "state") =
    ContextState.texts.ofValue? (JsonValue.memberOf right "state")
  complete : isFlag (JsonValue.memberOf left "complete") false =
    isFlag (JsonValue.memberOf right "complete") false
  retryable : ∀ flag, isFlag (JsonValue.optionGet? (JsonValue.memberOf left "error") "retryable") flag =
    isFlag (JsonValue.optionGet? (JsonValue.memberOf right "error") "retryable") flag
  associations : (arrayItems (JsonValue.memberOf left "associations") = none ∧
      arrayItems (JsonValue.memberOf right "associations") = none) ∨
    ∃ items items', arrayItems (JsonValue.memberOf left "associations") = some items ∧
      arrayItems (JsonValue.memberOf right "associations") = some items' ∧
      List.Forall₂ (SameItem platform) items items'
  observedAt : SameMember (isoTimestamp platform) (JsonValue.memberOf left "observedAt")
    (JsonValue.memberOf right "observedAt")
  freshness : SameMember (fun v => oneOf Freshness.texts v "") (JsonValue.memberOf left "freshness")
    (JsonValue.memberOf right "freshness")

theorem foldl_add_congr {items items' : List JsonValue}
    (h : List.Forall₂ (SameItem platform) items items') (found : CollectedAssociations) :
    items.foldl (CollectedAssociations.add platform) found =
      items'.foldl (CollectedAssociations.add platform) found := by
  have hadd : ∀ {item : JsonValue} {found : CollectedAssociations}, isRejected platform item = true →
      found.add platform item = { found with rejectedCount := found.rejectedCount + 1 } := by
    intro item found hitem
    unfold CollectedAssociations.add
    cases hresult : normalizeAssociation platform (some item) with
    | error => rfl
    | ok => simp [isRejected, hresult, Except.isOk, Except.toBool] at hitem
  induction h generalizing found with
  | nil => rfl
  | cons hitem _ ih =>
    rw [List.foldl_cons, List.foldl_cons]
    rcases hitem with rfl | ⟨hleft, hright⟩
    · exact ih _
    · rw [hadd hleft, hadd hright]
      exact ih _

theorem contextTimestamp_congr {left right : Option JsonValue}
    (h : SameMember (isoTimestamp platform) left right) :
    contextTimestamp platform left = contextTimestamp platform right := by
  have hrejected : ∀ {value : Option JsonValue},
      (whenDefined value (isoTimestamp platform)).isOk = false →
      contextTimestamp platform value = (none, true) := by
    intro value hvalue
    unfold contextTimestamp
    cases hresult : whenDefined value (isoTimestamp platform) with
    | error => rfl
    | ok => rw [hresult] at hvalue; cases hvalue
  rcases h with rfl | ⟨hleft, hright⟩
  · rfl
  · rw [hrejected hleft, hrejected hright]

theorem contextFreshness_congr {left right : Option JsonValue}
    (h : SameMember (fun v => oneOf Freshness.texts v "") left right) :
    contextFreshness left = contextFreshness right := by
  have hrejected : ∀ {value : Option JsonValue},
      (whenDefined value fun v => oneOf Freshness.texts v "").isOk = false →
      contextFreshness value = (.current, true) := by
    intro value hvalue
    unfold contextFreshness
    cases hresult : whenDefined value fun v => oneOf Freshness.texts v "" with
    | error => rfl
    | ok => rw [hresult] at hvalue; cases hvalue
  rcases h with rfl | ⟨hleft, hright⟩
  · rfl
  · rw [hrejected hleft, hrejected hright]

/-- Ready contexts that differ only in what is rejected have the same normal form. -/
theorem normalizeReady_congr {left right : List (String × JsonValue)}
    (h : SameEvidence platform left right) :
    normalizeReady platform left = normalizeReady platform right := by
  unfold normalizeReady
  rw [h.complete, h.retryable, contextTimestamp_congr h.observedAt,
    contextFreshness_congr h.freshness]
  rcases h.associations with ⟨hleft, hright⟩ | ⟨items, items', hleft, hright, hitems⟩
  · rw [hleft, hright]
  · rw [hleft, hright]
    simp only [Option.getD_some, Option.isNone_some]
    rw [foldl_add_congr (List.forall₂_take _ hitems), hitems.length_eq]

/-- **Nothing of what is rejected is in the output.** -/
theorem normalizeRepositoryContext_congr {left right : List (String × JsonValue)}
    (h : SameEvidence platform left right) :
    normalizeRepositoryContext platform (some (.object left)) =
      normalizeRepositoryContext platform (some (.object right)) := by
  rw [normalizeRepositoryContext, normalizeRepositoryContext, h.state]
  split
  · rfl
  · rfl
  · rw [h.retryable]
  · exact normalizeReady_congr h

/-- **Main.** Every normalized context is valid: at most 100 associations, different and sorted, each
    of them valid, and complete exactly where it has no error.  Inputs that differ only in what is
    rejected have the same normal form. -/
theorem normalized_output (platform : WebPlatform) (hround : platform.RoundTrips) :
    (∀ value, (normalizeRepositoryContext platform value).Valid platform) ∧
    ∀ left right, SameEvidence platform left right →
      normalizeRepositoryContext platform (some (.object left)) =
        normalizeRepositoryContext platform (some (.object right)) :=
  ⟨valid_normalizeRepositoryContext hround, fun _ _ h => normalizeRepositoryContext_congr h⟩

theorem normalized_output_sample :
    (∀ value, (normalizeRepositoryContext samplePlatform value).Valid samplePlatform) ∧
    ∀ left right, SameEvidence samplePlatform left right →
      normalizeRepositoryContext samplePlatform (some (.object left)) =
        normalizeRepositoryContext samplePlatform (some (.object right)) :=
  normalized_output samplePlatform samplePlatform_roundTrips

end AgentHost
