import AgentHost.Core.RepositoryAssociations

namespace AgentHost

/-!
# Normal forms of repository contexts

Normalizing what was normalized.

* `normalizeRepository_again`, `normalizePullRequest_again`, `normalizeAssociation_again` — a
  normalized part is normalized to itself, unless the serialization of a URL is too long.
* `foldl_add_eq` — the loop over the associations keeps the first of each text; on associations
  that are normalized and different it keeps all whose URLs fit (`foldl_add_again`).
* `RepositoryContext.Intact` — the values of which nothing is dropped or counted.
* `normalize_idempotent` — these are the values whose normal form is its own normal form.
-/

/-! ### Results of checks -/

section Checks

variable {α β : Type}

theorem bind_ok_iff {x : Except String α} {f : α → Except String β} {b : β} :
    (x >>= f) = .ok b ↔ ∃ a, x = .ok a ∧ f a = .ok b := by
  cases x with
  | error message => simp [bind, Except.bind]
  | ok a => simp [bind, Except.bind]

@[simp] theorem ok_bind (a : α) (f : α → Except String β) : (Except.ok a >>= f) = f a := rfl

@[simp] theorem error_bind (message : String) (f : α → Except String β) :
    ((Except.error message : Except String α) >>= f) = .error message := rfl

theorem require_bind_ok_iff {condition : Bool} {message : String} {f : Unit → Except String β}
    {b : β} : (require condition message >>= f) = .ok b ↔ condition = true ∧ f () = .ok b := by
  cases condition with
  | true => simp [require]
  | false => simp [require]

@[simp] theorem require_true (message : String) : require true message = .ok () := rfl

theorem plainObject_ok_iff {value : Option JsonValue} {message : String}
    {input : List (String × JsonValue)} :
    plainObject value message = .ok input ↔ value = some (.object input) := by
  unfold plainObject
  split <;> simp_all

@[simp] theorem plainObject_object (input : List (String × JsonValue)) (message : String) :
    plainObject (some (.object input)) message = .ok input := rfl

@[simp] theorem oneOf_text (texts : TextSet α) (a : α) (message : String) :
    oneOf texts (some (.string (texts.text a))) message = .ok a := by
  rw [oneOf, TextSet.ofValue?_text]

@[simp] theorem whenDefined_none (normalize : Option JsonValue → Except String α) :
    whenDefined none normalize = .ok none := rfl

@[simp] theorem whenDefined_some (value : JsonValue)
    (normalize : Option JsonValue → Except String α) :
    whenDefined (some value) normalize = some <$> normalize (some value) := rfl

/-- Normalizing the values of a member that are normal already. -/
theorem whenDefined_map {value : Option α} {f : α → JsonValue}
    {normalize : Option JsonValue → Except String α}
    (h : ∀ a, value = some a → normalize (some (f a)) = .ok a) :
    whenDefined (value.map f) normalize = .ok value := by
  cases value with
  | none => rfl
  | some a =>
    show some <$> normalize (some (f a)) = _
    rw [h a rfl]
    rfl

theorem whenDefined_ok {value : Option JsonValue}
    {normalize : Option JsonValue → Except String α} {result : Option α}
    (h : whenDefined value normalize = .ok result) (a : α) (ha : result = some a) :
    normalize value = .ok a := by
  subst ha
  unfold whenDefined at h
  split at h
  · cases h
  next v =>
  cases hv : normalize (some v) with
  | error message =>
    rw [hv] at h
    cases h
  | ok b =>
    rw [hv] at h
    cases h
    rfl

@[simp] theorem memberOf_optionalMember (name key : String) (encode : α → Json)
    (value : Option α) :
    JsonValue.memberOf (JsonValue.ofMembers (optionalMember name encode value)) key
      = if name = key then value.map (fun a => JsonValue.ofJson (encode a)) else none := by
  cases value with
  | none => simp [optionalMember, JsonValue.ofMembers]
  | some a => simp [optionalMember, JsonValue.ofMembers]

end Checks

theorem boundedString_ok_iff {value : Option JsonValue} {name text : String} {maxLength : Nat} :
    boundedString value name maxLength = .ok text ↔
      value = some (.string text) ∧ isBounded text maxLength = true := by
  unfold boundedString
  split
  · next read =>
    split
    · next hbounded =>
      simp only [Except.ok.injEq, Option.some.injEq, JsonValue.string.injEq]
      exact ⟨fun h => ⟨h, h ▸ hbounded⟩, And.left⟩
    · next hbounded =>
      simp only [Option.some.injEq, JsonValue.string.injEq]
      exact ⟨fun h => (by cases h), fun h => absurd (h.1 ▸ h.2) hbounded⟩
  · next hother => exact ⟨fun h => (by cases h), fun h => absurd h.1 (hother text)⟩

/-- A bounded text is a bounded text again. -/
@[simp] theorem boundedString_again {name text : String} {maxLength : Nat}
    (h : isBounded text maxLength = true) :
    boundedString (some (.string text)) name maxLength = .ok text :=
  boundedString_ok_iff.mpr ⟨rfl, h⟩

/-- Lowering keeps a text within its bound where the result is ASCII. -/
theorem isBounded_toLowerCase {text : String} {maxLength : Nat}
    (hascii : (toLowerCase text).toList.all isLowerAscii = true)
    (h : isBounded text maxLength = true) : isBounded (toLowerCase text) maxLength = true := by
  rw [isBounded, utf16Length_toLowerCase hascii]
  exact h

theorem safeForge_ascii {forge : String} (h : safeForge forge = true) :
    forge.toList.all isLowerAscii = true := by
  simp only [safeForge, Bool.and_eq_true, List.all_eq_true] at h
  exact List.all_eq_true.mpr fun c hc => (h.1 c hc).1

theorem safeHost_ascii {host : String} (h : safeHost host = true) :
    host.toList.all isLowerAscii = true := by
  simp only [safeHost, Bool.and_eq_true] at h
  exact h.1.1

/-! ### Parts of an association -/

/-- The serialization of a parsed URL parses to the same URL. -/
def WebPlatform.RoundTrips (platform : WebPlatform) : Prop :=
  ∀ text parsed, platform.parseUrl text = some parsed →
    platform.parseUrl parsed.href = some parsed

/-- What `httpsUrl` throws for a text that is too long. -/
def webUrlMessage : String := "webUrl must be a bounded non-empty string"

variable {platform : WebPlatform}

/-- A normalized URL is normal, unless its serialization is too long. -/
theorem httpsUrl_again (hround : platform.RoundTrips) {value : Option JsonValue}
    {host href : String} (h : httpsUrl platform value host = .ok href) :
    httpsUrl platform (some (.string href)) host
      = if isBounded href maxWebUrl then .ok href else .error webUrlMessage := by
  obtain ⟨text, -, h⟩ := bind_ok_iff.mp h
  split at h
  · cases h
  next parsed hparsed =>
  split at h
  · next hcanonical =>
    cases h
    by_cases hbounded : isBounded parsed.href maxWebUrl = true
    · rw [httpsUrl, boundedString_again hbounded, ok_bind, hround _ _ hparsed]
      simp only [hcanonical, hbounded, if_true]
    · rw [httpsUrl, boundedString, if_neg hbounded, if_neg hbounded]
      rfl
  · cases h

theorem normalizeCoordinates_again {value : Option JsonValue} {coordinates : Coordinates}
    (h : normalizeCoordinates value = .ok coordinates) :
    normalizeCoordinates (some (JsonValue.ofJson coordinates.toJson)) = .ok coordinates := by
  obtain ⟨input, -, h⟩ := bind_ok_iff.mp h
  obtain ⟨kind, -, h⟩ := bind_ok_iff.mp h
  cases kind with
  | named =>
    obtain ⟨owner, howner, h⟩ := bind_ok_iff.mp h
    obtain ⟨name, hname, h⟩ := bind_ok_iff.mp h
    obtain ⟨hsafe, h⟩ := require_bind_ok_iff.mp h
    cases h
    have hkind : oneOf CoordinateKind.texts (some (.string "named")) "invalid coordinate kind"
        = .ok .named := oneOf_text _ CoordinateKind.named _
    have howner := (boundedString_ok_iff.mp howner).2
    have hname := (boundedString_ok_iff.mp hname).2
    simp [normalizeCoordinates, Coordinates.toJson, hkind, hsafe, howner, hname, -bind_pure_comp]
    rfl
  | opaqueValue =>
    obtain ⟨text, htext, h⟩ := bind_ok_iff.mp h
    obtain ⟨hsafe, h⟩ := require_bind_ok_iff.mp h
    cases h
    have hkind : oneOf CoordinateKind.texts (some (.string "opaque")) "invalid coordinate kind"
        = .ok .opaqueValue := oneOf_text _ CoordinateKind.opaqueValue _
    have htext := (boundedString_ok_iff.mp htext).2
    simp [normalizeCoordinates, Coordinates.toJson, hkind, hsafe, htext, -bind_pure_comp]
    rfl

theorem normalizeRepository_again (hround : platform.RoundTrips) {value : Option JsonValue}
    {repository : Repository} (h : normalizeRepository platform value = .ok repository) :
    normalizeRepository platform (some (JsonValue.ofJson repository.toJson))
      = if isBounded repository.webUrl maxWebUrl then .ok repository
        else .error webUrlMessage := by
  obtain ⟨input, -, h⟩ := bind_ok_iff.mp h
  obtain ⟨forge, hforge, h⟩ := bind_ok_iff.mp h
  obtain ⟨hsafeForge, h⟩ := require_bind_ok_iff.mp h
  obtain ⟨host, hhost, h⟩ := bind_ok_iff.mp h
  obtain ⟨hsafeHost, h⟩ := require_bind_ok_iff.mp h
  obtain ⟨coordinates, hcoordinates, h⟩ := bind_ok_iff.mp h
  obtain ⟨webUrl, hwebUrl, h⟩ := bind_ok_iff.mp h
  obtain ⟨repositoryId, hrepositoryId, h⟩ := bind_ok_iff.mp h
  obtain ⟨visibility, hvisibility, h⟩ := bind_ok_iff.mp h
  cases h
  have hforgeBounded := isBounded_toLowerCase (safeForge_ascii hsafeForge)
    (boundedString_ok_iff.mp hforge).2
  have hhostBounded := isBounded_toLowerCase (safeHost_ascii hsafeHost)
    (boundedString_ok_iff.mp hhost).2
  have hforgeLower := toLowerCase_of_isLowerAscii (safeForge_ascii hsafeForge)
  have hhostLower := toLowerCase_of_isLowerAscii (safeHost_ascii hsafeHost)
  have hcoordinatesAgain := normalizeCoordinates_again hcoordinates
  have hwebUrlAgain := httpsUrl_again hround hwebUrl
  have hrepositoryIdAgain : whenDefined (repositoryId.map fun id => .string id)
      (fun v => boundedString v "repositoryId" maxRepositoryId) = .ok repositoryId :=
    whenDefined_map fun id hid =>
      boundedString_again (boundedString_ok_iff.mp (whenDefined_ok hrepositoryId id hid)).2
  have hvisibilityAgain : whenDefined (visibility.map fun v => .string v.text)
      (fun v => oneOf RepositoryVisibility.texts v "invalid repository visibility")
        = .ok visibility :=
    whenDefined_map fun v _ => oneOf_text _ v _
  simp [normalizeRepository, Repository.toJson, hforgeBounded, hhostBounded, hforgeLower, hhostLower,
    hsafeForge, hsafeHost, hcoordinatesAgain, hwebUrlAgain, hrepositoryIdAgain, hvisibilityAgain,
    -bind_pure_comp]
  split
  · rfl
  · rfl

theorem normalizeProvenance_again {value : Option JsonValue} {kind : AssociationKind}
    {provenance : Provenance} (h : normalizeProvenance value kind = .ok provenance) :
    normalizeProvenance (some (JsonValue.ofJson provenance.toJson)) kind = .ok provenance := by
  obtain ⟨input, -, h⟩ := bind_ok_iff.mp h
  obtain ⟨source, -, h⟩ := bind_ok_iff.mp h
  obtain ⟨confidence, -, h⟩ := bind_ok_iff.mp h
  obtain ⟨hadmissible, h⟩ := require_bind_ok_iff.mp h
  cases h
  have hsource : oneOf ProvenanceSource.texts (some (.string source.text))
      "invalid association provenance" = .ok source := oneOf_text _ source _
  have hconfidence : oneOf Confidence.texts (some (.string confidence.text))
      "invalid association provenance" = .ok confidence := oneOf_text _ confidence _
  simp [normalizeProvenance, Provenance.toJson, hsource, hconfidence, hadmissible, -bind_pure_comp]
  rfl

theorem normalizeWorktree_again {value : Option JsonValue} {id : String}
    (h : normalizeWorktree value = .ok id) :
    normalizeWorktree (some (.object [("id", .string id)])) = .ok id := by
  obtain ⟨input, -, h⟩ := bind_ok_iff.mp h
  obtain ⟨text, htext, h⟩ := bind_ok_iff.mp h
  obtain ⟨hsafe, h⟩ := require_bind_ok_iff.mp h
  cases h
  have htext := (boundedString_ok_iff.mp htext).2
  simp [normalizeWorktree, htext, hsafe, -bind_pure_comp]
  rfl

theorem normalizeCheckout_again {value : Option JsonValue} {checkout : Checkout}
    (h : normalizeCheckout value = .ok checkout) :
    normalizeCheckout (some (JsonValue.ofJson checkout.toJson)) = .ok checkout := by
  obtain ⟨input, -, h⟩ := bind_ok_iff.mp h
  obtain ⟨branch, hbranch, h⟩ := bind_ok_iff.mp h
  obtain ⟨worktree, hworktree, h⟩ := bind_ok_iff.mp h
  obtain ⟨hsome, h⟩ := require_bind_ok_iff.mp h
  cases h
  have hbranchAgain : whenDefined (branch.map fun b => .string b)
      (fun v => boundedString v "branch" maxBranch) = .ok branch :=
    whenDefined_map fun b hb =>
      boundedString_again (boundedString_ok_iff.mp (whenDefined_ok hbranch b hb)).2
  have hworktreeAgain : whenDefined (worktree.map fun id => .object [("id", .string id)])
      normalizeWorktree = .ok worktree :=
    whenDefined_map fun id hid => normalizeWorktree_again (whenDefined_ok hworktree id hid)
  simp [normalizeCheckout, Checkout.toJson, hbranchAgain, hworktreeAgain, hsome, -bind_pure_comp]
  rfl

/-- The serialization of the URL of a pull request fits. -/
def PullRequest.fits (pullRequest : PullRequest) : Bool :=
  pullRequest.webUrl.all fun url => isBounded url maxWebUrl

theorem positiveSafeInteger_again {value : Option JsonValue} {number : Nat}
    (h : positiveSafeInteger value = some number) :
    positiveSafeInteger (some (.number (some (number : ℚ)))) = some number := by
  unfold positiveSafeInteger at h
  split at h
  · next q =>
    split at h
    · next hq =>
      obtain rfl := Option.some.inj h
      have hcast : (q.num.toNat : ℚ).num = q.num := by
        rw [Rat.num_natCast, Int.toNat_of_nonneg (by omega)]
      have hden : (q.num.toNat : ℚ).den = 1 := Rat.den_natCast _
      show (if _ then _ else _) = _
      rw [hcast, hden, if_pos ⟨rfl, hq.2⟩]
    · cases h
  · cases h

theorem normalizePullRequest_again (hround : platform.RoundTrips) {value : Option JsonValue}
    {host : String} {pullRequest : PullRequest}
    (h : normalizePullRequest platform value host = .ok pullRequest) :
    normalizePullRequest platform (some (JsonValue.ofJson pullRequest.toJson)) host
      = if pullRequest.fits then .ok pullRequest else .error webUrlMessage := by
  obtain ⟨input, -, h⟩ := bind_ok_iff.mp h
  split at h
  · cases h
  next number hnumber =>
  obtain ⟨webUrl, hwebUrl, h⟩ := bind_ok_iff.mp h
  cases h
  have hnumberAgain := positiveSafeInteger_again hnumber
  cases webUrl with
  | none =>
    simp [normalizePullRequest, PullRequest.toJson, optionalMember, hnumberAgain, PullRequest.fits,
      -bind_pure_comp]
    rfl
  | some url =>
    have hurl := httpsUrl_again hround (whenDefined_ok hwebUrl url rfl)
    by_cases hfits : isBounded url maxWebUrl = true
    · simp [normalizePullRequest, PullRequest.toJson, optionalMember, hnumberAgain,
        PullRequest.fits, hurl, hfits, -bind_pure_comp]
      rfl
    · simp [normalizePullRequest, PullRequest.toJson, optionalMember, hnumberAgain,
        PullRequest.fits, hurl, hfits, -bind_pure_comp]

/-- The serializations of the URLs of an association fit. -/
def Association.fits (association : Association) : Bool :=
  isBounded association.repository.webUrl maxWebUrl &&
    association.pullRequest.all PullRequest.fits

/-- **A normalized association is normal**, unless the serialization of a URL is too long. -/
theorem normalizeAssociation_again (hround : platform.RoundTrips) {value : Option JsonValue}
    {association : Association} (h : normalizeAssociation platform value = .ok association) :
    normalizeAssociation platform (some (JsonValue.ofJson association.toJson))
      = if association.fits then .ok association else .error webUrlMessage := by
  obtain ⟨input, -, h⟩ := bind_ok_iff.mp h
  obtain ⟨kind, -, h⟩ := bind_ok_iff.mp h
  obtain ⟨repository, hrepository, h⟩ := bind_ok_iff.mp h
  obtain ⟨provenance, hprovenance, h⟩ := bind_ok_iff.mp h
  obtain ⟨checkout, hcheckout, h⟩ := bind_ok_iff.mp h
  have hkind : oneOf AssociationKind.texts (some (.string kind.text)) "invalid association kind"
      = .ok kind := oneOf_text _ kind _
  have hrepositoryAgain := normalizeRepository_again hround hrepository
  have hprovenanceAgain := normalizeProvenance_again hprovenance
  have hcheckoutAgain : whenDefined (checkout.map fun c => JsonValue.ofJson c.toJson)
      normalizeCheckout = .ok checkout :=
    whenDefined_map fun c hc => normalizeCheckout_again (whenDefined_ok hcheckout c hc)
  cases kind with
  | candidate =>
    obtain ⟨reason, -, h⟩ := bind_ok_iff.mp h
    obtain ⟨hbranch, h⟩ := require_bind_ok_iff.mp h
    obtain ⟨-, h⟩ := require_bind_ok_iff.mp h
    cases h
    have hreason : oneOf CandidateReason.texts (some (.string reason.text))
        "invalid candidate reason" = .ok reason := oneOf_text _ reason _
    by_cases hfits : isBounded repository.webUrl maxWebUrl = true
    · simp [normalizeAssociation, Association.toJson, Association.fits, hkind, hrepositoryAgain,
        hprovenanceAgain, hcheckoutAgain, hreason, hbranch, hfits, -bind_pure_comp]
      rfl
    · simp [normalizeAssociation, Association.toJson, Association.fits, hkind, hrepositoryAgain,
        hfits, -bind_pure_comp]
  | confirmed =>
    obtain ⟨pullRequest, hpullRequest, h⟩ := bind_ok_iff.mp h
    cases h
    by_cases hfits : isBounded repository.webUrl maxWebUrl = true
    · cases pullRequest with
      | none =>
        simp [normalizeAssociation, Association.toJson, Association.fits, hkind, hrepositoryAgain,
          hprovenanceAgain, hcheckoutAgain, hfits, -bind_pure_comp]
        rfl
      | some pullRequest =>
        have hagain := normalizePullRequest_again hround
          (whenDefined_ok hpullRequest pullRequest rfl)
        by_cases hpr : pullRequest.fits = true
        · simp [normalizeAssociation, Association.toJson, Association.fits, hkind,
            hrepositoryAgain, hprovenanceAgain, hcheckoutAgain, hfits, hagain, hpr,
            -bind_pure_comp]
          rfl
        · simp [normalizeAssociation, Association.toJson, Association.fits, hkind,
            hrepositoryAgain, hprovenanceAgain, hcheckoutAgain, hfits, hagain, hpr,
            -bind_pure_comp]
    · simp [normalizeAssociation, Association.toJson, Association.fits, hkind, hrepositoryAgain,
        hfits, -bind_pure_comp]

/-! ### The loop over the associations -/

/-- The first association of each text. -/
def firstOfEachText (associations : List Association) : List Association :=
  associations.foldl (fun kept association =>
    if association.text ∈ kept.map Association.text then kept else kept ++ [association]) []

/-- The associations that the loop accepts. -/
def acceptedAssociations (platform : WebPlatform) (items : List JsonValue) : List Association :=
  items.filterMap fun item => (normalizeAssociation platform (some item)).toOption

/-- An item that the loop rejects. -/
def isRejected (platform : WebPlatform) (item : JsonValue) : Bool :=
  !(normalizeAssociation platform (some item)).isOk

/-- **The loop** keeps the first accepted association of each text and counts what it rejects. -/
theorem foldl_add_eq (items : List JsonValue) :
    items.foldl (CollectedAssociations.add platform) {}
      = ⟨firstOfEachText (acceptedAssociations platform items),
        items.countP (isRejected platform)⟩ := by
  have hloop : ∀ (items : List JsonValue) (found : CollectedAssociations),
      items.foldl (CollectedAssociations.add platform) found
        = ⟨(acceptedAssociations platform items).foldl (fun kept association =>
            if association.text ∈ kept.map Association.text then kept
            else kept ++ [association]) found.normalized,
          found.rejectedCount + items.countP (isRejected platform)⟩ := by
    intro items
    induction items with
    | nil => intro found; rfl
    | cons item items ih =>
      intro found
      rw [List.foldl_cons, ih]
      cases hitem : normalizeAssociation platform (some item) with
      | error message =>
        have hrejected : isRejected platform item = true := by rw [isRejected, hitem]; rfl
        simp [CollectedAssociations.add, acceptedAssociations, hitem, hrejected, Except.toOption]
        omega
      | ok association =>
        have haccepted : isRejected platform item = false := by rw [isRejected, hitem]; rfl
        simp only [CollectedAssociations.add, acceptedAssociations, hitem, List.filterMap_cons,
          Except.toOption, List.foldl_cons, List.countP_cons, haccepted]
        split
        · rfl
        · rfl
  rw [hloop items {}, Nat.zero_add]
  rfl

theorem firstOfEachText_of_nodup {associations : List Association}
    (h : (associations.map Association.text).Nodup) :
    firstOfEachText associations = associations := by
  have hloop : ∀ (associations kept : List Association),
      ((kept ++ associations).map Association.text).Nodup →
      associations.foldl (fun kept association =>
        if association.text ∈ kept.map Association.text then kept else kept ++ [association]) kept
        = kept ++ associations := by
    intro associations
    induction associations with
    | nil => intro kept _; exact (List.append_nil kept).symm
    | cons association associations ih =>
      intro kept hnodup
      have hnew : association.text ∉ kept.map Association.text := by
        rw [List.map_append, List.map_cons, List.nodup_append] at hnodup
        exact fun hmem => hnodup.2.2 _ hmem _ List.mem_cons_self rfl
      rw [List.foldl_cons, if_neg hnew, ih, List.append_assoc]
      · rfl
      · rwa [List.append_assoc]
  exact hloop associations [] h

/-- What the loop keeps is accepted, and every text once. -/
theorem firstOfEachText_spec (associations : List Association) :
    firstOfEachText associations ⊆ associations ∧
      ((firstOfEachText associations).map Association.text).Nodup := by
  have hloop : ∀ (rest kept : List Association), kept ⊆ associations → rest ⊆ associations →
      (kept.map Association.text).Nodup →
      let result := rest.foldl (fun kept association =>
        if association.text ∈ kept.map Association.text then kept else kept ++ [association]) kept
      result ⊆ associations ∧ (result.map Association.text).Nodup := by
    intro rest
    induction rest with
    | nil => exact fun kept hkept _ hnodup => ⟨hkept, hnodup⟩
    | cons association rest ih =>
      intro kept hkept hrest hnodup
      have htail := List.Subset.trans (List.subset_cons_self association rest) hrest
      rw [List.foldl_cons]
      split
      · exact ih kept hkept htail hnodup
      · next hnew =>
        refine ih _ (List.append_subset.mpr ⟨hkept, ?_⟩) htail ?_
        · intro a ha
          obtain rfl := List.mem_singleton.mp ha
          exact hrest List.mem_cons_self
        · rw [List.map_append, List.nodup_append]
          refine ⟨hnodup, List.nodup_singleton _, fun a ha b hb => ?_⟩
          rintro rfl
          obtain rfl := List.mem_singleton.mp hb
          exact hnew ha
  exact hloop associations [] (List.nil_subset _) (List.Subset.refl _) List.nodup_nil

theorem exists_of_mem_accepted {items : List JsonValue} {association : Association}
    (h : association ∈ acceptedAssociations platform items) :
    ∃ value, normalizeAssociation platform value = .ok association := by
  obtain ⟨item, -, hitem⟩ := List.mem_filterMap.mp h
  cases hresult : normalizeAssociation platform (some item) with
  | error message =>
    rw [hresult] at hitem
    cases hitem
  | ok a =>
    rw [hresult] at hitem
    cases hitem
    exact ⟨some item, hresult⟩

/-- On normalized associations the loop accepts those whose URLs fit. -/
theorem acceptedAssociations_again (hround : platform.RoundTrips) {associations : List Association}
    (h : ∀ a ∈ associations, ∃ value, normalizeAssociation platform value = .ok a) :
    acceptedAssociations platform (associations.map fun a => JsonValue.ofJson a.toJson)
        = associations.filter Association.fits ∧
      (associations.map fun a => JsonValue.ofJson a.toJson).countP (isRejected platform)
        = associations.countP fun a => !a.fits := by
  induction associations with
  | nil => exact ⟨rfl, rfl⟩
  | cons association associations ih =>
    obtain ⟨value, hvalue⟩ := h association List.mem_cons_self
    obtain ⟨hfilter, hcount⟩ := ih fun a ha => h a (List.mem_cons_of_mem _ ha)
    have hagain := normalizeAssociation_again hround hvalue
    simp only [acceptedAssociations] at hfilter ⊢
    rw [List.map_cons, List.filterMap_cons, List.countP_cons, List.countP_cons, hcount, hfilter,
      hagain, isRejected, hagain, List.filter_cons]
    by_cases hfits : association.fits = true
    · rw [if_pos hfits, if_pos hfits, hfits]
      exact ⟨rfl, rfl⟩
    · have hunfit : association.fits = false := by simpa using hfits
      rw [if_neg hfits, if_neg hfits, hunfit]
      exact ⟨rfl, rfl⟩

instance : Std.TransCmp compareAssociations where
  eq_swap := (inferInstance : Std.TransCmp compareTexts).eq_swap
  isLE_trans := (inferInstance : Std.TransCmp compareTexts).isLE_trans

/-! ### Contexts -/

/-- The parts of a normalized ready context. -/
structure NormalParts (platform : WebPlatform) (associations : List Association)
    (observedAt : Option String) : Prop where
  normalized : ∀ a ∈ associations, ∃ value, normalizeAssociation platform value = .ok a
  length_le : associations.length ≤ maxRepositoryAssociations
  nodup : (associations.map Association.text).Nodup
  sorted : associations.Pairwise fun a b => (compareAssociations a b).isLE
  observed : ∀ text, observedAt = some text → ∃ value, isoTimestamp platform value = .ok text

theorem isoTimestamp_again {value : Option JsonValue} {text : String}
    (h : isoTimestamp platform value = .ok text) :
    isoTimestamp platform (some (.string text)) = .ok text := by
  obtain ⟨read, hread, hrest⟩ := bind_ok_iff.mp h
  have hsame : read = text := by
    split at hrest
    · cases hrest
    · split at hrest
      · exact Except.ok.inj hrest
      · cases hrest
  subst hsame
  rw [isoTimestamp, boundedString_again (boundedString_ok_iff.mp hread).2, ok_bind]
  exact hrest

theorem contextTimestamp_again {observedAt : Option String}
    (h : ∀ text, observedAt = some text → ∃ value, isoTimestamp platform value = .ok text) :
    contextTimestamp platform (observedAt.map fun text => .string text) = (observedAt, false) := by
  have hdefined : whenDefined (observedAt.map fun text => .string text) (isoTimestamp platform)
      = .ok observedAt := whenDefined_map fun text htext => by
    obtain ⟨value, hvalue⟩ := h text htext
    exact isoTimestamp_again hvalue
  rw [contextTimestamp, hdefined]

theorem contextFreshness_again (freshness : Freshness) :
    contextFreshness (some (.string freshness.text)) = (freshness, false) := by
  have honeOf : oneOf Freshness.texts (some (.string freshness.text)) "" = .ok freshness :=
    oneOf_text _ freshness _
  rw [contextFreshness, whenDefined_some, honeOf]
  rfl

/-- A normalized ready context, normalized again: the associations whose URLs do not fit are
    dropped, and only they are counted. -/
theorem normalize_ready_again (hround : platform.RoundTrips) {freshness : Freshness}
    {complete : Bool} {associations : List Association} {error : Option PartialError}
    {observedAt : Option String} (h : NormalParts platform associations observedAt) :
    normalizeRepositoryContext platform (some (JsonValue.ofJson
        (RepositoryContext.ready freshness complete associations error observedAt).toJson))
      = .ready freshness (complete && associations.countP (fun a => !a.fits) == 0)
        (associations.filter Association.fits)
        (if complete && associations.countP (fun a => !a.fits) == 0 then none
          else some ⟨error.any PartialError.retryable, associations.countP (fun a => !a.fits), 0⟩)
        observedAt := by
  obtain ⟨haccepted, hrejected⟩ := acceptedAssociations_again hround h.normalized
  have hfitted := (List.filter_sublist (p := Association.fits) (l := associations))
  have hlength := hfitted.length_le
  have hmax := h.length_le
  -- the loop keeps the associations that fit, in order
  have hfound : ((associations.map fun a => JsonValue.ofJson a.toJson).take
      maxRawRepositoryAssociations).foldl (CollectedAssociations.add platform) {}
        = ⟨associations.filter Association.fits, associations.countP fun a => !a.fits⟩ := by
    rw [List.take_of_length_le, foldl_add_eq, haccepted, hrejected, firstOfEachText_of_nodup]
    · exact h.nodup.sublist (hfitted.map _)
    · rw [List.length_map]
      exact le_trans hmax (by decide)
  have hsorted : sortBy compareAssociations (associations.filter Association.fits)
      = associations.filter Association.fits :=
    (h.sorted.sublist hfitted).insertionSort_eq
  have hretryable : isFlag (JsonValue.optionGet?
      (error.map fun e => JsonValue.ofJson e.toJson) "retryable") true
        = error.any PartialError.retryable := by
    cases error with
    | none => rfl
    | some error => simp [JsonValue.optionGet?, PartialError.toJson, isFlag]
  have hoverflow : (associations.filter Association.fits).length - maxRepositoryAssociations +
      ((associations.map fun a => JsonValue.ofJson a.toJson).length
        - maxRawRepositoryAssociations) = 0 := by
    rw [List.length_map]
    simp only [maxRepositoryAssociations, maxRawRepositoryAssociations] at hmax ⊢
    omega
  -- the members of the context that is normalized again
  obtain ⟨input, hinput, hstate, hitems, hobserved, hfreshness, hcomplete, herror⟩ :
      ∃ input, JsonValue.ofJson
          (RepositoryContext.ready freshness complete associations error observedAt).toJson
            = .object input ∧
        JsonValue.memberOf input "state" = some (.string "ready") ∧
        JsonValue.memberOf input "associations"
          = some (.array (associations.map fun a => JsonValue.ofJson a.toJson)) ∧
        JsonValue.memberOf input "observedAt" = observedAt.map (fun text => .string text) ∧
        JsonValue.memberOf input "freshness" = some (.string freshness.text) ∧
        JsonValue.memberOf input "complete" = some (.bool complete) ∧
        JsonValue.memberOf input "error" = error.map fun e => JsonValue.ofJson e.toJson := by
    refine ⟨_, rfl, ?_⟩
    simp [JsonValue.ofItems_eq, Function.comp_def]
  have hflag : isFlag (some (.bool complete)) false = !complete := by cases complete <;> rfl
  have hready : ContextState.texts.ofValue? (some (.string "ready")) = some .ready :=
    ContextState.texts.ofValue?_text .ready
  rw [hinput]
  simp only [normalizeRepositoryContext, hstate, hready]
  simp only [normalizeReady, hitems, arrayItems, hobserved, contextTimestamp_again h.observed,
    hfreshness, contextFreshness_again, hcomplete, hflag, herror, hretryable, Option.getD_some,
    hfound, hsorted, hoverflow]
  rw [List.take_of_length_le (le_trans hlength hmax)]
  cases complete <;> simp

/-- Nothing of a ready context is dropped or counted: the associations are an array of at most 200
    valid ones, at most 100 of them different, whose URLs still fit when serialized, and the
    timestamp and the freshness are valid where there are some. -/
structure IntactReady (platform : WebPlatform) (input : List (String × JsonValue)) : Prop where
  associations : ∃ items, JsonValue.memberOf input "associations" = some (.array items) ∧
    items.length ≤ maxRawRepositoryAssociations ∧
    (∀ item ∈ items, (normalizeAssociation platform (some item)).isOk = true) ∧
    (firstOfEachText (acceptedAssociations platform items)).length ≤ maxRepositoryAssociations ∧
    ∀ a ∈ firstOfEachText (acceptedAssociations platform items), a.fits = true
  observedAt : (whenDefined (JsonValue.memberOf input "observedAt")
    (isoTimestamp platform)).isOk = true
  freshness : JsonValue.memberOf input "freshness" = none ∨
    ∃ freshness : Freshness, JsonValue.memberOf input "freshness" = some (.string freshness.text)

/-- The values of which nothing is dropped or counted: no context, one that is not ready, or an
    intact ready one. -/
def RepositoryContext.Intact (platform : WebPlatform) (value : Option JsonValue) : Prop :=
  value = none ∨ value = some .null ∨ ∃ input, value = some (.object input) ∧
    ∃ state : ContextState, JsonValue.memberOf input "state" = some (.string state.text) ∧
      (state = .ready → IntactReady platform input)

theorem arrayItems_eq_some {value : Option JsonValue} {items : List JsonValue} :
    arrayItems value = some items ↔ value = some (.array items) := by
  unfold arrayItems
  split
  · simp
  · next hother => exact ⟨fun h => (by cases h), fun h => absurd h (hother items)⟩

theorem contextTimestamp_eq_false {value : Option JsonValue} :
    (contextTimestamp platform value).2 = false
      ↔ (whenDefined value (isoTimestamp platform)).isOk = true := by
  unfold contextTimestamp
  cases whenDefined value (isoTimestamp platform) with
  | ok observedAt => exact iff_of_true rfl rfl
  | error message => exact iff_of_false (by simp) (by simp [Except.isOk, Except.toBool])

theorem contextFreshness_eq_false {value : Option JsonValue} :
    (contextFreshness value).2 = false
      ↔ value = none ∨ ∃ freshness : Freshness, value = some (.string freshness.text) := by
  constructor
  · intro h
    cases value with
    | none => exact .inl rfl
    | some v =>
      right
      rw [contextFreshness, whenDefined_some, oneOf] at h
      cases hread : Freshness.texts.ofValue? (some v) with
      | none =>
        rw [hread] at h
        cases h
      | some freshness => exact ⟨freshness, TextSet.eq_of_ofValue? hread⟩
  · rintro (rfl | ⟨freshness, rfl⟩)
    · rfl
    · rw [contextFreshness_again]

theorem countP_isRejected_eq_zero {items : List JsonValue} :
    items.countP (isRejected platform) = 0
      ↔ ∀ item ∈ items, (normalizeAssociation platform (some item)).isOk = true := by
  simp [List.countP_eq_zero, isRejected]

/-- The parts of a context that `normalizeReady` returns, and when it drops or counts something. -/
theorem normalizeReady_spec (platform : WebPlatform) (input : List (String × JsonValue)) :
    ∃ freshness complete associations rejectedCount overflowCount observedAt retryable,
      normalizeReady platform input = .ready freshness complete associations
        (if complete then none else some ⟨retryable, rejectedCount, overflowCount⟩) observedAt ∧
      NormalParts platform associations observedAt ∧
      (complete = true → rejectedCount = 0 ∧ overflowCount = 0) ∧
      (rejectedCount = 0 ∧ overflowCount = 0 ∧ (∀ a ∈ associations, a.fits = true) ↔
        IntactReady platform input) := by
  refine ⟨_, _, _, _, _, _, _, rfl, ?_, fun hcomplete => ?_, ?_⟩
  · rw [foldl_add_eq]
    obtain ⟨hsubset, hnodup⟩ := firstOfEachText_spec (acceptedAssociations platform
      (((arrayItems (JsonValue.memberOf input "associations")).getD []).take
        maxRawRepositoryAssociations))
    refine ⟨fun a ha => ?_, List.length_take_le _ _, ?_, ?_, fun text htext => ?_⟩
    · exact exists_of_mem_accepted (hsubset (mem_sortBy.mp (List.mem_of_mem_take ha)))
    · refine List.Nodup.sublist ((List.take_sublist _ _).map _) ?_
      exact ((perm_sortBy _ _).map _).nodup_iff.mpr hnodup
    · exact (pairwise_sortBy _ _).sublist (List.take_sublist _ _)
    · rw [contextTimestamp] at htext
      split at htext
      · next observedAt hobserved => exact ⟨_, whenDefined_ok hobserved text htext⟩
      · cases htext
  · simp only [Bool.and_eq_true, beq_iff_eq] at hcomplete
    exact ⟨hcomplete.1.2, hcomplete.2⟩
  · rw [foldl_add_eq]
    constructor
    · rintro ⟨hrejected, hoverflow, hfits⟩
      have hsome : (arrayItems (JsonValue.memberOf input "associations")).isNone.toNat = 0 := by
        omega
      have hobserved : (contextTimestamp platform (JsonValue.memberOf input "observedAt")).2.toNat
          = 0 := by omega
      have hfreshness : (contextFreshness (JsonValue.memberOf input "freshness")).2.toNat = 0 := by
        omega
      refine ⟨?_, contextTimestamp_eq_false.mp (by simpa using hobserved),
        contextFreshness_eq_false.mp (by simpa using hfreshness)⟩
      cases hitems : arrayItems (JsonValue.memberOf input "associations") with
      | none =>
        rw [hitems] at hsome
        cases hsome
      | some items =>
        rw [hitems, Option.getD_some] at hrejected hoverflow hfits
        have hraw : items.length ≤ maxRawRepositoryAssociations := by omega
        rw [List.take_of_length_le hraw] at hrejected hoverflow hfits
        have hkept : (firstOfEachText (acceptedAssociations platform items)).length
            ≤ maxRepositoryAssociations := by
          dsimp only at hoverflow
          omega
        have haccepted : items.countP (isRejected platform) = 0 := by
          dsimp only at hrejected
          omega
        refine ⟨items, arrayItems_eq_some.mp hitems, hraw,
          countP_isRejected_eq_zero.mp haccepted, hkept, fun a ha => hfits a ?_⟩
        rw [List.take_of_length_le]
        · exact mem_sortBy.mpr ha
        · rw [(perm_sortBy _ _).length_eq]
          exact hkept
    · rintro ⟨⟨items, hitems, hraw, haccepted, hkept, hfits⟩, hobserved, hfreshness⟩
      rw [arrayItems_eq_some.mpr hitems, Option.getD_some, List.take_of_length_le hraw,
        countP_isRejected_eq_zero.mpr haccepted, contextTimestamp_eq_false.mpr hobserved,
        contextFreshness_eq_false.mpr hfreshness]
      refine ⟨rfl, ?_, fun a ha => hfits a (mem_sortBy.mp (List.mem_of_mem_take ha))⟩
      dsimp only
      omega

/-- A ready context is its own normal form exactly where it is intact. -/
theorem normalizeReady_idempotent (hround : platform.RoundTrips)
    (input : List (String × JsonValue)) :
    normalizeRepositoryContext platform
        (some (JsonValue.ofJson (normalizeReady platform input).toJson))
      = normalizeReady platform input ↔ IntactReady platform input := by
  obtain ⟨freshness, complete, associations, rejectedCount, overflowCount, observedAt, retryable,
    hready, hparts, hcomplete, hintact⟩ := normalizeReady_spec platform input
  rw [← hintact, hready, normalize_ready_again hround hparts]
  have hfits : associations.countP (fun a => !a.fits) = 0 ↔ ∀ a ∈ associations, a.fits = true := by
    simp [List.countP_eq_zero]
  constructor
  · intro h
    injection h with _ _ hassociations herror _
    have hall : ∀ a ∈ associations, a.fits = true := by
      rw [← hassociations]
      exact fun a ha => (List.mem_filter.mp ha).2
    rw [hfits.mpr hall] at herror
    cases complete with
    | true => exact ⟨(hcomplete rfl).1, (hcomplete rfl).2, hall⟩
    | false =>
      -- the counts of the second pass are zero
      simp only [Bool.false_and, Bool.false_eq_true, if_false, Option.some.injEq,
        PartialError.mk.injEq] at herror
      exact ⟨herror.2.1.symm, herror.2.2.symm, hall⟩
  · rintro ⟨rfl, rfl, hall⟩
    rw [hfits.mpr hall, List.filter_eq_self.mpr hall]
    cases complete <;> rfl

/-- The context of a value that is none loses the one rejection it counts. -/
theorem partialContext_changes (hround : platform.RoundTrips) :
    normalizeRepositoryContext platform (some (JsonValue.ofJson
        (RepositoryContext.ready .current false [] (some ⟨false, 1, 0⟩) none).toJson))
      ≠ .ready .current false [] (some ⟨false, 1, 0⟩) none := by
  rw [normalize_ready_again hround
    ⟨fun _ h => absurd h List.not_mem_nil, Nat.zero_le _, List.nodup_nil, .nil,
      fun _ h => absurd h (Option.some_ne_none _).symm⟩]
  decide

theorem normalize_unavailable (retryable : Bool) :
    normalizeRepositoryContext platform
        (some (JsonValue.ofJson (RepositoryContext.unavailable retryable).toJson))
      = .unavailable retryable := by cases retryable <;> rfl

/-- **Main**: normalizing the normal form of a value changes nothing exactly where nothing of the
    value was dropped or counted. -/
theorem normalize_idempotent (hround : platform.RoundTrips) (value : Option JsonValue) :
    normalizeRepositoryContext platform
        (some (JsonValue.ofJson (normalizeRepositoryContext platform value).toJson))
      = normalizeRepositoryContext platform value ↔ RepositoryContext.Intact platform value := by
  have hpartial := partialContext_changes hround
  unfold RepositoryContext.Intact
  match value with
  | none => exact iff_of_true rfl (.inl rfl)
  | some .null => exact iff_of_true rfl (.inr (.inl rfl))
  | some (.bool _) | some (.number _) | some (.string _) | some (.array _) =>
    refine iff_of_false hpartial ?_
    rintro (h | h | ⟨_, h, -⟩) <;> cases h
  | some (.object input) =>
    cases hstate : ContextState.texts.ofValue? (JsonValue.memberOf input "state") with
    | none =>
      simp only [normalizeRepositoryContext, hstate]
      refine iff_of_false hpartial ?_
      rintro (h | h | ⟨_, h, state, hmember, -⟩)
      · cases h
      · cases h
      · cases h
        have hread : ContextState.texts.ofValue? (some (.string state.text)) = some state :=
          ContextState.texts.ofValue?_text state
        rw [hmember, hread] at hstate
        cases hstate
    | some state =>
      have hmember := TextSet.eq_of_ofValue? hstate
      have hvalue : normalizeRepositoryContext platform (some (.object input))
          = match state with
            | .ready => normalizeReady platform input
            | .unsupported => .unsupported
            | .unavailable => .unavailable (!isFlag
              (JsonValue.optionGet? (JsonValue.memberOf input "error") "retryable") false) := by
        simp only [normalizeRepositoryContext, hstate]
        cases state <;> rfl
      rw [hvalue]
      cases state with
      | ready =>
        rw [normalizeReady_idempotent hround]
        constructor
        · exact fun h => .inr (.inr ⟨input, rfl, .ready, hmember, fun _ => h⟩)
        · rintro (h | h | ⟨_, h, state, hother, hintact⟩)
          · cases h
          · cases h
          · cases h
            have hsame : some (JsonValue.string state.text) = some (.string "ready") :=
              hother.symm.trans hmember
            refine hintact ?_
            cases state with
            | ready => rfl
            | unsupported | unavailable => exact absurd hsame (by simp [ContextState.text])
      | unsupported =>
        refine iff_of_true rfl (.inr (.inr ⟨input, rfl, .unsupported, hmember, fun h => ?_⟩))
        cases h
      | unavailable =>
        refine iff_of_true (normalize_unavailable _)
          (.inr (.inr ⟨input, rfl, .unavailable, hmember, fun h => ?_⟩))
        cases h

/-- A platform that knows one URL. -/
def samplePlatform : WebPlatform where
  parseUrl := fun text =>
    if text = "https://forge.example/acme/app" then
      some ⟨"https:", "forge.example", "", "", "", "", "https://forge.example/acme/app"⟩
    else none
  parseDate := fun _ => none

theorem samplePlatform_roundTrips : samplePlatform.RoundTrips := by
  intro text parsed h
  simp only [samplePlatform] at h ⊢
  split at h
  · cases h
    rfl
  · cases h

/-- One confirmed association. -/
def sampleAssociation : JsonValue :=
  .object [("kind", .string "confirmed"),
    ("repository", .object [("forge", .string "GitHub"), ("host", .string "Forge.Example"),
      ("coordinates", .object [("kind", .string "named"), ("owner", .string "acme"),
        ("name", .string "app")]),
      ("webUrl", .string "https://forge.example/acme/app")]),
    ("provenance", .object [("source", .string "user-declared"), ("confidence", .string "high")])]

/-- A ready context of these associations. -/
def sampleContext (associations : List JsonValue) : JsonValue :=
  .object [("state", .string "ready"), ("associations", .array associations)]

theorem normalize_idempotent_sample :
    RepositoryContext.Intact samplePlatform (some (sampleContext [sampleAssociation])) :=
  (normalize_idempotent samplePlatform_roundTrips _).mp (by decide +kernel)

/-- A rejected association is counted once, and no more when the context is normalized again. -/
theorem normalize_forgets_rejection : samplePlatform.RoundTrips ∧
    normalizeRepositoryContext samplePlatform (some (JsonValue.ofJson
        (normalizeRepositoryContext samplePlatform (some (sampleContext [.null]))).toJson))
      ≠ normalizeRepositoryContext samplePlatform (some (sampleContext [.null])) :=
  ⟨samplePlatform_roundTrips, by decide +kernel⟩

end AgentHost
