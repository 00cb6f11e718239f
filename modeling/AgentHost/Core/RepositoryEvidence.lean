import AgentHost.Core.RepositoryOutput
import AgentHost.Lib.JsonParse

namespace AgentHost

/-!
# The order of the evidence

The associations of a context are told apart by their JSON texts and sorted by a key that ends with
the text.

* `Association.text_injective` — different normalized associations have different texts.
* `associationKey_injective` — and different texts have different keys, as a JSON text holds no line
  feed.
* `normalize_perm` — **Main**: so a context does not depend on the order of its evidence.
-/

variable {platform : WebPlatform}

/-! ### Texts of associations -/

section Texts

/-- An optional member and the members behind it are read off their list. -/
theorem optionalMember_append_inj {β : Type} {name : String} {encode : β → Json}
    (hencode : Function.Injective encode) {x y : Option β} {rest rest' : List (String × Json)}
    (hrest : name ∉ rest.map Prod.fst) (hrest' : name ∉ rest'.map Prod.fst)
    (h : optionalMember name encode x ++ rest = optionalMember name encode y ++ rest') :
    x = y ∧ rest = rest' := by
  cases x with
  | none =>
    cases y with
    | none => exact ⟨rfl, h⟩
    | some b =>
      have h : rest = (name, encode b) :: rest' := h
      rw [h] at hrest
      exact absurd List.mem_cons_self hrest
  | some a =>
    cases y with
    | none =>
      have h : (name, encode a) :: rest = rest' := h
      rw [← h] at hrest'
      exact absurd List.mem_cons_self hrest'
    | some b =>
      obtain ⟨hhead, htail⟩ := List.cons.inj h
      exact ⟨congrArg some (hencode (Prod.mk.inj hhead).2), htail⟩

/-- The last optional member is read off its list. -/
theorem optionalMember_injective {β : Type} (name : String) {encode : β → Json}
    (hencode : Function.Injective encode) : Function.Injective (optionalMember name encode) := by
  intro x y h
  have happend := congrArg (· ++ ([] : List (String × Json))) h
  exact (optionalMember_append_inj hencode List.not_mem_nil List.not_mem_nil happend).1

theorem str_text_injective {α : Type} (texts : TextSet α) :
    Function.Injective fun a => Json.str (texts.text a) :=
  fun _ _ h => texts.text_injective (Json.str.inj h)

theorem Coordinates.toJson_injective : Function.Injective Coordinates.toJson := by
  intro a b h
  cases a <;> cases b <;> simp_all [toJson]

theorem Repository.toJson_injective : Function.Injective Repository.toJson := by
  intro a b h
  have hmembers := Json.obj.inj h
  simp only [List.cons_append, List.nil_append, List.cons.injEq, Prod.mk.injEq, true_and,
    Json.str.injEq] at hmembers
  obtain ⟨hforge, hhost, hcoordinates, hwebUrl, hrest⟩ := hmembers
  obtain ⟨hid, hvisibility⟩ := optionalMember_append_inj (fun _ _ => Json.str.inj)
    (by cases a.visibility <;> simp [optionalMember])
    (by cases b.visibility <;> simp [optionalMember]) hrest
  have hvisibility : a.visibility = b.visibility :=
    optionalMember_injective "visibility" (str_text_injective RepositoryVisibility.texts) hvisibility
  cases a
  cases b
  simp only [mk.injEq]
  exact ⟨hforge, hhost, Coordinates.toJson_injective hcoordinates, hwebUrl, hid, hvisibility⟩

theorem Provenance.toJson_injective : Function.Injective Provenance.toJson := by
  intro a b h
  have hmembers := Json.obj.inj h
  simp only [List.cons.injEq, Prod.mk.injEq, true_and, Json.str.injEq, and_true] at hmembers
  cases a
  cases b
  simp only [mk.injEq]
  exact ⟨ProvenanceSource.texts.text_injective hmembers.1,
    Confidence.texts.text_injective hmembers.2⟩

theorem Checkout.toJson_injective : Function.Injective Checkout.toJson := by
  intro a b h
  have hworktree : Function.Injective fun id => Json.obj [("id", .str id)] := by
    intro id id' hid
    simpa using hid
  obtain ⟨hbranch, hrest⟩ := optionalMember_append_inj (fun _ _ => Json.str.inj)
    (by cases a.worktree <;> simp [optionalMember])
    (by cases b.worktree <;> simp [optionalMember]) (Json.obj.inj h)
  have hworktree := optionalMember_injective "worktree" hworktree hrest
  cases a
  cases b
  simp only [mk.injEq]
  exact ⟨hbranch, hworktree⟩

theorem PullRequest.toJson_injective : Function.Injective PullRequest.toJson := by
  intro a b h
  obtain ⟨hnumber, hrest⟩ := List.cons.inj (Json.obj.inj h)
  have hwebUrl := optionalMember_injective "webUrl" (fun _ _ => Json.str.inj) hrest
  cases a
  cases b
  simp only [mk.injEq]
  exact ⟨Int.ofNat.inj (Json.num.inj (Prod.mk.inj hnumber).2), hwebUrl⟩

theorem Association.toJson_injective : Function.Injective Association.toJson := by
  intro a b h
  have hmembers := Json.obj.inj h
  simp only [List.append_assoc, List.cons_append, List.nil_append, List.cons.injEq, Prod.mk.injEq,
    true_and, Json.str.injEq] at hmembers
  obtain ⟨hkind, hrepository, hprovenance, hrest⟩ := hmembers
  obtain ⟨hcheckout, hrest⟩ := optionalMember_append_inj Checkout.toJson_injective
    (by cases a.reason <;> cases a.pullRequest <;> simp [optionalMember])
    (by cases b.reason <;> cases b.pullRequest <;> simp [optionalMember]) hrest
  obtain ⟨hreason, hrest⟩ := optionalMember_append_inj (str_text_injective CandidateReason.texts)
    (by cases a.pullRequest <;> simp [optionalMember])
    (by cases b.pullRequest <;> simp [optionalMember]) hrest
  have hpullRequest := optionalMember_injective "pullRequest" PullRequest.toJson_injective hrest
  cases a
  cases b
  simp only [mk.injEq]
  exact ⟨AssociationKind.texts.text_injective hkind, Repository.toJson_injective hrepository,
    Provenance.toJson_injective hprovenance, hcheckout, hreason, hpullRequest⟩

/-! ### Texts that are read back -/

theorem wellFormedMembers_append (ms ms' : List (String × Json)) :
    Json.wellFormedMembers (ms ++ ms') =
      (Json.wellFormedMembers ms && Json.wellFormedMembers ms') := by
  induction ms with
  | nil => rfl
  | cons m ms ih => rw [List.cons_append, Json.wellFormedMembers, Json.wellFormedMembers, ih,
      Bool.and_assoc]

theorem wellFormedMembers_optionalMember {β : Type} {name : String} {encode : β → Json}
    {value : Option β} (h : ∀ b, value = some b → (encode b).wellFormed = true) :
    Json.wellFormedMembers (optionalMember name encode value) = true := by
  cases value with
  | none => rfl
  | some b =>
    rw [optionalMember, Json.wellFormedMembers, h b rfl]
    rfl

theorem wellFormed_checkout (checkout : Checkout) : checkout.toJson.wellFormed = true := by
  obtain ⟨branch, worktree⟩ := checkout
  cases branch <;> cases worktree <;> rfl

theorem wellFormed_repository (repository : Repository) : repository.toJson.wellFormed = true := by
  obtain ⟨forge, host, coordinates, webUrl, repositoryId, visibility⟩ := repository
  cases coordinates <;> cases repositoryId <;> cases visibility <;> rfl

theorem wellFormed_pullRequest {pullRequest : PullRequest}
    (h : pullRequest.number ≤ Doubles.maxSafeInteger) : pullRequest.toJson.wellFormed = true := by
  obtain ⟨number, webUrl⟩ := pullRequest
  cases webUrl <;>
    simpa [PullRequest.toJson, optionalMember, Json.wellFormed, Json.wellFormedMembers] using h

/-- A normalized association has a text that is read back. -/
theorem wellFormed_association {value : Option JsonValue} {association : Association}
    (h : normalizeAssociation platform value = .ok association) :
    association.toJson.wellFormed = true := by
  have hpullRequest : ∀ pullRequest, association.pullRequest = some pullRequest →
      pullRequest.toJson.wellFormed = true := by
    intro pullRequest hfound
    obtain ⟨input, -, h⟩ := bind_ok_iff.mp h
    obtain ⟨kind, -, h⟩ := bind_ok_iff.mp h
    obtain ⟨repository, -, h⟩ := bind_ok_iff.mp h
    obtain ⟨provenance, -, h⟩ := bind_ok_iff.mp h
    obtain ⟨checkout, -, h⟩ := bind_ok_iff.mp h
    cases kind with
    | candidate =>
      obtain ⟨reason, -, h⟩ := bind_ok_iff.mp h
      obtain ⟨-, h⟩ := require_bind_ok_iff.mp h
      obtain ⟨-, h⟩ := require_bind_ok_iff.mp h
      cases h
      cases hfound
    | confirmed =>
      obtain ⟨read, hread, h⟩ := bind_ok_iff.mp h
      cases h
      exact wellFormed_pullRequest
        (number_of_normalizePullRequest (whenDefined_ok hread pullRequest hfound)).2
  obtain ⟨kind, repository, provenance, checkout, reason, pullRequest⟩ := association
  have hrepository := wellFormed_repository repository
  have hmembers : Json.wellFormedMembers (optionalMember "checkout" Checkout.toJson checkout) = true ∧
      Json.wellFormedMembers (optionalMember "reason" (fun r => .str r.text) reason) = true ∧
      Json.wellFormedMembers (optionalMember "pullRequest" PullRequest.toJson pullRequest) = true :=
    ⟨wellFormedMembers_optionalMember fun c _ => wellFormed_checkout c,
      wellFormedMembers_optionalMember fun _ _ => rfl,
      wellFormedMembers_optionalMember fun p hp => hpullRequest p hp⟩
  rw [Association.toJson, Json.wellFormed, wellFormedMembers_append, wellFormedMembers_append,
    wellFormedMembers_append, hmembers.1, hmembers.2.1, hmembers.2.2]
  simp only [Json.wellFormedMembers, hrepository, Json.wellFormed, Provenance.toJson,
    List.map_append, List.map_cons, List.map_nil, Bool.and_true, Bool.and_eq_true,
    decide_eq_true_eq, Bool.true_and]
  constructor
  · cases checkout <;> cases reason <;> cases pullRequest <;> simp [optionalMember]
  · decide

/-- **Different normalized associations have different texts.** -/
theorem Association.text_injective {value value' : Option JsonValue} {a b : Association}
    (ha : normalizeAssociation platform value = .ok a)
    (hb : normalizeAssociation platform value' = .ok b) (h : a.text = b.text) : a = b :=
  Association.toJson_injective
    (Json.stringify_injective (wellFormed_association ha) (wellFormed_association hb) h)

end Texts

/-! ### Keys -/

section Keys

/-- A text without a line feed at the end of others is read off their list. -/
theorem lastLine_injective {start start' text text' : List Char} (htext : '\n' ∉ text)
    (htext' : '\n' ∉ text') (h : start ++ '\n' :: text = start' ++ '\n' :: text') :
    text = text' := by
  have hlast : ∀ {start text : List Char}, '\n' ∉ text →
      (start ++ '\n' :: text).reverse.takeWhile (· ≠ '\n') = text.reverse := by
    intro start text htext
    rw [List.reverse_append, List.reverse_cons, List.append_assoc, List.takeWhile_append_of_pos]
    · simp
    · intro c hc
      rw [List.mem_reverse] at hc
      rw [decide_eq_true_eq]
      rintro rfl
      exact htext hc
  have hreverse : (start ++ '\n' :: text).reverse.takeWhile (· ≠ '\n') = text.reverse := hlast htext
  rw [h, hlast htext'] at hreverse
  exact List.reverse_injective hreverse.symm

theorem exists_lines {lines : List String} (h : lines ≠ []) (text : String) : ∃ start,
    ("\n".intercalate (lines ++ [text])).toList = start ++ '\n' :: text.toList := by
  rw [String.intercalate_append_of_ne_nil h (List.cons_ne_nil _ _), String.intercalate_singleton]
  exact ⟨("\n".intercalate lines).toList, by simp⟩

/-- A key ends with the text of the association, on a line of its own. -/
theorem associationKey_lines (association : Association) : ∃ start,
    (associationKey association).toList = start ++ '\n' :: association.text.toList := by
  have hlines : ∀ a b c d e f text : String, ∃ start,
      ("\n".intercalate [a, b, c, d, e, f, text]).toList = start ++ '\n' :: text.toList :=
    fun a b c d e f text => exists_lines (List.cons_ne_nil a [b, c, d, e, f]) text
  unfold associationKey
  exact hlines _ _ _ _ _ _ _

/-- Associations with the same key have the same text. -/
theorem text_eq_of_compareAssociations {a b : Association}
    (h : compareAssociations a b = .eq) : a.text = b.text := by
  have hline : ∀ association : Association, '\n' ∉ association.text.toList := by
    intro association hmem
    have hprintable := Json.printable_stringify association.toJson '\n' hmem
    revert hprintable
    decide
  obtain ⟨start, ha⟩ := associationKey_lines a
  obtain ⟨start', hb⟩ := associationKey_lines b
  have hkeys := congrArg String.toList (compareTexts_eq_iff.mp h)
  rw [ha, hb] at hkeys
  exact String.toList_inj.mp (lastLine_injective (hline a) (hline b) hkeys)

end Keys

/-! ### The order of the associations -/

/-- What the loop keeps has the text of everything that is accepted. -/
theorem text_mem_firstOfEachText {associations : List Association} {a : Association}
    (h : a ∈ associations) : a.text ∈ (firstOfEachText associations).map Association.text := by
  have hloop : ∀ (rest kept : List Association) (text : String),
      text ∈ kept.map Association.text ∨ text ∈ rest.map Association.text →
      text ∈ (rest.foldl (fun kept association =>
        if association.text ∈ kept.map Association.text then kept
        else kept ++ [association]) kept).map Association.text := by
    intro rest
    induction rest with
    | nil => exact fun kept text hmem => hmem.resolve_right List.not_mem_nil
    | cons association rest ih =>
      intro kept text hmem
      rw [List.foldl_cons]
      refine ih _ text ?_
      rw [List.map_cons, List.mem_cons] at hmem
      split
      · next hseen =>
        rcases hmem with hmem | rfl | hmem
        · exact .inl hmem
        · exact .inl hseen
        · exact .inr hmem
      · rw [List.map_append, List.mem_append, List.map_singleton, List.mem_singleton]
        rcases hmem with hmem | rfl | hmem
        · exact .inl (.inl hmem)
        · exact .inl (.inr rfl)
        · exact .inr hmem
  exact hloop associations [] a.text (.inr (List.mem_map_of_mem h))

/-- What the loop keeps does not depend on the order of the items, but for its own order. -/
theorem firstOfEachText_perm {items items' : List JsonValue} (h : items.Perm items') :
    (firstOfEachText (acceptedAssociations platform items)).Perm
      (firstOfEachText (acceptedAssociations platform items')) := by
  have hinjective : ∀ {items : List JsonValue} {a b : Association},
      a ∈ acceptedAssociations platform items → b ∈ acceptedAssociations platform items →
      a.text = b.text → a = b := by
    intro items a b ha hb htext
    obtain ⟨value, hvalue⟩ := exists_of_mem_accepted ha
    obtain ⟨value', hvalue'⟩ := exists_of_mem_accepted hb
    exact Association.text_injective hvalue hvalue' htext
  -- everything that is accepted is kept
  have hmem : ∀ (items : List JsonValue) (a : Association),
      a ∈ firstOfEachText (acceptedAssociations platform items) ↔
        a ∈ acceptedAssociations platform items := by
    intro items a
    obtain ⟨hsubset, -⟩ := firstOfEachText_spec (acceptedAssociations platform items)
    refine ⟨fun ha => hsubset ha, fun ha => ?_⟩
    obtain ⟨b, hb, htext⟩ := List.mem_map.mp (text_mem_firstOfEachText ha)
    rwa [hinjective ha (hsubset hb) htext.symm]
  have hnodup : ∀ items : List JsonValue,
      (firstOfEachText (acceptedAssociations platform items)).Nodup := fun items =>
    (firstOfEachText_spec _).2.of_map _
  rw [List.perm_ext_iff_of_nodup (hnodup items) (hnodup items')]
  intro a
  rw [hmem, hmem]
  exact (h.filterMap _).mem_iff

/-- The sorted associations do not depend on the order of the items. -/
theorem sort_firstOfEachText_perm {items items' : List JsonValue} (h : items.Perm items') :
    sortBy compareAssociations (firstOfEachText (acceptedAssociations platform items)) =
      sortBy compareAssociations (firstOfEachText (acceptedAssociations platform items')) := by
  refine sortBy_eq_of_perm _ (firstOfEachText_perm h) fun a ha b hb heq => ?_
  have hsubset := (firstOfEachText_spec (acceptedAssociations platform items)).1
  obtain ⟨value, hvalue⟩ := exists_of_mem_accepted (hsubset ha)
  obtain ⟨value', hvalue'⟩ := exists_of_mem_accepted (hsubset hb)
  exact Association.text_injective hvalue hvalue' (text_eq_of_compareAssociations heq)

/-- **Main.** A context with at most 200 associations, in any order, has the same normal form: the same
    associations in the same order, the same completeness and the same counts. -/
theorem normalize_perm (platform : WebPlatform) (input input' : List (String × JsonValue))
    (items items' : List JsonValue)
    (hitems : JsonValue.memberOf input "associations" = some (.array items))
    (hitems' : JsonValue.memberOf input' "associations" = some (.array items'))
    (hothers : ∀ name, name ≠ "associations" →
      JsonValue.memberOf input' name = JsonValue.memberOf input name)
    (hlength : items.length ≤ maxRawRepositoryAssociations) (hperm : items'.Perm items) :
    normalizeRepositoryContext platform (some (.object input')) =
      normalizeRepositoryContext platform (some (.object input)) := by
  have hready : normalizeReady platform input' = normalizeReady platform input := by
    unfold normalizeReady
    rw [hitems, hitems', hothers "observedAt" (by decide), hothers "freshness" (by decide),
      hothers "complete" (by decide), hothers "error" (by decide)]
    simp only [arrayItems, Option.getD_some, Option.isNone_some]
    have hfound : (items.take maxRawRepositoryAssociations).foldl
        (CollectedAssociations.add platform) {} =
          ⟨firstOfEachText (acceptedAssociations platform items),
            items.countP (isRejected platform)⟩ := by
      rw [List.take_of_length_le hlength, foldl_add_eq]
    have hfound' : (items'.take maxRawRepositoryAssociations).foldl
        (CollectedAssociations.add platform) {} =
          ⟨firstOfEachText (acceptedAssociations platform items'),
            items.countP (isRejected platform)⟩ := by
      rw [List.take_of_length_le (hperm.length_eq.trans_le hlength), foldl_add_eq, hperm.countP_eq]
    simp only [hfound, hfound', sort_firstOfEachText_perm hperm,
      (firstOfEachText_perm hperm).length_eq, hperm.length_eq]
  rw [normalizeRepositoryContext, normalizeRepositoryContext, hothers "state" (by decide), hready,
    hothers "error" (by decide)]

theorem normalize_perm_sample :
    normalizeRepositoryContext samplePlatform (some (sampleContext [.null, sampleAssociation])) =
      normalizeRepositoryContext samplePlatform (some (sampleContext [sampleAssociation, .null])) :=
  normalize_perm samplePlatform _ _ [sampleAssociation, .null] [.null, sampleAssociation]
    (by simp) (by simp) (fun name h => by simp [h.symm]) (by decide) (List.Perm.swap _ _ _)

end AgentHost
