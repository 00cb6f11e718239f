import AgentHost.Core.AgentOrder
import AgentHost.Lib.Base64Url
import AgentHost.Lib.JsonParse
import AgentHost.Lib.Utf8

namespace AgentHost

/-!
# List queries and the texts of cursors

The search parameters of `GET /v1/agents`, read into a filter, and the cursor as the text that a
client sends back.

* `parseAgentListQuery` — a query, or why it is refused.
* `PageCursor.encode`, `decodeCursorText` — the text of a cursor, and reading it.
* `decodeCursorText_encode` — the text says what the cursor says: it is accepted for its own revision
  and filter, and for no other.
* `readPages` — a client that follows `nextCursor` with a limit of its own for each request.
* `pagination` — **Main**: it reads the selected agents in their order, each once; the cursor of
  another revision or filter is refused.
-/

variable {δ κ : Type}

/-! ### Search parameters -/

/-- The parameters of a URL, decoded, in their order. -/
abbrev SearchParams := List (String × String)

namespace SearchParams

/-- `searchParams.get`. -/
def get (params : SearchParams) (key : String) : Option String :=
  (params.find? fun param => param.1 = key).map Prod.snd

/-- `searchParams.getAll`. -/
def getAll (params : SearchParams) (key : String) : List String :=
  (params.filter fun param => param.1 = key).map Prod.snd

end SearchParams

/-- `trim`. -/
def trimText (text : String) : String := String.ofList (Texts.trim text.toList)

/-- `values`. -/
def paramValues (params : SearchParams) (key : String) : List String :=
  let parts := (params.getAll key).flatMap fun value =>
    (Texts.split ',' value.toList).map String.ofList
  sortBy compareTexts ((parts.map trimText).filter (· ≠ "")).eraseDups

/-! ### The texts of a filter -/

/-- `VIEWS`. -/
def viewTexts : TextSet Visibility where
  all := [.active, .recent, .historical, .raw]
  text
    | .active => "active"
    | .recent => "recent"
    | .historical => "historical"
    | .raw => "raw"
  find?_text := by intro view; cases view <;> rfl

/-- `SORTS`. -/
def sortTexts : TextSet AgentSort where
  all := [.attention, .activity, .name, .provider, .status]
  text
    | .attention => "attention"
    | .activity => "activity"
    | .name => "name"
    | .provider => "provider"
    | .status => "status"
  find?_text := by intro sort; cases sort <;> rfl

/-- `DIRECTIONS`. -/
def directionTexts : TextSet SortDirection where
  all := [.asc, .desc]
  text
    | .asc => "asc"
    | .desc => "desc"
  find?_text := by intro direction; cases direction <;> rfl

/-- `STATUSES`. -/
def agentStatuses : List String := ["unknown", "idle", "working", "blocked", "done", "error"]

/-- `DEFAULT_PAGE_LIMIT`. -/
def defaultPageLimit : Nat := 50

/-- `MAX_PAGE_LIMIT`. -/
def maxPageLimit : Nat := 200

/-! ### `parseAgentListQuery` -/

def invalidLimit : ContractError :=
  ⟨"invalid_limit", "limit must be an integer from 1 to " ++ toString maxPageLimit, 400⟩

/-- A parameter has a value that is not one of its texts. -/
def unsupported (code name value : String) : ContractError :=
  ⟨code, "unsupported " ++ name ++ ": " ++ value, 400⟩

/-- The limit of a page. -/
def parseLimit (rawLimit : Option String) : Except ContractError Nat :=
  match rawLimit with
  | none => .ok defaultPageLimit
  | some raw =>
    match JsonParse.numberOfText raw with
    | some limit =>
      if limit.den = 1 ∧ 1 ≤ limit.num ∧ limit.num ≤ maxPageLimit then .ok limit.num.toNat
      else .error invalidLimit
    | none => .error invalidLimit

/-- A parameter with a fixed set of texts. -/
def parseText {α : Type} (texts : TextSet α) (code name : String) (value : Option String)
    (default : α) : Except ContractError α :=
  match value with
  | none => .ok default
  | some value =>
    match texts.ofValue? (some (.string value)) with
    | some a => .ok a
    | none => .error (unsupported code name value)

/-- `filter`, from the parameters. -/
def parseFilter (texts : PageTexts) (params : SearchParams) : Except ContractError AgentFilter := do
  let providers := paramValues params "provider"
  let statuses := paramValues params "status"
  match statuses.find? fun status => !agentStatuses.contains status with
  | some status => .error (unsupported "invalid_status" "status" status)
  | none =>
    let view ← parseText viewTexts "invalid_view" "view" (params.get "view") .recent
    let sort ← parseText sortTexts "invalid_sort" "sort" (params.get "sort") .attention
    let direction ← parseText directionTexts "invalid_direction" "direction"
      (params.get "direction") (if sort = .activity then .desc else .asc)
    let lower := fun key =>
      ((params.get key).map fun text => texts.toLocaleLowerCase (trimText text)).getD ""
    return ⟨view, providers, statuses, lower "cwd", lower "q", sort, direction⟩

/-- `filter` as it is serialized. -/
def AgentFilter.toJson (filter : AgentFilter) : Json :=
  .obj [("view", .str (viewTexts.text filter.view)),
    ("providers", .arr (filter.providers.map .str)),
    ("statuses", .arr (filter.statuses.map .str)),
    ("cwd", .str filter.cwd),
    ("query", .str filter.query),
    ("sort", .str (sortTexts.text filter.sort)),
    ("direction", .str (directionTexts.text filter.direction))]

/-- `filterKey`. -/
def AgentFilter.key (filter : AgentFilter) : String := filter.toJson.stringify

/-- `cursorRevision` as it is serialized. -/
def CursorRevision.toJson : CursorRevision → Json
  | .live revision => .num revision
  | .history historyRevision historyOverlayRevision =>
    .str ("history:" ++ toString historyRevision ++ ":" ++ toString historyOverlayRevision)
  | .raw rawRevision historyRevision =>
    .str ("raw:" ++ toString rawRevision ++ ":" ++ toString historyRevision)

/-- `encodeCursor`. -/
def encodeCursor (offset : Nat) (revision : CursorRevision) (filterKey : String) : String :=
  let payload : Json :=
    .obj [("offset", .num offset), ("revision", revision.toJson), ("filterKey", .str filterKey)]
  String.ofList (Base64Url.encode (Utf8.encode payload.stringify.toList))

/-- The text of a cursor. -/
def PageCursor.encode (cursor : PageCursor) : String :=
  encodeCursor cursor.offset cursor.revision cursor.filter.key

def malformedCursor : ContractError := ⟨"invalid_cursor", "cursor is malformed", 400⟩

def invalidOffset : ContractError := ⟨"invalid_cursor", "cursor offset is invalid", 400⟩

/-- `===`, between a member that was read and a number or a text. -/
def strictlyEqual : Option JsonValue → Json → Bool
  | some (.number (some q)), .num n => decide (q = n)
  | some (.string s), .str t => decide (s = t)
  | _, _ => false

/-- `payload.offset`, where it is an integer that is not negative. -/
def cursorOffset : Option JsonValue → Option Nat
  | some (.number (some q)) => if q.den = 1 ∧ 0 ≤ q.num then some q.num.toNat else none
  | _ => none

/-- `decodeCursor`, for the text of a cursor. -/
def decodeCursorText (cursor : String) (revision : CursorRevision) (filterKey : String) :
    Except ContractError Nat :=
  match JsonParse.parse (String.ofList (Utf8.decodeLossy (Base64Url.decode cursor.toList))) with
  | none => .error malformedCursor
  | some payload =>
    match cursorOffset (payload.get? "offset") with
    | none => .error invalidOffset
    | some offset =>
      if strictlyEqual (payload.get? "revision") revision.toJson = false then .error staleCursor
      else if strictlyEqual (payload.get? "filterKey") (.str filterKey) = false then
        .error foreignCursor
      else .ok offset

/-- `cursor ? decodeCursor(cursor, revision, filterKey) : 0`. -/
def requestOffset (cursor : Option String) (revision : CursorRevision) (filterKey : String) :
    Except ContractError Nat :=
  match cursor with
  | none => .ok 0
  | some cursor => if cursor = "" then .ok 0 else decodeCursorText cursor revision filterKey

/-- `parseAgentListQuery`. -/
def parseAgentListQuery (texts : PageTexts) (params : SearchParams) (revision : CursorRevision) :
    Except ContractError AgentQuery := do
  let limit ← parseLimit (params.get "limit")
  let filter ← parseFilter texts params
  let offset ← requestOffset (params.get "cursor") revision filter.key
  return ⟨filter, offset, limit⟩

/-- The page that a request for the list of agents is answered with. -/
def listAgents (texts : PageTexts) (agents : List (Agent δ κ)) (params : SearchParams)
    (revision : CursorRevision) : Except ContractError (AgentPage δ κ) := do
  let query ← parseAgentListQuery texts params revision
  pageAgents texts agents query revision

/-! ### The text of a cursor is read back -/

/-- A revision that the number of the language holds. -/
def CursorRevision.Exact : CursorRevision → Prop
  | .live revision => revision ≤ Doubles.maxSafeInteger
  | _ => True

/-- A cursor whose numbers the language holds. -/
def PageCursor.Exact (cursor : PageCursor) : Prop :=
  cursor.offset ≤ Doubles.maxSafeInteger ∧ cursor.revision.Exact

theorem wellFormedItems_str (texts : List String) :
    Json.wellFormedItems (texts.map .str) = true := by
  induction texts with
  | nil => rfl
  | cons text texts ih =>
    rw [List.map_cons, Json.wellFormedItems, ih]
    rfl

theorem AgentFilter.wellFormed_toJson (filter : AgentFilter) : filter.toJson.wellFormed = true := by
  simp only [toJson, Json.wellFormed, Json.wellFormedMembers, wellFormedItems_str, List.map_cons,
    List.map_nil]
  decide

/-- Different filters have different keys. -/
theorem AgentFilter.key_injective : Function.Injective AgentFilter.key := by
  intro filter filter' h
  have hjson := Json.stringify_injective filter.wellFormed_toJson filter'.wellFormed_toJson h
  have hstr : Function.Injective (List.map Json.str) :=
    List.map_injective_iff.mpr fun _ _ => Json.str.inj
  simp only [toJson, Json.obj.injEq, List.cons.injEq, Prod.mk.injEq, true_and, and_true,
    Json.str.injEq, Json.arr.injEq] at hjson
  obtain ⟨hview, hproviders, hstatuses, hcwd, hquery, hsort, hdirection⟩ := hjson
  cases filter
  cases filter'
  simp only [AgentFilter.mk.injEq]
  exact ⟨viewTexts.text_injective hview, hstr hproviders, hstr hstatuses, hcwd, hquery,
    sortTexts.text_injective hsort, directionTexts.text_injective hdirection⟩

/-- Numbers with a colon between them. -/
theorem colon_injective {a b a' b' : Nat}
    (h : (toString a).toList ++ ':' :: (toString b).toList =
      (toString a').toList ++ ':' :: (toString b').toList) : a = a' ∧ b = b' := by
  have hdigits : ∀ n : Nat, ∀ c ∈ Nat.toDigits 10 n, c.isDigit = true := fun n c hc =>
    Nat.isDigit_of_mem_toDigits (by decide) (by decide) hc
  have hinj : ∀ {n n' : Nat}, Nat.toDigits 10 n = Nat.toDigits 10 n' → n = n' := by
    intro n n' hn
    have hvalue := congrArg (fun ds => Nat.ofDigitChars 10 ds 0) hn
    simpa only [Nat.ofDigitChars_ten_toDigits] using hvalue
  have hends : ∀ rest, JsonParse.EndsNumber (':' :: rest) := fun rest =>
    JsonParse.endsNumber_cons rest (by decide)
  have htext : ∀ n : Nat, (toString n).toList = Nat.toDigits 10 n := fun n => Nat.toList_repr
  rw [htext, htext, htext, htext] at h
  have hread := congrArg JsonParse.digits h
  rw [JsonParse.digits_append (hdigits a) (hends _), JsonParse.digits_append (hdigits a') (hends _),
    Prod.mk.injEq, List.cons.injEq] at hread
  exact ⟨hinj hread.1, hinj hread.2.2⟩

/-- Different revisions are serialized differently. -/
theorem CursorRevision.toJson_injective : Function.Injective CursorRevision.toJson := by
  have hcolon : ∀ {name : String} {a b a' b' : Nat},
      name ++ toString a ++ ":" ++ toString b = name ++ toString a' ++ ":" ++ toString b' →
      a = a' ∧ b = b' := by
    intro name a b a' b' h
    have hlist := congrArg String.toList h
    simp only [String.toList_append, List.append_assoc, List.append_cancel_left_eq] at hlist
    exact colon_injective hlist
  have hhead : ∀ {a b a' b' : Nat},
      "history:" ++ toString a ++ ":" ++ toString b ≠ "raw:" ++ toString a' ++ ":" ++ toString b' := by
    intro a b a' b' h
    have hlist := congrArg (fun s => s.toList.head?) h
    simp [String.toList_append] at hlist
  intro revision revision' h
  cases revision with
  | live n =>
    cases revision' with
    | live n' => rw [show n = n' from Int.ofNat.inj (Json.num.inj h)]
    | history | raw => cases h
  | history a b =>
    cases revision' with
    | live => cases h
    | history a' b' =>
      obtain ⟨rfl, rfl⟩ := hcolon (Json.str.inj h)
      rfl
    | raw => exact absurd (Json.str.inj h) hhead
  | raw a b =>
    cases revision' with
    | live => cases h
    | history => exact absurd (Json.str.inj h).symm hhead
    | raw a' b' =>
      obtain ⟨rfl, rfl⟩ := hcolon (Json.str.inj h)
      rfl

theorem strictlyEqual_revision {revision revision' : CursorRevision} :
    strictlyEqual (some (.ofJson revision.toJson)) revision'.toJson = false ↔
      revision ≠ revision' := by
  rw [ne_eq, ← CursorRevision.toJson_injective.eq_iff]
  cases revision <;> cases revision' <;>
    simp [CursorRevision.toJson, JsonValue.ofJson, strictlyEqual]

theorem strictlyEqual_key {filter filter' : AgentFilter} :
    strictlyEqual (some (.string filter.key)) (.str filter'.key) = false ↔ filter ≠ filter' := by
  rw [ne_eq, ← AgentFilter.key_injective.eq_iff]
  simp [strictlyEqual]

/-- The text of a cursor stands for its members. -/
theorem parse_encode {cursor : PageCursor} (h : cursor.Exact) :
    JsonParse.parse (String.ofList (Utf8.decodeLossy (Base64Url.decode cursor.encode.toList))) =
      some (.object [("offset", .number (some cursor.offset)),
        ("revision", .ofJson cursor.revision.toJson),
        ("filterKey", .string cursor.filter.key)]) := by
  have hlossy : ∀ text : List Char, Utf8.decodeLossy (Utf8.encode text) = text := by
    intro text
    rw [Utf8.decodeLossy, Utf8.decode_encode, List.map_map]
    exact List.map_id text
  have hrevision : cursor.revision.toJson.wellFormed = true := by
    obtain ⟨_, hexact⟩ := h
    cases hr : cursor.revision with
    | live n =>
      rw [hr] at hexact
      exact decide_eq_true hexact
    | history | raw => rfl
  rw [PageCursor.encode, encodeCursor, String.toList_ofList, Base64Url.decode_encode, hlossy,
    String.ofList_toList, JsonParse.parse_stringify]
  · simp [JsonValue.ofJson, JsonValue.ofMembers]
  · simp only [Json.wellFormed, Json.wellFormedMembers, hrevision, Bool.and_true,
      Bool.and_eq_true, decide_eq_true_eq]
    exact ⟨by simp, h.1⟩

/-- **Round trip.** The text of a cursor says what the cursor says. -/
theorem decodeCursorText_encode {cursor : PageCursor} (h : cursor.Exact)
    (revision : CursorRevision) (filter : AgentFilter) :
    decodeCursorText cursor.encode revision filter.key = decodeCursor cursor revision filter := by
  have hoffset : cursorOffset (some (.number (some (cursor.offset : ℚ)))) = some cursor.offset := by
    simp [cursorOffset]
  have hmembers : ∀ payload, payload = JsonValue.object [("offset", .number (some cursor.offset)),
      ("revision", .ofJson cursor.revision.toJson), ("filterKey", .string cursor.filter.key)] →
      payload.get? "offset" = some (.number (some cursor.offset)) ∧
      payload.get? "revision" = some (.ofJson cursor.revision.toJson) ∧
      payload.get? "filterKey" = some (.string cursor.filter.key) := by
    rintro payload rfl
    simp
  obtain ⟨hoffsetRead, hrevisionRead, hkeyRead⟩ := hmembers _ rfl
  rw [decodeCursorText, parse_encode h]
  dsimp only
  rw [hoffsetRead, hoffset, hrevisionRead, hkeyRead]
  simp only [strictlyEqual_revision, strictlyEqual_key, decodeCursor]

theorem encode_ne_empty (cursor : PageCursor) : cursor.encode ≠ "" := by
  intro h
  have hparts := congrArg String.toList h
  rw [PageCursor.encode, encodeCursor, String.toList_ofList] at hparts
  have hbytes := congrArg Base64Url.decode hparts
  rw [Base64Url.decode_encode] at hbytes
  have htext := congrArg Utf8.decodeLossy hbytes
  rw [Utf8.decodeLossy, Utf8.decode_encode, List.map_map] at htext
  have hnil : (Utf8.decodeLossy (Base64Url.decode "".toList)) = [] := rfl
  rw [hnil, List.map_eq_nil_iff] at htext
  simp [Json.stringify] at htext

/-! ### Requests -/

/-- The parameters of a request: those of the list, with a limit and a cursor. -/
def request (params : SearchParams) (limit cursor : Option String) : SearchParams :=
  params.filter (fun param => param.1 ≠ "limit" ∧ param.1 ≠ "cursor") ++
    (limit.map fun text => ("limit", text)).toList ++
    (cursor.map fun text => ("cursor", text)).toList

section Requests

variable (params : SearchParams) (limit cursor : Option String)

theorem find?_filter_of_imp {α : Type} {p q : α → Bool} (h : ∀ a, p a = true → q a = true)
    (l : List α) : (l.filter q).find? p = l.find? p := by
  induction l with
  | nil => rfl
  | cons a l ih =>
    rw [List.filter_cons]
    split
    · rw [List.find?_cons, List.find?_cons, ih]
    · next hq =>
      have hp : p a = false := by
        rw [Bool.eq_false_iff]
        exact fun hp => hq (h a hp)
      rw [List.find?_cons, hp, ih]

theorem get_request {key : String} (hlimit : key ≠ "limit") (hcursor : key ≠ "cursor") :
    (request params limit cursor).get key = params.get key := by
  unfold SearchParams.get request
  rw [List.find?_append, List.find?_append, find?_filter_of_imp]
  · cases limit <;> cases cursor <;> simp [hlimit.symm, hcursor.symm]
  · intro param hparam
    rw [decide_eq_true_eq] at hparam ⊢
    rw [hparam]
    exact ⟨hlimit, hcursor⟩

theorem getAll_request {key : String} (hlimit : key ≠ "limit") (hcursor : key ≠ "cursor") :
    (request params limit cursor).getAll key = params.getAll key := by
  unfold SearchParams.getAll request
  rw [List.filter_append, List.filter_append, List.filter_filter]
  have hsame : (params.filter fun param => decide (param.1 = key) &&
      decide (param.1 ≠ "limit" ∧ param.1 ≠ "cursor")) =
      params.filter fun param => decide (param.1 = key) := by
    refine List.filter_congr fun param _ => ?_
    rw [Bool.eq_iff_iff, Bool.and_eq_true, decide_eq_true_eq, decide_eq_true_eq]
    exact ⟨fun h => h.1, fun h => ⟨h, by rw [h]; exact ⟨hlimit, hcursor⟩⟩⟩
  rw [hsame]
  cases limit <;> cases cursor <;> simp [hlimit.symm, hcursor.symm]

theorem get_limit_request : (request params limit cursor).get "limit" = limit := by
  unfold SearchParams.get request
  have hnone : (params.filter fun param => param.1 ≠ "limit" ∧ param.1 ≠ "cursor").find?
      (fun param => param.1 = "limit") = none := by
    rw [List.find?_eq_none]
    intro param hparam
    simpa using (of_decide_eq_true (List.mem_filter.mp hparam).2).1
  rw [List.find?_append, List.find?_append, hnone]
  cases limit <;> cases cursor <;> simp

theorem get_cursor_request : (request params limit cursor).get "cursor" = cursor := by
  unfold SearchParams.get request
  have hnone : (params.filter fun param => param.1 ≠ "limit" ∧ param.1 ≠ "cursor").find?
      (fun param => param.1 = "cursor") = none := by
    rw [List.find?_eq_none]
    intro param hparam
    simpa using (of_decide_eq_true (List.mem_filter.mp hparam).2).2
  rw [List.find?_append, List.find?_append, hnone]
  cases limit <;> cases cursor <;> simp

theorem parseFilter_request (texts : PageTexts) :
    parseFilter texts (request params limit cursor) = parseFilter texts params := by
  have hget : ∀ key, key ≠ "limit" → key ≠ "cursor" →
      (request params limit cursor).get key = params.get key := fun key h h' =>
    get_request params limit cursor h h'
  have hvalues : ∀ key, key ≠ "limit" → key ≠ "cursor" →
      paramValues (request params limit cursor) key = paramValues params key := by
    intro key h h'
    rw [paramValues, getAll_request params limit cursor h h', paramValues]
  unfold parseFilter
  rw [hvalues "provider" (by decide) (by decide), hvalues "status" (by decide) (by decide),
    hget "view" (by decide) (by decide), hget "sort" (by decide) (by decide),
    hget "direction" (by decide) (by decide)]
  simp only [hget "cwd" (by decide) (by decide), hget "q" (by decide) (by decide)]

end Requests

/-! ### Following the cursor -/

/-- The pages of a client that follows `nextCursor` from its `k`-th request on, with the limit
    `limits k` for it; `none` where it is not through after `fuel` requests. -/
def readPages (texts : PageTexts) (agents : List (Agent δ κ)) (params : SearchParams)
    (revision : CursorRevision) (limits : Nat → Option String) :
    Nat → Nat → Option String → Except ContractError (Option (List (List (Agent δ κ))))
  | 0, _, _ => .ok none
  | fuel + 1, k, cursor => do
    let page ← listAgents texts agents (request params (limits k) cursor) revision
    match page.nextCursor with
    | none => return some [page.agents]
    | some next =>
      let rest ← readPages texts agents params revision limits fuel (k + 1) (some next.encode)
      return rest.map fun pages => page.agents :: pages

section Following

variable {texts : PageTexts} {agents : List (Agent δ κ)} {params : SearchParams}
  {filter : AgentFilter} {revision : CursorRevision}

/-- A first request is one for the offset 0. -/
theorem listAgents_first (hfilter : parseFilter texts params = .ok filter) {limit : Option String}
    {n : Nat} (hlimit : parseLimit limit = .ok n) :
    listAgents texts agents (request params limit none) revision =
      pageAgents texts agents ⟨filter, 0, n⟩ revision := by
  unfold listAgents parseAgentListQuery
  rw [get_limit_request, get_cursor_request, parseFilter_request, hlimit, hfilter]
  rfl

/-- A request with the text of a cursor is one for its offset, where the cursor is accepted. -/
theorem listAgents_next (hfilter : parseFilter texts params = .ok filter) {limit : Option String}
    {n : Nat} (hlimit : parseLimit limit = .ok n) {cursor : PageCursor} (hexact : cursor.Exact) :
    listAgents texts agents (request params limit (some cursor.encode)) revision =
      (decodeCursor cursor revision filter).bind fun offset =>
        pageAgents texts agents ⟨filter, offset, n⟩ revision := by
  have hoffset : requestOffset (some cursor.encode) revision filter.key =
      decodeCursor cursor revision filter := by
    rw [requestOffset, if_neg (encode_ne_empty cursor), decodeCursorText_encode hexact]
  unfold listAgents parseAgentListQuery
  rw [get_limit_request, get_cursor_request, parseFilter_request, hlimit, hfilter]
  simp only [bind, pure, Except.bind, Except.pure, hoffset]
  cases decodeCursor cursor revision filter <;> rfl

theorem length_select_le (agents : List (Agent δ κ)) :
    (filter.select texts agents).length ≤ agents.length := by
  rw [AgentFilter.select, (perm_sortBy _ _).length_eq]
  exact List.length_filter_le _ _

/-- The page at an offset. -/
theorem pageAgents_of_le {query : AgentQuery}
    (h : query.offset ≤ (query.filter.select texts agents).length) :
    pageAgents texts agents query revision =
      .ok
        { agents := ((query.filter.select texts agents).drop query.offset).take query.limit
          total := (query.filter.select texts agents).length
          nextCursor :=
            if query.offset + query.limit < (query.filter.select texts agents).length then
              some ⟨query.offset + query.limit, revision, query.filter⟩
            else none } := by
  unfold pageAgents
  dsimp only
  rw [if_neg (by omega), List.length_take, List.length_drop]
  congr 2
  by_cases hmore : query.offset + query.limit < (query.filter.select texts agents).length
  · have hmin : min query.limit ((query.filter.select texts agents).length - query.offset) =
        query.limit := by omega
    rw [hmin]
  · rw [if_neg hmore, if_neg (by omega)]

theorem one_le_of_parseLimit {limit : Option String} {n : Nat} (h : parseLimit limit = .ok n) :
    1 ≤ n := by
  unfold parseLimit at h
  split at h
  · obtain rfl := Except.ok.inj h
    decide
  · split at h
    · split at h
      · next hle =>
        obtain rfl := Except.ok.inj h
        omega
      · cases h
    · cases h

/-- From the page at an offset on, the pages are the rest of the selected agents. -/
theorem readPages_of_page {limits : Nat → Option String}
    (hfilter : parseFilter texts params = .ok filter)
    (hlimits : ∀ k, ∃ n, parseLimit (limits k) = .ok n)
    (hlength : agents.length ≤ Doubles.maxSafeInteger) (hexact : revision.Exact)
    (fuel k offset : Nat) (cursor : Option String)
    (hoffset : offset ≤ (filter.select texts agents).length)
    (hfuel : (filter.select texts agents).length < fuel + offset)
    (hpage : ∀ n, parseLimit (limits k) = .ok n →
      listAgents texts agents (request params (limits k) cursor) revision =
        pageAgents texts agents ⟨filter, offset, n⟩ revision) :
    ∃ pages, readPages texts agents params revision limits fuel k cursor = .ok (some pages) ∧
      pages.flatten = (filter.select texts agents).drop offset := by
  induction fuel generalizing k offset cursor with
  | zero => omega
  | succ fuel ih =>
    obtain ⟨n, hn⟩ := hlimits k
    have hpos := one_le_of_parseLimit hn
    rw [readPages, hpage n hn, pageAgents_of_le hoffset]
    dsimp only
    by_cases hmore : offset + n < (filter.select texts agents).length
    · rw [if_pos hmore]
      have hcursor : (⟨offset + n, revision, filter⟩ : PageCursor).Exact :=
        ⟨(hmore.le.trans (length_select_le agents)).trans hlength, hexact⟩
      obtain ⟨pages, hread, hpages⟩ := ih (k + 1) (offset + n)
        (some (PageCursor.encode ⟨offset + n, revision, filter⟩)) hmore.le (by omega) (by
          intro m hm
          rw [listAgents_next hfilter hm hcursor, decodeCursor, if_neg (not_not.mpr rfl),
            if_neg (not_not.mpr rfl)]
          rfl)
      refine ⟨((filter.select texts agents).drop offset).take n :: pages, ?_, ?_⟩
      · show Except.bind _ _ = _
        rw [Except.bind]
        dsimp only
        rw [hread]
        rfl
      · rw [List.flatten_cons, hpages, ← List.drop_drop, List.take_append_drop]
    · rw [if_neg hmore]
      refine ⟨[((filter.select texts agents).drop offset).take n], rfl, ?_⟩
      rw [List.flatten_singleton, List.take_of_length_le]
      rw [List.length_drop]
      omega

/-- The cursor of a page belongs to the revision and the filter that the page was asked for. -/
theorem cursor_of_listAgents {page : AgentPage δ κ} {cursor : PageCursor}
    (hfilter : parseFilter texts params = .ok filter)
    (hlength : agents.length ≤ Doubles.maxSafeInteger) (hexact : revision.Exact)
    (hpage : listAgents texts agents params revision = .ok page)
    (hcursor : page.nextCursor = some cursor) :
    cursor.Exact ∧ cursor.revision = revision ∧ cursor.filter = filter := by
  have hquery : ∃ query : AgentQuery, query.filter = filter ∧
      pageAgents texts agents query revision = .ok page := by
    unfold listAgents parseAgentListQuery at hpage
    rw [hfilter] at hpage
    cases hlimit : parseLimit (params.get "limit") with
    | error e => rw [hlimit] at hpage; cases hpage
    | ok n =>
      rw [hlimit] at hpage
      cases hoffset : requestOffset (params.get "cursor") revision filter.key with
      | error e =>
        simp only [bind, Except.bind, hoffset] at hpage
        cases hpage
      | ok offset =>
        simp only [bind, pure, Except.bind, Except.pure, hoffset] at hpage
        exact ⟨_, rfl, hpage⟩
  obtain ⟨query, rfl, hok⟩ := hquery
  have hle : query.offset ≤ (query.filter.select texts agents).length := by
    by_contra hgt
    unfold pageAgents at hok
    dsimp only at hok
    rw [if_pos (by omega)] at hok
    cases hok
  rw [pageAgents_of_le hle] at hok
  obtain rfl := Except.ok.inj hok
  dsimp only at hcursor
  split at hcursor
  · next hmore =>
    obtain rfl := Option.some.inj hcursor
    exact ⟨⟨(hmore.le.trans (length_select_le agents)).trans hlength, hexact⟩, rfl, rfl⟩
  · cases hcursor

/-- A cursor of another revision or filter is refused. -/
theorem decodeCursor_foreign {cursor : PageCursor}
    (h : cursor.revision ≠ revision ∨ cursor.filter ≠ filter) :
    decodeCursor cursor revision filter =
      .error (if cursor.revision ≠ revision then staleCursor else foreignCursor) := by
  unfold decodeCursor
  by_cases hrevision : cursor.revision = revision
  · rw [if_neg (not_not.mpr hrevision), if_neg (not_not.mpr hrevision)]
    rcases h with h | h
    · exact absurd hrevision h
    · rw [if_pos h]
  · rw [if_pos hrevision, if_pos hrevision]

end Following

/-- **Main.** A client that follows `nextCursor` from the first page on, at one revision and with any
    limits, reads the selected agents in the order of the whole list, each once.  The cursor of a page
    at another revision or of another filter is refused.  The lengths of lists and the revisions are
    those that the numbers of the language hold. -/
theorem pagination (texts : PageTexts) (agents : List (Agent δ κ))
    (hids : (agents.map fun agent => agent.id).Nodup)
    (hlength : agents.length ≤ Doubles.maxSafeInteger) (params : SearchParams)
    (filter : AgentFilter) (hfilter : parseFilter texts params = .ok filter)
    (revision : CursorRevision) (hexact : revision.Exact) :
    (∀ limits : Nat → Option String, (∀ k, ∃ n, parseLimit (limits k) = .ok n) →
      ∃ pages, readPages texts agents params revision limits (agents.length + 1) 0 none =
          .ok (some pages) ∧
        pages.flatten = filter.select texts agents ∧
        (pages.flatten.map fun agent => agent.id).Nodup ∧
        ∀ agent, agent ∈ pages.flatten ↔
          agent ∈ agents ∧ filter.accepts texts agent.toAgentFields = true) ∧
    ∀ (others : List (Agent δ κ)) (params' : SearchParams) (filter' : AgentFilter)
      (revision' : CursorRevision) (page : AgentPage δ κ) (cursor : PageCursor),
      others.length ≤ Doubles.maxSafeInteger → revision'.Exact →
      parseFilter texts params' = .ok filter' →
      listAgents texts others params' revision' = .ok page → page.nextCursor = some cursor →
      revision' ≠ revision ∨ filter' ≠ filter → ∀ limit, (∃ n, parseLimit limit = .ok n) →
      listAgents texts agents (request params limit (some cursor.encode)) revision =
        .error (if revision' ≠ revision then staleCursor else foreignCursor) := by
  constructor
  · intro limits hlimits
    have hselect : (filter.select texts agents).length ≤ agents.length := length_select_le agents
    obtain ⟨n, hn⟩ := hlimits 0
    obtain ⟨pages, hread, hpages⟩ := readPages_of_page hfilter hlimits hlength hexact
      (agents.length + 1) 0 0 none (Nat.zero_le _) (by omega)
      fun m hm => listAgents_first hfilter hm
    rw [List.drop_zero] at hpages
    refine ⟨pages, hread, hpages, ?_, fun agent => ?_⟩
    · rw [hpages]
      exact nodup_select texts filter hids
    · rw [hpages, AgentFilter.select, mem_sortBy, List.mem_filter]
  · intro others params' filter' revision' page cursor hothers hexact' hfilter' hpage hcursor
      hforeign limit hlimit
    obtain ⟨n, hn⟩ := hlimit
    obtain ⟨hcursorExact, rfl, rfl⟩ := cursor_of_listAgents hfilter' hothers hexact' hpage hcursor
    rw [listAgents_next hfilter hn hcursorExact, decodeCursor_foreign hforeign]
    rfl

/-- `GET /v1/agents?sort=name` for two agents. -/
theorem pagination_sample :
    ∃ pages, readPages asciiTexts [bareAgent "b", bareAgent "a"] [("sort", "name")] (.live 1)
        (fun _ => none) 3 0 none = .ok (some pages) ∧
      pages.flatten.map (fun agent => agent.id) = ["a", "b"] := by
  have hpages := pagination asciiTexts [bareAgent "b", bareAgent "a"] (by decide) (by decide)
    [("sort", "name")] ⟨.recent, [], [], "", "", .name, .asc⟩ rfl (.live 1)
    (show 1 ≤ Doubles.maxSafeInteger by decide)
  obtain ⟨pages, hread, hflatten, _⟩ := hpages.1 (fun _ => none) fun _ => ⟨_, rfl⟩
  refine ⟨pages, hread, ?_⟩
  rw [hflatten]
  decide

end AgentHost
