import AgentHost.Core.AgentStore
import AgentHost.Core.LaunchContracts

namespace AgentHost

/-!
# Pages of a list of agents

The filters, the orders and the pages of `GET /v1/agents`.

* `AgentFilter.accepts`, `AgentFilter.comparator` — what a filter selects, and in what order.
* `pageAgents`, `decodeCursor` — a page of it and the cursor of the next one, and where a cursor is
  accepted.
* `Agent.shown` — all that the pages read of an agent; lists of agents that are the same in that have
  the same pages (`pageAgents_of_shown`).
* `page_append_next` — a page and the one after it are a stretch of the selected agents.
-/

variable {δ κ : Type}

/-! ### Queries -/

/-- `SORTS`. -/
inductive AgentSort
  | attention
  | activity
  | name
  | provider
  | status
  deriving DecidableEq

/-- `DIRECTIONS`. -/
inductive SortDirection
  | asc
  | desc
  deriving DecidableEq

/-- `filter` of a list query; the texts are trimmed and in lower case. -/
structure AgentFilter where
  view : Visibility
  providers : List String
  statuses : List String
  cwd : String
  query : String
  sort : AgentSort
  direction : SortDirection
  deriving DecidableEq

/-- A list query without its cursor, which is an offset by now. -/
structure AgentQuery where
  filter : AgentFilter
  offset : Nat
  limit : Nat

/-- The functions on texts and dates that the pages use: `toLocaleLowerCase`,
    `normalize("NFKC").toLowerCase()` and `Date.parse`. -/
structure PageTexts where
  toLocaleLowerCase : String → String
  fold : String → String
  dateParse : String → Option Int

/-- `includes`, for texts. -/
def textIncludes (text part : String) : Bool := decide (part.toList <:+: text.toList)

namespace PageTexts

variable (texts : PageTexts)

/-- `compareText`. -/
def compareText (left right : Option String) : Ordering :=
  compareTexts (texts.fold (left.getD "")) (texts.fold (right.getD ""))

/-- `compareTimestamp`: earlier times first, what is no time before them. -/
def compareTimestamp (left right : Option String) : Ordering :=
  match parseDate texts.dateParse left, parseDate texts.dateParse right with
  | some a, some b => compare a b
  | some _, none => .gt
  | none, some _ => .lt
  | none, none => texts.compareText left right

end PageTexts

/-- `direction * result`. -/
def SortDirection.apply (direction : SortDirection) (result : Ordering) : Ordering :=
  match direction with
  | .asc => result
  | .desc => result.swap

/-- `lastActivityAt ?? updatedAt`. -/
def Agent.activityAt (agent : Agent δ κ) : Option String := agent.lastActivityAt.or agent.updatedAt

namespace AgentFilter

variable (texts : PageTexts) (filter : AgentFilter)

/-- The texts of an agent that a query looks for. -/
def haystack (agent : AgentFields δ) : String :=
  texts.toLocaleLowerCase <| "\n".intercalate <|
    ([agent.name, some agent.provider, some agent.source, agent.cwd].reduceOption).filter (· ≠ "")

/-- `matches`. -/
def accepts (agent : AgentFields δ) : Bool :=
  agent.matchesView filter.view &&
  (filter.providers.isEmpty || filter.providers.contains agent.provider) &&
  (filter.statuses.isEmpty || agent.status.any filter.statuses.contains) &&
  (filter.cwd == "" || agent.cwd.any fun cwd =>
    textIncludes (texts.toLocaleLowerCase cwd) filter.cwd) &&
  (filter.query == "" || textIncludes (haystack texts agent) filter.query)

/-- `comparator`. -/
def comparator (left right : Agent δ κ) : Ordering :=
  match filter.sort with
  | .attention =>
    filter.direction.apply (compareAgents texts.dateParse left.toAgentFields right.toAgentFields)
  | sort =>
    let result :=
      match sort with
      | .activity => texts.compareTimestamp left.activityAt right.activityAt
      | .status => texts.compareText left.status right.status
      | .provider => texts.compareText (some left.provider) (some right.provider)
      | _ => texts.compareText left.name right.name
    (filter.direction.apply result).then (texts.compareText (some left.id) (some right.id))

/-- The agents that a filter selects, in its order. -/
def select (agents : List (Agent δ κ)) : List (Agent δ κ) :=
  sortBy (filter.comparator texts) (agents.filter fun agent => filter.accepts texts agent.toAgentFields)

end AgentFilter

/-! ### Pages -/

/-- A cursor, decoded; its `filterKey` is the filter. -/
structure PageCursor where
  offset : Nat
  revision : CursorRevision
  filter : AgentFilter
  deriving DecidableEq

/-- A page of agents. -/
structure AgentPage (δ κ : Type) where
  agents : List (Agent δ κ)
  total : Nat
  nextCursor : Option PageCursor

/-- The cursor is outside of the result. -/
def cursorOutside : ContractError :=
  ⟨"invalid_cursor", "cursor offset is outside the current result set", 400⟩

/-- The cursor is of another revision. -/
def staleCursor : ContractError :=
  ⟨"stale_cursor", "the agent snapshot changed; restart pagination", 409⟩

/-- The cursor is of another filter. -/
def foreignCursor : ContractError :=
  ⟨"invalid_cursor", "cursor does not match the current filters", 400⟩

/-- `decodeCursor`, for a cursor that is well formed. -/
def decodeCursor (cursor : PageCursor) (revision : CursorRevision) (filter : AgentFilter) :
    Except ContractError Nat :=
  if cursor.revision ≠ revision then .error staleCursor
  else if cursor.filter ≠ filter then .error foreignCursor
  else .ok cursor.offset

/-- `pageAgents`. -/
def pageAgents (texts : PageTexts) (agents : List (Agent δ κ)) (query : AgentQuery)
    (revision : CursorRevision) : Except ContractError (AgentPage δ κ) :=
  let filtered := query.filter.select texts agents
  if query.offset > filtered.length then .error cursorOutside
  else
    let page := (filtered.drop query.offset).take query.limit
    let nextOffset := query.offset + page.length
    .ok
      { agents := page
        total := filtered.length
        nextCursor :=
          if nextOffset < filtered.length then some ⟨nextOffset, revision, query.filter⟩ else none }

/-- The ids on a page, or why there is none. -/
def pageIds (texts : PageTexts) (agents : List (Agent δ κ)) (query : AgentQuery)
    (revision : CursorRevision) : Except ContractError (List String) :=
  (pageAgents texts agents query revision).map fun page => page.agents.map fun agent => agent.id

/-! ### What the pages read -/

/-- An agent but for the agent it duplicates. -/
def AgentFields.withoutDuplicateOf (agent : AgentFields δ) : AgentFields δ :=
  { agent with
    discovery := agent.discovery.map fun discovery => { discovery with duplicateOf := none } }

namespace AgentFields

variable (agent : AgentFields δ)

@[simp] theorem visibility?_withoutDuplicateOf :
    agent.withoutDuplicateOf.visibility? = agent.visibility? := by
  unfold visibility? withoutDuplicateOf
  cases agent.discovery <;> rfl

@[simp] theorem matchesView_withoutDuplicateOf (view : Visibility) :
    agent.withoutDuplicateOf.matchesView view = agent.matchesView view := by
  have hvisibility : agent.withoutDuplicateOf.visibility = agent.visibility := by
    rw [visibility, visibility?_withoutDuplicateOf]
    rfl
  cases view <;> simp only [matchesView, hvisibility]

end AgentFields

theorem compareAgents_withoutDuplicateOf (dateParse : String → Option Int) (a b : AgentFields δ) :
    compareAgents dateParse a.withoutDuplicateOf b.withoutDuplicateOf = compareAgents dateParse a b := by
  simp only [compareAgents, compareLex, compareOn, AgentFields.visibility?_withoutDuplicateOf]
  rfl

/-- All that the pages read of an agent. -/
def Agent.shown (agent : Agent δ κ) : AgentFields δ × Option String :=
  (agent.withoutDuplicateOf, agent.activityAt)

section Shown

variable (texts : PageTexts) (filter : AgentFilter) {a b a' b' : Agent δ κ}

theorem id_of_shown (h : a.shown = b.shown) : a.id = b.id := congrArg (fun p => p.1.id) h

theorem accepts_of_shown (h : a.shown = b.shown) :
    filter.accepts texts a.toAgentFields = filter.accepts texts b.toAgentFields := by
  have hwithout : ∀ agent : AgentFields δ,
      filter.accepts texts agent.withoutDuplicateOf = filter.accepts texts agent := by
    intro agent
    simp only [AgentFilter.accepts, AgentFields.matchesView_withoutDuplicateOf]
    rfl
  rw [← hwithout a.toAgentFields, ← hwithout b.toAgentFields]
  exact congrArg (fun p => filter.accepts texts p.1) h

theorem compareAgents_of_shown (dateParse : String → Option Int) (ha : a.shown = a'.shown)
    (hb : b.shown = b'.shown) : compareAgents dateParse a.toAgentFields b.toAgentFields =
      compareAgents dateParse a'.toAgentFields b'.toAgentFields := by
  rw [← compareAgents_withoutDuplicateOf dateParse a.toAgentFields,
    ← compareAgents_withoutDuplicateOf dateParse a'.toAgentFields]
  exact congrArg₂ (fun p q => compareAgents dateParse p.1 q.1) ha hb

theorem comparator_of_shown (ha : a.shown = a'.shown) (hb : b.shown = b'.shown) :
    filter.comparator texts a b = filter.comparator texts a' b' := by
  have hactivity : a.activityAt = a'.activityAt ∧ b.activityAt = b'.activityAt :=
    ⟨congrArg Prod.snd ha, congrArg Prod.snd hb⟩
  have hfields : ∀ {x y : Agent δ κ}, x.shown = y.shown →
      x.id = y.id ∧ x.name = y.name ∧ x.provider = y.provider ∧ x.status = y.status := fun h =>
    ⟨congrArg (fun p => p.1.id) h, congrArg (fun p => p.1.name) h,
      congrArg (fun p => p.1.provider) h, congrArg (fun p => p.1.status) h⟩
  obtain ⟨haid, haname, haprovider, hastatus⟩ := hfields ha
  obtain ⟨hbid, hbname, hbprovider, hbstatus⟩ := hfields hb
  unfold AgentFilter.comparator
  rw [compareAgents_of_shown texts.dateParse ha hb, hactivity.1, hactivity.2, haid, haname,
    haprovider, hastatus, hbid, hbname, hbprovider, hbstatus]

variable {l l' : List (Agent δ κ)}

/-- Lists that look the same select agents that look the same, in the same order. -/
theorem select_of_shown (h : l.map Agent.shown = l'.map Agent.shown) :
    (filter.select texts l).map Agent.shown = (filter.select texts l').map Agent.shown := by
  refine map_sortBy_congr (fun a b a' b' ha hb => comparator_of_shown texts filter ha hb) ?_
  exact map_filter_congr (fun a b hab => accepts_of_shown texts filter hab) h

/-- **Main.** Lists that look the same have the same pages. -/
theorem pageAgents_of_shown (h : l.map Agent.shown = l'.map Agent.shown) (query : AgentQuery)
    (revision : CursorRevision) : pageIds texts l query revision = pageIds texts l' query revision := by
  have hselect := select_of_shown texts query.filter h
  have hlength := congrArg List.length hselect
  have hids := congrArg (List.map fun p => p.1.id) hselect
  rw [List.length_map, List.length_map] at hlength
  rw [List.map_map, List.map_map] at hids
  unfold pageIds pageAgents
  dsimp only
  rw [hlength]
  split
  · rfl
  · change Except.ok (List.map _ _) = Except.ok (List.map _ _)
    rw [List.map_take, List.map_drop, List.map_take, List.map_drop]
    exact congrArg (fun ids => Except.ok (List.take query.limit (List.drop query.offset ids))) hids

/-- The selected agents have the ids of agents of the list, each once. -/
theorem nodup_select (h : (l.map fun agent => agent.id).Nodup) :
    ((filter.select texts l).map fun agent => agent.id).Nodup :=
  ((perm_sortBy _ _).map _).nodup_iff.mpr (h.sublist (List.filter_sublist.map _))

/-- **Main.** A page and the one that its cursor leads to, of a list that looks the same, are together
    a stretch of the selected agents. -/
theorem page_append_next (h : l.map Agent.shown = l'.map Agent.shown) {query : AgentQuery}
    {page next : AgentPage δ κ} {cursor : PageCursor} {limit : Nat}
    {revision revision' : CursorRevision} (hpage : pageAgents texts l query revision = .ok page)
    (hcursor : page.nextCursor = some cursor)
    (hnext : pageAgents texts l' ⟨query.filter, cursor.offset, limit⟩ revision' = .ok next) :
    (page.agents ++ next.agents).map (fun agent => agent.id) =
      (((query.filter.select texts l).map fun agent => agent.id).drop query.offset).take
        (page.agents.length + limit) := by
  have hids : (query.filter.select texts l').map (fun agent => agent.id) =
      (query.filter.select texts l).map fun agent => agent.id := by
    have hselect := congrArg (List.map fun p => p.1.id) (select_of_shown texts query.filter h)
    rw [List.map_map, List.map_map] at hselect
    exact hselect.symm
  have hpages : ∀ {l : List (Agent δ κ)} {query : AgentQuery} {page : AgentPage δ κ}
      {revision : CursorRevision}, pageAgents texts l query revision = .ok page →
      page.agents = ((query.filter.select texts l).drop query.offset).take query.limit ∧
      ∀ cursor, page.nextCursor = some cursor → cursor.offset = query.offset + page.agents.length := by
    intro l query page revision hp
    unfold pageAgents at hp
    dsimp only at hp
    split at hp
    · cases hp
    · obtain rfl := Except.ok.inj hp
      refine ⟨rfl, fun cursor hc => ?_⟩
      dsimp only at hc
      split at hc
      · rw [← Option.some.inj hc]
      · cases hc
  obtain ⟨hagents, hoffset⟩ := hpages hpage
  rw [List.map_append, (hpages hnext).1, hoffset cursor hcursor]
  dsimp only
  rw [List.map_take, List.map_drop, hids, ← List.drop_drop, List.take_add]
  -- a page that is shorter than its limit is all that is left
  have hshort : page.agents.map (fun agent => agent.id) =
      (((query.filter.select texts l).map fun agent => agent.id).drop query.offset).take
        page.agents.length := by
    rw [hagents, List.map_take, List.map_drop, List.length_take, List.take_eq_take_iff,
      List.length_drop, List.length_drop, List.length_map]
    omega
  rw [← hshort]

end Shown

end AgentHost
