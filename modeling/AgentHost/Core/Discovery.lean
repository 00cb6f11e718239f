import AgentHost.Lib.InsertionMap
import AgentHost.Lib.SortBy

namespace AgentHost

/-!
# Agents, their views and their order

* `Agent` — an agent as an adapter reports it and the registry stores it; `toAgentFields` is what
  is compared (`semanticAgent`), `δ` the members that are compared and never read, `κ` the
  repository context.
* `reconcileAgents` — process records that a richer agent of the same process stands for.
* `compareAgents` — the order of the list, a total order on agents with different ids
  (`compareAgents_eq_iff`).
-/

/-- `discovery.kind`. -/
inductive DiscoveryKind
  | process
  | native
  deriving DecidableEq

/-- `discovery.visibility`, and the names of the views. -/
inductive Visibility
  | active
  | recent
  | historical
  | raw
  deriving DecidableEq

structure Discovery where
  kind : DiscoveryKind
  visibility : Option Visibility := none
  duplicateOf : Option String := none
  deriving DecidableEq

/-- The members of an agent that `semanticAgent` keeps. -/
structure AgentFields (δ : Type) where
  id : String
  provider : String
  source : String
  name : Option String := none
  status : Option String := none
  capabilities : Option (List (String × Bool)) := none
  cwd : Option String := none
  pid : Option Nat := none
  lastActivityAt : Option String := none
  discovery : Option Discovery := none
  details : δ
  deriving DecidableEq

structure Agent (δ κ : Type) extends AgentFields δ where
  discoveredAt : Option String := none
  updatedAt : Option String := none
  repositoryContext : κ
  deriving DecidableEq

/-- Agents by id, in insertion order. -/
abbrev AgentMap (δ κ : Type) := InsertionMap fun agent : Agent δ κ => agent.id

/-! ### Views -/

/-- `ACTIVE_STATUSES`. -/
def activeStatuses : List String := ["working", "blocked"]

namespace AgentFields

variable {δ : Type} (agent : AgentFields δ)

/-- `agent.discovery?.visibility`. -/
def visibility? : Option Visibility := agent.discovery.bind Discovery.visibility

/-- The visibility of an agent that does not say. -/
def visibility : Visibility :=
  agent.visibility?.getD (if agent.status.any activeStatuses.contains then .active else .recent)

/-- `matchesView`. -/
def matchesView : Visibility → Bool
  | .active => agent.visibility == .active
  | .historical => agent.visibility == .historical
  | .raw => true
  | .recent => agent.visibility == .active || agent.visibility == .recent

/-- The process of an agent with a `pid`, as the key of `richByProcess`. -/
def processKey : Option (String × Nat) :=
  (agent.pid.filter (· ≠ 0)).map fun pid => (agent.provider, pid)

/-- `agent.discovery?.kind === "process"`. -/
def isProcess : Bool := agent.discovery.any fun discovery => discovery.kind == .process

/-- `hasAction`. -/
def hasAction : Bool := agent.capabilities.any fun capabilities => capabilities.any Prod.snd

end AgentFields

/-! ### `reconcileAgents` -/

section Reconcile

variable {δ κ : Type}

/-- The id of the last agent that is not a bare process record of a process. -/
def richByProcess (agents : List (Agent δ κ)) (key : String × Nat) : Option String :=
  ((agents.filter fun agent => !agent.isProcess && agent.processKey == some key).getLast?.map
    fun agent => agent.id).filter (· ≠ "")

/-- The agent that a process record duplicates. -/
def duplicateOf (agents : List (Agent δ κ)) (agent : Agent δ κ) : Option String :=
  if agent.isProcess then agent.processKey.bind (richByProcess agents) else none

/-- A process record that is marked as a duplicate. -/
def markDuplicate (agent : Agent δ κ) (id : String) : Agent δ κ :=
  { agent with
    discovery := agent.discovery.map fun discovery =>
      { discovery with visibility := some .raw, duplicateOf := some id } }

/-- What one agent contributes to the list. -/
def reconcileAgent (includeDuplicates : Bool) (agents : List (Agent δ κ)) (agent : Agent δ κ) :
    Option (Agent δ κ) :=
  if !includeDuplicates && agent.visibility? == some .raw then none
  else
    match duplicateOf agents agent with
    | none => some agent
    | some id => if includeDuplicates then some (markDuplicate agent id) else none

/-- `reconcileAgents`. -/
def reconcileAgents (agents : List (Agent δ κ)) (includeDuplicates : Bool) : List (Agent δ κ) :=
  agents.filterMap (reconcileAgent includeDuplicates agents)

/-- Whether `reconcileAgents` keeps an agent in the list without duplicates. -/
def isListed (agents : List (Agent δ κ)) (agent : Agent δ κ) : Bool :=
  agent.visibility? != some .raw && (duplicateOf agents agent).isNone

/-- The list without duplicates is a part of the stored agents. -/
theorem reconcileAgents_false (agents : List (Agent δ κ)) :
    reconcileAgents agents false = agents.filter (isListed agents) := by
  rw [← List.filterMap_eq_filter]
  refine List.filterMap_congr fun agent _ => ?_
  unfold reconcileAgent isListed
  cases hraw : agent.visibility? == some .raw <;>
    cases hdup : duplicateOf agents agent <;> simp_all [Option.guard]

end Reconcile

/-! ### `compareAgents` -/

/-- `STATUS_RANK`, 6 for anything else. -/
def statusRank (status : Option String) : Nat :=
  match status with
  | some "blocked" => 0
  | some "working" => 1
  | some "idle" => 2
  | some "unknown" => 3
  | some "done" => 4
  | some "error" => 5
  | _ => 6

/-- `Date.parse` of a text that may be missing: a time where it is finite. -/
def parseDate (dateParse : String → Option Int) (text : Option String) : Option Int :=
  dateParse (text.getD "")

/-- `compareActivity`: later times first, what is no time behind them. -/
def compareActivity (dateParse : String → Option Int) (left right : Option String) : Ordering :=
  match parseDate dateParse left, parseDate dateParse right with
  | some a, some b => compare b a
  | some _, none => .lt
  | none, some _ => .gt
  | none, none => compareTexts (right.getD "") (left.getD "")

/-- `compareAgents`. -/
def compareAgents {δ : Type} (dateParse : String → Option Int) : AgentFields δ → AgentFields δ →
    Ordering :=
  compareLex (compareOn fun agent => statusRank agent.status) <|
  compareLex (compareOn fun agent => !agent.hasAction) <|
  compareLex (compareOn fun agent => !(agent.visibility? == some .active)) <|
  compareLex (fun a b => compareActivity dateParse a.lastActivityAt b.lastActivityAt)
    fun a b => compareTexts a.id b.id

section Order

variable {δ : Type} (dateParse : String → Option Int)

instance : Std.TransCmp (compareActivity dateParse) where
  eq_swap := by
    intro a b
    unfold compareActivity
    cases parseDate dateParse a <;> cases parseDate dateParse b
    · exact Std.OrientedCmp.eq_swap
    · rfl
    · rfl
    · exact Std.OrientedOrd.eq_swap
  isLE_trans := by
    intro a b c
    unfold compareActivity
    cases parseDate dateParse a <;> cases parseDate dateParse b <;> cases parseDate dateParse c
    · exact fun hab hbc => Std.TransCmp.isLE_trans hbc hab
    · intro _ h; cases h
    · intro h; cases h
    · intro h; cases h
    · intro _ _; rfl
    · intro _ h; cases h
    · intro _ _; rfl
    · exact fun hab hbc => Std.TransOrd.isLE_trans hbc hab

instance {α : Type} (f : α → String) : Std.TransCmp fun a b => compareTexts (f a) (f b) where
  eq_swap := Std.OrientedCmp.eq_swap
  isLE_trans := Std.TransCmp.isLE_trans

instance {α : Type} (f : α → Option String) :
    Std.TransCmp fun a b => compareActivity dateParse (f a) (f b) where
  eq_swap := Std.OrientedCmp.eq_swap
  isLE_trans := Std.TransCmp.isLE_trans

instance : Std.TransCmp (compareAgents (δ := δ) dateParse) := by
  unfold compareAgents
  infer_instance

instance {κ : Type} : Std.TransCmp fun a b : Agent δ κ =>
    compareAgents dateParse a.toAgentFields b.toAgentFields where
  eq_swap := Std.OrientedCmp.eq_swap
  isLE_trans := Std.TransCmp.isLE_trans

/-- Agents with different ids are never tied. -/
theorem id_eq_of_compareAgents {a b : AgentFields δ} (h : compareAgents dateParse a b = .eq) :
    a.id = b.id := by
  unfold compareAgents at h
  simp only [compareLex_eq_eq] at h
  exact compareTexts_eq_iff.mp h.2.2.2.2

end Order

end AgentHost
