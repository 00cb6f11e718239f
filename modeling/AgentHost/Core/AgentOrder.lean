import AgentHost.Core.AgentPages
import AgentHost.Lib.JsonValue

namespace AgentHost

/-!
# The order in which agents are served

`pageAgents` sorts what it is given.  The sort is stable, so where the comparator does not tell two
agents apart the page follows the order of the input.

* `AgentFilter.Tied` — when the comparator does not tell two agents apart.  The tie-break of every
  order but `attention` compares folded ids, and ids that differ may fold to the same text.
* `compareAgents_strict` — `compareAgents` is a strict total order of agents with different ids.
* `served_order` — **Main**: the pages do not depend on the order of the input if and only if no two
  agents that the filter selects are tied.
-/

variable {δ κ : Type}

/-! ### The comparators are preorders -/

section Preorders

variable (texts : PageTexts)

instance : Std.TransCmp texts.compareText where
  eq_swap := by
    intro a b
    unfold PageTexts.compareText
    exact Std.OrientedCmp.eq_swap
  isLE_trans := by
    intro a b c
    unfold PageTexts.compareText
    exact Std.TransCmp.isLE_trans

/-- Times come after what is no time, and the latter is compared as text. -/
instance : Std.TransCmp texts.compareTimestamp where
  eq_swap := by
    intro a b
    unfold PageTexts.compareTimestamp
    cases parseDate texts.dateParse a <;> cases parseDate texts.dateParse b
    · exact Std.OrientedCmp.eq_swap
    · rfl
    · rfl
    · exact Std.OrientedOrd.eq_swap
  isLE_trans := by
    intro a b c
    unfold PageTexts.compareTimestamp
    cases parseDate texts.dateParse a <;> cases parseDate texts.dateParse b <;>
      cases parseDate texts.dateParse c
    · exact fun hab hbc => Std.TransCmp.isLE_trans hab hbc
    · intro _ _; rfl
    · intro _ h; cases h
    · intro _ _; rfl
    · intro h; cases h
    · intro h; cases h
    · intro _ h; cases h
    · exact fun hab hbc => Std.TransOrd.isLE_trans hab hbc

/-- A preorder that is read in a direction is a preorder. -/
instance transCmp_apply {α : Type*} (direction : SortDirection) (cmp : α → α → Ordering)
    [Std.TransCmp cmp] : Std.TransCmp fun a b => direction.apply (cmp a b) := by
  cases direction with
  | asc => exact inferInstanceAs (Std.TransCmp cmp)
  | desc =>
    have hswap : ∀ a b, cmp b a = (cmp a b).swap := fun _ _ => Std.OrientedCmp.eq_swap
    have htrans : ∀ a b c, (cmp a b).isLE → (cmp b c).isLE → (cmp a c).isLE :=
      fun _ _ _ => Std.TransCmp.isLE_trans
    -- to swap the result is to swap the arguments
    have hdesc : (fun a b => SortDirection.desc.apply (cmp a b)) = fun a b => cmp b a := by
      ext a b : 2
      exact (hswap a b).symm
    rw [hdesc]
    exact
      { eq_swap := fun {a b} => hswap a b
        isLE_trans := fun {a b c} hab hbc => htrans c b a hbc hab }

instance transCmp_textOf {α : Type*} (f : α → Option String) :
    Std.TransCmp fun a b => texts.compareText (f a) (f b) where
  eq_swap := Std.OrientedCmp.eq_swap
  isLE_trans := Std.TransCmp.isLE_trans

instance transCmp_timestampOf {α : Type*} (f : α → Option String) :
    Std.TransCmp fun a b => texts.compareTimestamp (f a) (f b) where
  eq_swap := Std.OrientedCmp.eq_swap
  isLE_trans := Std.TransCmp.isLE_trans

end Preorders

/-! ### Agents that are tied -/

namespace AgentFilter

variable (texts : PageTexts) (filter : AgentFilter)

/-- What the order of a filter compares before the ids. -/
def compareKeys (left right : Agent δ κ) : Ordering :=
  match filter.sort with
  | .attention => compareAgents texts.dateParse left.toAgentFields right.toAgentFields
  | .activity => texts.compareTimestamp left.activityAt right.activityAt
  | .status => texts.compareText left.status right.status
  | .provider => texts.compareText (some left.provider) (some right.provider)
  | .name => texts.compareText left.name right.name

instance : Std.TransCmp (filter.compareKeys (δ := δ) (κ := κ) texts) := by
  unfold compareKeys
  cases filter.sort <;> infer_instance

/-- The comparator of every order but `attention`: the keys, then the folded ids. -/
theorem comparator_eq (h : filter.sort ≠ .attention) :
    filter.comparator (δ := δ) (κ := κ) texts =
      compareLex (fun a b => filter.direction.apply (filter.compareKeys texts a b))
        fun a b => texts.compareText (some a.id) (some b.id) := by
  ext a b : 2
  unfold comparator compareKeys compareLex
  cases hsort : filter.sort with
  | attention => exact absurd hsort h
  | _ => rfl

theorem comparator_attention (h : filter.sort = .attention) :
    filter.comparator (δ := δ) (κ := κ) texts =
      fun a b => filter.direction.apply (filter.compareKeys texts a b) := by
  ext a b : 2
  unfold comparator compareKeys
  rw [h]

instance : Std.TransCmp (filter.comparator (δ := δ) (κ := κ) texts) := by
  by_cases h : filter.sort = .attention
  · rw [comparator_attention texts filter h]
    infer_instance
  · rw [comparator_eq texts filter h]
    infer_instance

end AgentFilter

namespace PageTexts

variable (texts : PageTexts)

/-- Texts that are compared as the same one. -/
def SameText (left right : Option String) : Prop :=
  texts.fold (left.getD "") = texts.fold (right.getD "")

/-- Timestamps that are compared as the same one: the same time, or the same text where neither is a
    time. -/
def SameTime (left right : Option String) : Prop :=
  parseDate texts.dateParse left = parseDate texts.dateParse right ∧
    (parseDate texts.dateParse left = none → texts.SameText left right)

theorem compareText_eq_iff {left right : Option String} :
    texts.compareText left right = .eq ↔ texts.SameText left right := compareTexts_eq_iff

theorem compareTimestamp_eq_iff {left right : Option String} :
    texts.compareTimestamp left right = .eq ↔ texts.SameTime left right := by
  unfold compareTimestamp SameTime
  cases hleft : parseDate texts.dateParse left <;> cases hright : parseDate texts.dateParse right
  · simp [compareText_eq_iff]
  · simp
  · simp
  · simp

end PageTexts

namespace AgentFilter

variable (texts : PageTexts) (filter : AgentFilter)

/-- Two agents that an order but `attention` does not tell apart: they are the same in what it
    compares, and their ids fold to the same text. -/
def Tied (left right : Agent δ κ) : Prop :=
  texts.SameText (some left.id) (some right.id) ∧
    match filter.sort with
    | .attention => left.id = right.id
    | .activity => texts.SameTime left.activityAt right.activityAt
    | .status => texts.SameText left.status right.status
    | .provider => texts.SameText (some left.provider) (some right.provider)
    | .name => texts.SameText left.name right.name

theorem apply_eq_iff {direction : SortDirection} {result : Ordering} :
    direction.apply result = .eq ↔ result = .eq := by
  cases direction
  · rfl
  · exact Ordering.swap_eq_eq

/-- What the comparator does not tell apart is tied. -/
theorem tied_of_comparator {left right : Agent δ κ}
    (h : filter.comparator texts left right = .eq) : filter.Tied texts left right := by
  by_cases hsort : filter.sort = .attention
  · rw [comparator_attention texts filter hsort, apply_eq_iff, compareKeys, hsort] at h
    have hid := id_eq_of_compareAgents texts.dateParse h
    refine ⟨congrArg texts.fold hid, ?_⟩
    rw [hsort]
    exact hid
  · rw [comparator_eq texts filter hsort, compareLex_eq_eq, apply_eq_iff,
      texts.compareText_eq_iff] at h
    refine ⟨h.2, ?_⟩
    have hkeys := h.1
    unfold compareKeys at hkeys
    cases hs : filter.sort with
    | attention => exact absurd hs hsort
    | activity => rw [hs] at hkeys; exact (texts.compareTimestamp_eq_iff).mp hkeys
    | name | provider | status => rw [hs] at hkeys; exact (texts.compareText_eq_iff).mp hkeys

/-- Agents that are tied and have different ids are not told apart. -/
theorem comparator_of_tied {left right : Agent δ κ} (h : filter.Tied texts left right)
    (hid : left.id ≠ right.id) : filter.comparator texts left right = .eq := by
  obtain ⟨hids, hkeys⟩ := h
  by_cases hsort : filter.sort = .attention
  · rw [hsort] at hkeys
    exact absurd hkeys hid
  · rw [comparator_eq texts filter hsort, compareLex_eq_eq, apply_eq_iff]
    refine ⟨?_, (texts.compareText_eq_iff).mpr hids⟩
    unfold compareKeys
    cases hs : filter.sort with
    | attention => exact absurd hs hsort
    | activity => rw [hs] at hkeys; exact (texts.compareTimestamp_eq_iff).mpr hkeys
    | name | provider | status => rw [hs] at hkeys; exact (texts.compareText_eq_iff).mpr hkeys

end AgentFilter

/-! ### Pages of a permuted list -/

section Permutations

variable {texts : PageTexts} {filter : AgentFilter} {agents agents' : List (Agent δ κ)}

theorem pageIds_eq (query : AgentQuery) (revision : CursorRevision) :
    pageIds texts agents query revision =
      if query.offset > (query.filter.select texts agents).length then .error cursorOutside
      else .ok ((((query.filter.select texts agents).map fun agent => agent.id).drop
        query.offset).take query.limit) := by
  unfold pageIds pageAgents
  dsimp only
  split
  · rfl
  · show Except.ok (List.map _ _) = _
    rw [List.map_take, List.map_drop]

/-- The pages of one agent each are all that is selected. -/
theorem select_of_pageIds (hperm : agents'.Perm agents)
    (h : ∀ offset, pageIds texts agents' ⟨filter, offset, 1⟩ (.live 0) =
      pageIds texts agents ⟨filter, offset, 1⟩ (.live 0)) :
    (filter.select texts agents').map (fun agent => agent.id) =
      (filter.select texts agents).map fun agent => agent.id := by
  have hlength : (filter.select texts agents').length = (filter.select texts agents).length :=
    ((perm_sortBy _ _).trans ((hperm.filter _).trans (perm_sortBy _ _).symm)).length_eq
  refine List.ext_getElem? fun n => ?_
  have hpage := h n
  rw [pageIds_eq, pageIds_eq] at hpage
  dsimp only at hpage
  rw [hlength] at hpage
  by_cases hn : n > (filter.select texts agents).length
  · rw [List.getElem?_eq_none, List.getElem?_eq_none]
    · rw [List.length_map]; omega
    · rw [List.length_map]; omega
  · rw [if_neg hn, if_neg hn] at hpage
    have hhead := congrArg List.head? (Except.ok.inj hpage)
    simpa [List.head?_take, List.head?_drop] using hhead

/-- Without ties among them, the selected agents do not depend on the order of the input. -/
theorem select_perm (hperm : agents'.Perm agents)
    (hties : ∀ a ∈ agents, ∀ b ∈ agents, filter.accepts texts a.toAgentFields = true →
      filter.accepts texts b.toAgentFields = true → filter.Tied texts a b → a = b) :
    filter.select texts agents' = filter.select texts agents := by
  have hfilter := hperm.filter fun agent => filter.accepts texts agent.toAgentFields
  refine (sortBy_eq_of_perm (filter.comparator texts) hfilter.symm ?_).symm
  intro a ha b hb heq
  rw [List.mem_filter] at ha hb
  exact hties a ha.1 b hb.1 ha.2 hb.2 (filter.tied_of_comparator texts heq)

/-- Two elements of a list without duplicates stand in one order only. -/
theorem not_sublist_swap {α : Type*} {l : List α} (h : l.Nodup) {a b : α}
    (hab : [a, b].Sublist l) : ¬ [b, a].Sublist l := by
  intro hba
  induction l with
  | nil => cases hab
  | cons c l ih =>
    rw [List.nodup_cons] at h
    cases hab with
    | cons _ hab =>
      cases hba with
      | cons _ hba => exact ih h.2 hab hba
      | cons_cons _ hba => exact h.1 (hab.subset (List.mem_cons_of_mem _ List.mem_cons_self))
    | cons_cons _ hab =>
      cases hba with
      | cons _ hba => exact h.1 (hba.subset (List.mem_cons_of_mem _ List.mem_cons_self))
      | cons_cons _ hba => exact h.1 (hba.subset List.mem_cons_self)

/-- Agents that are tied are served in the order of the input. -/
theorem sublist_select_of_tied {a b : Agent δ κ} (rest : List (Agent δ κ))
    (ha : filter.accepts texts a.toAgentFields = true)
    (hb : filter.accepts texts b.toAgentFields = true) (htied : filter.Tied texts a b)
    (hid : a.id ≠ b.id) : [a.id, b.id].Sublist
      ((filter.select texts (a :: b :: rest)).map fun agent => agent.id) := by
  have hpair : [a, b].Sublist ((a :: b :: rest).filter fun agent =>
      filter.accepts texts agent.toAgentFields) := by
    rw [List.filter_cons, if_pos ha, List.filter_cons, if_pos hb]
    exact .cons_cons _ (.cons_cons _ (List.nil_sublist _))
  have hle : (filter.comparator texts a b).isLE = true := by
    rw [filter.comparator_of_tied texts htied hid]
    rfl
  exact (pair_sublist_sortBy hle hpair).map fun agent => agent.id

theorem AgentFilter.Tied.symm {a b : Agent δ κ} (h : filter.Tied texts a b) :
    filter.Tied texts b a := by
  obtain ⟨hids, hkeys⟩ := h
  refine ⟨Eq.symm hids, ?_⟩
  cases hs : filter.sort with
  | attention => rw [hs] at hkeys; exact Eq.symm hkeys
  | activity =>
    rw [hs] at hkeys
    exact ⟨hkeys.1.symm, fun hnone => Eq.symm (hkeys.2 (hkeys.1.trans hnone))⟩
  | name | provider | status => rw [hs] at hkeys; exact Eq.symm hkeys

end Permutations

/-! ### The main theorem -/

/-- A comparator that is a strict total order of elements with different keys. -/
structure StrictTotalBy {α β : Type*} (cmp : α → α → Ordering) (key : α → β) : Prop where
  irrefl : ∀ a, cmp a a ≠ .lt
  trans : ∀ a b c, cmp a b = .lt → cmp b c = .lt → cmp a c = .lt
  total : ∀ a b, key a ≠ key b → cmp a b = .lt ∧ cmp b a = .gt ∨ cmp a b = .gt ∧ cmp b a = .lt

/-- `compareAgents` is a strict total order of agents with different ids. -/
theorem compareAgents_strict (dateParse : String → Option Int) :
    StrictTotalBy (compareAgents (δ := δ) dateParse) fun agent => agent.id where
  irrefl := by
    intro a h
    have hself : compareAgents dateParse a a = .eq := Std.ReflCmp.compare_self
    rw [hself] at h
    cases h
  trans := fun a b c => Std.TransCmp.lt_trans
  total := by
    intro a b hid
    cases h : compareAgents dateParse a b with
    | lt => exact .inl ⟨rfl, Std.OrientedCmp.gt_iff_lt.mpr h⟩
    | gt => exact .inr ⟨rfl, Std.OrientedCmp.gt_iff_lt.mp h⟩
    | eq => exact absurd (id_eq_of_compareAgents dateParse h) hid

/-- Where every order of the input has the same pages, no two selected agents are tied. -/
theorem id_eq_of_tied {texts : PageTexts} {filter : AgentFilter} {agents : List (Agent δ κ)}
    (hids : (agents.map fun agent => agent.id).Nodup)
    (hpages : ∀ agents' : List (Agent δ κ), agents'.Perm agents → ∀ offset,
      pageIds texts agents' ⟨filter, offset, 1⟩ (.live 0) =
        pageIds texts agents ⟨filter, offset, 1⟩ (.live 0))
    {a b : Agent δ κ} (ha : a ∈ agents) (hb : b ∈ agents)
    (hacca : filter.accepts texts a.toAgentFields = true)
    (haccb : filter.accepts texts b.toAgentFields = true) (htied : filter.Tied texts a b) :
    a.id = b.id := by
  by_contra hid
  -- the two lists that begin with the tied agents, one way round and the other
  have hpermCons : ∀ {x : Agent δ κ} {l : List (Agent δ κ)}, x ∈ l → ∃ l', l.Perm (x :: l') := by
    intro x l hx
    obtain ⟨left, right, rfl⟩ := List.append_of_mem hx
    exact ⟨left ++ right, List.perm_middle⟩
  obtain ⟨others, hothers⟩ := hpermCons ha
  have hmem : b ∈ others := by
    rcases List.mem_cons.mp (hothers.mem_iff.mp hb) with rfl | h
    · exact absurd rfl hid
    · exact h
  obtain ⟨rest, hrest⟩ := hpermCons hmem
  have hab : (a :: b :: rest).Perm agents := ((hothers.trans (hrest.cons a))).symm
  have hba : (b :: a :: rest).Perm agents := (List.Perm.swap a b rest).trans hab
  have hforward := sublist_select_of_tied rest hacca haccb htied hid
  have hbackward := sublist_select_of_tied rest haccb hacca htied.symm (Ne.symm hid)
  rw [select_of_pageIds hab (hpages _ hab)] at hforward
  rw [select_of_pageIds hba (hpages _ hba)] at hbackward
  exact not_sublist_swap (nodup_select texts filter hids) hforward hbackward

/-- **Main.** `compareAgents` is a strict total order, and the pages of a list of agents with different
    ids do not depend on its order if and only if no two of the selected agents are tied. -/
theorem served_order (texts : PageTexts) (filter : AgentFilter) (agents : List (Agent δ κ))
    (hids : (agents.map fun agent => agent.id).Nodup) :
    StrictTotalBy (compareAgents (δ := δ) texts.dateParse) (fun agent => agent.id) ∧
    ((∀ agents' : List (Agent δ κ), agents'.Perm agents → ∀ offset limit, 1 ≤ limit → limit ≤ 200 →
        ∀ revision, pageIds texts agents' ⟨filter, offset, limit⟩ revision =
          pageIds texts agents ⟨filter, offset, limit⟩ revision) ↔
      ∀ a ∈ agents, ∀ b ∈ agents, filter.accepts texts a.toAgentFields = true →
        filter.accepts texts b.toAgentFields = true → filter.Tied texts a b → a.id = b.id) := by
  refine ⟨compareAgents_strict texts.dateParse, fun hpages a ha b hb hacca haccb htied => ?_,
    fun hties agents' hperm offset limit _ _ revision => ?_⟩
  · exact id_eq_of_tied hids
      (fun agents' hperm offset => hpages agents' hperm offset 1 (by omega) (by omega) _)
      ha hb hacca haccb htied
  · rw [pageIds_eq, pageIds_eq]
    dsimp only
    rw [select_perm hperm fun a ha b hb hacca haccb htied =>
      List.inj_on_of_nodup_map hids ha hb (hties a ha b hb hacca haccb htied)]

/-- Functions on texts that are as those of the language on ASCII texts without dates. -/
def asciiTexts : PageTexts where
  toLocaleLowerCase := toLowerCase
  fold := toLowerCase
  dateParse := fun _ => none

/-- An agent of which nothing but the id is known. -/
def bareAgent (id : String) : Agent Unit Unit where
  id := id
  provider := "tmux"
  source := "tmux"
  details := ()
  repositoryContext := ()

/-- `view=raw&sort=name`. -/
def rawByName : AgentFilter := ⟨.raw, [], [], "", "", .name, .asc⟩

theorem served_order_sample :
    StrictTotalBy (compareAgents (δ := Unit) asciiTexts.dateParse) (fun agent => agent.id) ∧
    ((∀ agents' : List (Agent Unit Unit), agents'.Perm [bareAgent "a", bareAgent "b"] →
        ∀ offset limit, 1 ≤ limit → limit ≤ 200 → ∀ revision,
          pageIds asciiTexts agents' ⟨rawByName, offset, limit⟩ revision =
            pageIds asciiTexts [bareAgent "a", bareAgent "b"] ⟨rawByName, offset, limit⟩ revision) ↔
      ∀ a ∈ [bareAgent "a", bareAgent "b"], ∀ b ∈ [bareAgent "a", bareAgent "b"],
        rawByName.accepts asciiTexts a.toAgentFields = true →
        rawByName.accepts asciiTexts b.toAgentFields = true →
        rawByName.Tied asciiTexts a b → a.id = b.id) :=
  served_order asciiTexts rawByName [bareAgent "a", bareAgent "b"] (by decide)

/-- The agents `tmux:A` and `tmux:a` are served in the order in which they are listed. -/
theorem served_order_follows_input :
    ¬ ∀ (texts : PageTexts) (filter : AgentFilter) (agents agents' : List (Agent Unit Unit)),
      (agents.map fun agent => agent.id).Nodup → agents'.Perm agents → ∀ offset limit, 1 ≤ limit →
      limit ≤ 200 → ∀ revision, pageIds texts agents' ⟨filter, offset, limit⟩ revision =
        pageIds texts agents ⟨filter, offset, limit⟩ revision := by
  intro h
  have hpages := h asciiTexts rawByName [bareAgent "tmux:A", bareAgent "tmux:a"]
    [bareAgent "tmux:a", bareAgent "tmux:A"] (by decide) (List.Perm.swap _ _ _) 0 50 (by decide)
    (by decide) (.live 1)
  revert hpages
  simp only [pageIds_eq]
  decide

end AgentHost
