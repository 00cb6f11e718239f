import Mathlib
import AgentHost.Lib.JsonTexts
import AgentHost.Lib.SortBy

/-!
# Canonical texts of transcript records (`cursor-artifacts.js`, `canonicalJson`)

* `canonicalJson` — the text of a record with sorted keys, where the record is not too complex.
* `JsonValue.sortKeys` — the record with sorted keys; `JsonValue.same` — records that differ at most in the
  order of keys.
* `canonicalJson_eq` — the text is that of the record with sorted keys.
* `canonicalJson_eq_iff` — **Main**: records have the same text exactly when they are the same.
-/

namespace CursorArtifacts

open JsonValue

/-! ### The code -/

/-- One node more, where there are not too many. -/
def countNode {α : Type} (maxNodes nodes : Nat) (next : Nat → Option α) : Option α :=
  if maxNodes < nodes + 1 then none else next (nodes + 1)

/-- Texts with commas between them. -/
def joinTexts (texts : List (List Char)) : List Char := (texts.intersperse [',']).flatten

mutual

/-- `visit`, which counts the nodes.  The members are visited in the order in which they stand and sorted
    then; the count does not depend on it. -/
def visit (maxNodes : Nat) : JsonValue → Nat → Option (List Char × Nat)
  | .null, nodes => countNode maxNodes nodes fun nodes => some ("null".toList, nodes)
  | .bool true, nodes => countNode maxNodes nodes fun nodes => some ("true".toList, nodes)
  | .bool false, nodes => countNode maxNodes nodes fun nodes => some ("false".toList, nodes)
  | .string s, nodes => countNode maxNodes nodes fun nodes => some (quoted s, nodes)
  | .number (some q), nodes => countNode maxNodes nodes fun nodes => some (NumberText.text q, nodes)
  -- a number that is not finite
  | .number none, _ => none
  | .array items, nodes => countNode maxNodes nodes fun nodes =>
    (visitItems maxNodes items nodes).map fun p => ('[' :: (joinTexts p.1 ++ [']']), p.2)
  | .object members, nodes => countNode maxNodes nodes fun nodes =>
    (visitMembers maxNodes members nodes).map fun p =>
      let entries := sortBy (fun a b => compareTexts a.1 b.1) p.1
      let texts := entries.map fun entry => quoted entry.1 ++ ':' :: entry.2
      ('\x7b' :: (joinTexts texts ++ ['\x7d']), p.2)

def visitItems (maxNodes : Nat) : List JsonValue → Nat → Option (List (List Char) × Nat)
  | [], nodes => some ([], nodes)
  | item :: items, nodes => do
    let (text, nodes) ← visit maxNodes item nodes
    let (texts, nodes) ← visitItems maxNodes items nodes
    return (text :: texts, nodes)

def visitMembers (maxNodes : Nat) :
    List (String × JsonValue) → Nat → Option (List (String × List Char) × Nat)
  | [], nodes => some ([], nodes)
  | (name, value) :: members, nodes => do
    let (text, nodes) ← visit maxNodes value nodes
    let (entries, nodes) ← visitMembers maxNodes members nodes
    return ((name, text) :: entries, nodes)

end

/-- `canonicalJson`, where it does not throw. -/
def canonicalJson (value : JsonValue) (maxNodes : Nat) : Option String :=
  (visit maxNodes value 0).map fun p => String.ofList p.1

end CursorArtifacts

/-! ### Records with sorted keys -/

namespace JsonValue

/-- The order of members by their names. -/
def compareMembers {α : Type} (a b : String × α) : Ordering := compareTexts a.1 b.1

instance {α : Type} : Std.TransCmp (compareMembers (α := α)) where
  eq_swap := by
    intro a b
    show compareTexts a.1 b.1 = (compareTexts b.1 a.1).swap
    exact Std.OrientedCmp.eq_swap
  isLE_trans := by
    intro a b c hab hbc
    show (compareTexts a.1 c.1).isLE = true
    exact Std.TransCmp.isLE_trans (b := b.1) hab hbc

mutual

/-- The value with sorted keys. -/
def sortKeys : JsonValue → JsonValue
  | .array items => .array (sortItems items)
  | .object members => .object (sortBy compareMembers (sortMembers members))
  | value => value

def sortItems : List JsonValue → List JsonValue
  | [] => []
  | item :: items => sortKeys item :: sortItems items

def sortMembers : List (String × JsonValue) → List (String × JsonValue)
  | [] => []
  | (name, value) :: members => (name, sortKeys value) :: sortMembers members

end

mutual

/-- Values that are equal but for the order of keys. -/
def same : JsonValue → JsonValue → Prop
  | .null, .null => True
  | .bool a, .bool b => a = b
  | .number a, .number b => a = b
  | .string a, .string b => a = b
  | .array as, .array bs => sameItems as bs
  | .object as, .object bs => as.length = bs.length ∧ sameMembers as bs
  | _, _ => False

def sameItems : List JsonValue → List JsonValue → Prop
  | [], [] => True
  | a :: as, b :: bs => same a b ∧ sameItems as bs
  | _, _ => False

/-- Every member has one of its name and value among the others. -/
def sameMembers : List (String × JsonValue) → List (String × JsonValue) → Prop
  | [], _ => True
  | (name, value) :: members, others =>
    (∃ other, memberOf others name = some other ∧ same value other) ∧ sameMembers members others

end

theorem sortItems_eq (items : List JsonValue) : sortItems items = items.map sortKeys := by
  induction items with
  | nil => rfl
  | cons item items ih => rw [sortItems, ih, List.map_cons]

theorem sortMembers_eq (members : List (String × JsonValue)) :
    sortMembers members = members.map fun member => (member.1, member.2.sortKeys) := by
  induction members with
  | nil => rfl
  | cons member members ih => rw [sortMembers, ih, List.map_cons]

theorem names_sortMembers (members : List (String × JsonValue)) :
    (sortMembers members).map Prod.fst = members.map Prod.fst := by
  rw [sortMembers_eq, List.map_map]
  rfl

/-! ### Sorted values are well-formed -/

mutual

theorem wellFormed_sortKeys : ∀ v : JsonValue, v.wellFormed = true → v.sortKeys.wellFormed = true
  | .null, _ => rfl
  | .bool _, _ => rfl
  | .number _, h => h
  | .string _, _ => rfl
  | .array items, h => by
    rw [sortKeys, wellFormed]
    exact wellFormed_sortItems items h
  | .object members, h => by
    rw [wellFormed, Bool.and_eq_true] at h
    have hperm := perm_sortBy compareMembers (sortMembers members)
    rw [sortKeys, wellFormed, Bool.and_eq_true]
    constructor
    · refine decide_eq_true ((hperm.map Prod.fst).nodup_iff.mpr ?_)
      rw [names_sortMembers]
      exact of_decide_eq_true h.1
    · rw [wellFormedMembers_iff]
      intro member hmember
      exact wellFormedMembers_iff.mp (wellFormed_sortMembers members h.2) member
        (hperm.mem_iff.mp hmember)

theorem wellFormed_sortItems : ∀ items : List JsonValue, wellFormedItems items = true →
    wellFormedItems (sortItems items) = true
  | [], _ => rfl
  | item :: items, h => by
    rw [wellFormedItems, Bool.and_eq_true] at h
    rw [sortItems, wellFormedItems, wellFormed_sortKeys item h.1, wellFormed_sortItems items h.2]
    rfl

theorem wellFormed_sortMembers : ∀ members : List (String × JsonValue),
    wellFormedMembers members = true → wellFormedMembers (sortMembers members) = true
  | [], _ => rfl
  | (_, value) :: members, h => by
    rw [wellFormedMembers, Bool.and_eq_true] at h
    rw [sortMembers, wellFormedMembers, wellFormed_sortKeys value h.1,
      wellFormed_sortMembers members h.2]
    rfl

end

/-! ### Sorted values are equal exactly when the values are the same -/

theorem memberOf_of_mem {members : List (String × JsonValue)} (hnames : (members.map Prod.fst).Nodup)
    {member : String × JsonValue} (h : member ∈ members) :
    memberOf members member.1 = some member.2 := by
  induction members with
  | nil => cases h
  | cons first members ih =>
    obtain ⟨name, value⟩ := first
    rw [List.map_cons, List.nodup_cons] at hnames
    rw [memberOf_cons]
    rcases List.mem_cons.mp h with rfl | hrest
    · rw [if_pos rfl]
    · have hne : name ≠ member.1 := by
        intro hname
        exact hnames.1 (List.mem_map.mpr ⟨member, hrest, hname.symm⟩)
      rw [if_neg hne, ih hnames.2 hrest]

theorem mem_of_memberOf {members : List (String × JsonValue)} {name : String} {value : JsonValue}
    (h : memberOf members name = some value) : (name, value) ∈ members := by
  rw [memberOf, Option.map_eq_some_iff] at h
  obtain ⟨member, hfind, rfl⟩ := h
  have hname := List.find?_some hfind
  rw [decide_eq_true_eq] at hname
  rw [← hname]
  exact List.mem_of_find?_eq_some hfind

/-- Members with names of their own are told apart by their names. -/
theorem eq_of_compareMembers {members : List (String × JsonValue)}
    (hnames : (members.map Prod.fst).Nodup) :
    ∀ a ∈ members, ∀ b ∈ members, compareMembers a b = .eq → a = b := by
  intro a ha b hb h
  have hname : a.1 = b.1 := compareTexts_eq_iff.mp h
  have hleft := memberOf_of_mem hnames ha
  have hright := memberOf_of_mem hnames hb
  rw [hname, hright] at hleft
  exact Prod.ext hname (Option.some.inj hleft).symm

/-- Sorted members are equal exactly when they are permutations of each other. -/
theorem sortBy_eq_iff {members others : List (String × JsonValue)}
    (hnames : (members.map Prod.fst).Nodup) :
    sortBy compareMembers members = sortBy compareMembers others ↔ members.Perm others := by
  constructor
  · intro h
    have hperm := perm_sortBy compareMembers members
    rw [h] at hperm
    exact hperm.symm.trans (perm_sortBy compareMembers others)
  · exact fun h => sortBy_eq_of_perm compareMembers h (eq_of_compareMembers hnames)

mutual

theorem sortKeys_eq_iff : ∀ v w : JsonValue, v.wellFormed = true → w.wellFormed = true →
    (v.sortKeys = w.sortKeys ↔ same v w)
  | .null, w, _, _ => by cases w <;> simp [sortKeys, same]
  | .bool _, w, _, _ => by cases w <;> simp [sortKeys, same]
  | .number _, w, _, _ => by cases w <;> simp [sortKeys, same]
  | .string _, w, _, _ => by cases w <;> simp [sortKeys, same]
  | .array items, w, hv, hw => by
    cases w with
    | array others =>
      rw [sortKeys, sortKeys, array.injEq, same]
      exact sortItems_eq_iff items others hv hw
    | _ => simp [sortKeys, same]
  | .object members, w, hv, hw => by
    cases w with
    | object others =>
      rw [wellFormed, Bool.and_eq_true] at hv hw
      have hnames : ((sortMembers members).map Prod.fst).Nodup := by
        rw [names_sortMembers]
        exact of_decide_eq_true hv.1
      have hothers : ((sortMembers others).map Prod.fst).Nodup := by
        rw [names_sortMembers]
        exact of_decide_eq_true hw.1
      have hmembers := sortMembers_subset_iff members others hv.2 hw.2 (of_decide_eq_true hw.1)
      rw [sortKeys, sortKeys, object.injEq, sortBy_eq_iff hnames, same, ← hmembers]
      have hlength : ∀ list : List (String × JsonValue), (sortMembers list).length = list.length := by
        intro list
        rw [sortMembers_eq, List.length_map]
      constructor
      · intro hperm
        refine ⟨?_, hperm.subset⟩
        rw [← hlength members, ← hlength others]
        exact hperm.length_eq
      · rintro ⟨hsame, hsubset⟩
        refine (List.subperm_of_subset hnames.of_map hsubset).perm_of_length_le ?_
        rw [hlength, hlength, hsame]
    | _ => simp [sortKeys, same]

theorem sortItems_eq_iff : ∀ items others : List JsonValue, wellFormedItems items = true →
    wellFormedItems others = true → (sortItems items = sortItems others ↔ sameItems items others)
  | [], [], _, _ => by simp [sameItems]
  | [], _ :: _, _, _ => by simp [sortItems, sameItems]
  | _ :: _, [], _, _ => by simp [sortItems, sameItems]
  | item :: items, other :: others, h, h' => by
    rw [wellFormedItems, Bool.and_eq_true] at h h'
    rw [sortItems, sortItems, List.cons.injEq, sameItems, sortKeys_eq_iff item other h.1 h'.1,
      sortItems_eq_iff items others h.2 h'.2]

theorem sortMembers_subset_iff : ∀ members others : List (String × JsonValue),
    wellFormedMembers members = true → wellFormedMembers others = true →
    (others.map Prod.fst).Nodup →
    (sortMembers members ⊆ sortMembers others ↔ sameMembers members others)
  | [], _, _, _, _ => by simp [sortMembers, sameMembers]
  | (name, value) :: members, others, h, h', hnames => by
    rw [wellFormedMembers, Bool.and_eq_true] at h
    rw [sortMembers, List.cons_subset, sameMembers,
      sortMembers_subset_iff members others h.2 h' hnames]
    refine and_congr_left fun _ => ?_
    rw [sortMembers_eq, List.mem_map]
    constructor
    · rintro ⟨member, hmember, heq⟩
      obtain ⟨hname, hvalue⟩ := Prod.mk.inj heq
      refine ⟨member.2, by rw [← hname]; exact memberOf_of_mem hnames hmember, ?_⟩
      rw [← sortKeys_eq_iff value member.2 h.1 (wellFormedMembers_iff.mp h' member hmember)]
      exact hvalue.symm
    · rintro ⟨other, hother, hsame⟩
      have hmember := mem_of_memberOf hother
      refine ⟨(name, other), hmember, ?_⟩
      rw [Prod.mk.injEq]
      refine ⟨rfl, ?_⟩
      exact ((sortKeys_eq_iff value other h.1
        (wellFormedMembers_iff.mp h' _ hmember)).mpr hsame).symm

end

end JsonValue

namespace CursorArtifacts

open JsonValue

/-! ### The text of a record -/

theorem countNode_eq_some {α : Type} {maxNodes nodes : Nat} {next : Nat → Option α} {result : α}
    (h : countNode maxNodes nodes next = some result) : next (nodes + 1) = some result := by
  unfold countNode at h
  split at h
  · cases h
  · exact h

theorem joinTexts_cons (text : List Char) (texts : List (List Char)) :
    joinTexts (text :: texts) = text ++ texts.flatMap fun next => ',' :: next := by
  induction texts generalizing text with
  | nil => simp [joinTexts]
  | cons next texts ih =>
    have hstep : joinTexts (text :: next :: texts) = text ++ ',' :: joinTexts (next :: texts) := by
      simp [joinTexts]
    rw [hstep, ih, List.flatMap_cons]
    rfl

mutual

/-- On one line the depth does not matter. -/
theorem render_depth : ∀ (v : JsonValue) (depth : Nat), render 0 depth v = render 0 0 v
  | .null, _ => rfl
  | .bool true, _ => rfl
  | .bool false, _ => rfl
  | .number (some _), _ => rfl
  | .number none, _ => rfl
  | .string _, _ => rfl
  | .array [], _ => rfl
  | .array (item :: items), depth => by
    rw [render, render, render_depth item (depth + 1), render_depth item 1,
      moreItems_depth items (depth + 1), moreItems_depth items 1]
    rfl
  | .object [], _ => rfl
  | .object ((_, value) :: members), depth => by
    rw [render, render, render_depth value (depth + 1), render_depth value 1,
      moreMembers_depth members (depth + 1), moreMembers_depth members 1]
    rfl

theorem moreItems_depth : ∀ (items : List JsonValue) (depth : Nat),
    moreItems 0 depth items = (items.map (render 0 0)).flatMap fun next => ',' :: next
  | [], _ => rfl
  | item :: items, depth => by
    rw [moreItems, render_depth item depth, moreItems_depth items depth, List.map_cons,
      List.flatMap_cons]
    rfl

theorem moreMembers_depth : ∀ (members : List (String × JsonValue)) (depth : Nat),
    moreMembers 0 depth members =
      (members.map fun member => quoted member.1 ++ ':' :: member.2.render 0 0).flatMap
        fun next => ',' :: next
  | [], _ => rfl
  | (name, value) :: members, depth => by
    rw [moreMembers, render_depth value depth, moreMembers_depth members depth, List.map_cons,
      List.flatMap_cons]
    show ',' :: ([] ++ (quoted name ++ ([':'] ++ _))) = _
    simp

end

theorem render_items (items : List JsonValue) :
    (JsonValue.array items).render 0 0 = '[' :: (joinTexts (items.map (render 0 0)) ++ [']']) := by
  cases items with
  | nil => rfl
  | cons item items =>
    rw [render, moreItems_depth, render_depth, List.map_cons, joinTexts_cons]
    show '[' :: ([] ++ (_ ++ (_ ++ ([] ++ [']'])))) = _
    simp

theorem render_members (members : List (String × JsonValue)) :
    (JsonValue.object members).render 0 0 = '\x7b' ::
      (joinTexts (members.map fun member => quoted member.1 ++ ':' :: member.2.render 0 0) ++
        ['\x7d']) := by
  cases members with
  | nil => rfl
  | cons member members =>
    obtain ⟨name, value⟩ := member
    rw [render, moreMembers_depth, render_depth, List.map_cons, joinTexts_cons]
    show '\x7b' :: ([] ++ (quoted name ++ ([':'] ++ (_ ++ (_ ++ ([] ++ ['\x7d'])))))) = _
    simp

mutual

theorem visit_text {maxNodes : Nat} : ∀ (v : JsonValue) (nodes : Nat) (result : List Char × Nat),
    visit maxNodes v nodes = some result → result.1 = v.sortKeys.render 0 0
  | .null, nodes, result, h => by
    rw [visit] at h
    cases countNode_eq_some h
    rfl
  | .bool true, nodes, result, h => by
    rw [visit] at h
    cases countNode_eq_some h
    rfl
  | .bool false, nodes, result, h => by
    rw [visit] at h
    cases countNode_eq_some h
    rfl
  | .string s, nodes, result, h => by
    rw [visit] at h
    cases countNode_eq_some h
    rfl
  | .number (some q), nodes, result, h => by
    rw [visit] at h
    cases countNode_eq_some h
    rfl
  | .number none, nodes, result, h => by
    rw [visit] at h
    cases h
  | .array items, nodes, result, h => by
    rw [visit] at h
    obtain ⟨p, hitems, rfl⟩ := Option.map_eq_some_iff.mp (countNode_eq_some h)
    rw [sortKeys, render_items, ← visitItems_texts items _ p hitems]
  | .object members, nodes, result, h => by
    rw [visit] at h
    obtain ⟨p, hmembers, rfl⟩ := Option.map_eq_some_iff.mp (countNode_eq_some h)
    have hentries := visitMembers_entries members _ p hmembers
    have hsorted : sortBy (fun a b => compareTexts a.1 b.1) p.1 =
        (sortBy compareMembers (sortMembers members)).map fun member =>
          (member.1, member.2.render 0 0) := by
      rw [hentries]
      exact (map_sortBy (fun member : String × JsonValue => (member.1, member.2.render 0 0))
        (sortMembers members) fun _ _ _ _ => rfl).symm
    dsimp only
    rw [sortKeys, render_members, hsorted, List.map_map]
    rfl

theorem visitItems_texts {maxNodes : Nat} : ∀ (items : List JsonValue) (nodes : Nat)
    (result : List (List Char) × Nat), visitItems maxNodes items nodes = some result →
      result.1 = (sortItems items).map (render 0 0)
  | [], nodes, result, h => by
    rw [visitItems] at h
    cases h
    rfl
  | item :: items, nodes, result, h => by
    rw [visitItems] at h
    obtain ⟨p, hitem, h⟩ := Option.bind_eq_some_iff.mp h
    obtain ⟨p', hitems, h⟩ := Option.bind_eq_some_iff.mp h
    cases h
    rw [sortItems, List.map_cons, ← visit_text item _ p hitem, ← visitItems_texts items _ p' hitems]

theorem visitMembers_entries {maxNodes : Nat} : ∀ (members : List (String × JsonValue)) (nodes : Nat)
    (result : List (String × List Char) × Nat), visitMembers maxNodes members nodes = some result →
      result.1 = (sortMembers members).map fun member => (member.1, member.2.render 0 0)
  | [], nodes, result, h => by
    rw [visitMembers] at h
    cases h
    rfl
  | (name, value) :: members, nodes, result, h => by
    rw [visitMembers] at h
    obtain ⟨p, hvalue, h⟩ := Option.bind_eq_some_iff.mp h
    obtain ⟨p', hmembers, h⟩ := Option.bind_eq_some_iff.mp h
    cases h
    rw [sortMembers, List.map_cons, ← visit_text value _ p hvalue,
      ← visitMembers_entries members _ p' hmembers]

end

mutual

/-- A record that has a canonical text has finite numbers only. -/
theorem wellFormed_of_visit {maxNodes : Nat} : ∀ (v : JsonValue) (nodes : Nat)
    (result : List Char × Nat), v.proper = true → visit maxNodes v nodes = some result →
      v.wellFormed = true
  | .null, _, _, _, _ => rfl
  | .bool _, _, _, _, _ => rfl
  | .string _, _, _, _, _ => rfl
  | .number (some _), _, _, hv, _ => hv
  | .number none, nodes, result, _, h => by
    rw [visit] at h
    cases h
  | .array items, nodes, result, hv, h => by
    rw [visit] at h
    obtain ⟨p, hitems, _⟩ := Option.map_eq_some_iff.mp (countNode_eq_some h)
    rw [wellFormed]
    exact wellFormed_of_visitItems items _ p hv hitems
  | .object members, nodes, result, hv, h => by
    rw [visit] at h
    obtain ⟨p, hmembers, _⟩ := Option.map_eq_some_iff.mp (countNode_eq_some h)
    rw [proper, Bool.and_eq_true] at hv
    rw [wellFormed, hv.1, wellFormed_of_visitMembers members _ p hv.2 hmembers]
    rfl

theorem wellFormed_of_visitItems {maxNodes : Nat} : ∀ (items : List JsonValue) (nodes : Nat)
    (result : List (List Char) × Nat), properItems items = true →
      visitItems maxNodes items nodes = some result → wellFormedItems items = true
  | [], _, _, _, _ => rfl
  | item :: items, nodes, result, hv, h => by
    rw [visitItems] at h
    obtain ⟨p, hitem, h⟩ := Option.bind_eq_some_iff.mp h
    obtain ⟨p', hitems, h⟩ := Option.bind_eq_some_iff.mp h
    rw [properItems, Bool.and_eq_true] at hv
    rw [wellFormedItems, wellFormed_of_visit item _ p hv.1 hitem,
      wellFormed_of_visitItems items _ p' hv.2 hitems]
    rfl

theorem wellFormed_of_visitMembers {maxNodes : Nat} : ∀ (members : List (String × JsonValue))
    (nodes : Nat) (result : List (String × List Char) × Nat), properMembers members = true →
      visitMembers maxNodes members nodes = some result → wellFormedMembers members = true
  | [], _, _, _, _ => rfl
  | (name, value) :: members, nodes, result, hv, h => by
    rw [visitMembers] at h
    obtain ⟨p, hvalue, h⟩ := Option.bind_eq_some_iff.mp h
    obtain ⟨p', hmembers, h⟩ := Option.bind_eq_some_iff.mp h
    rw [properMembers, Bool.and_eq_true] at hv
    rw [wellFormedMembers, wellFormed_of_visit value _ p hv.1 hvalue,
      wellFormed_of_visitMembers members _ p' hv.2 hmembers]
    rfl

end

/-- The text of a record is that of the record with sorted keys. -/
theorem canonicalJson_eq {v : JsonValue} {maxNodes : Nat} {text : String}
    (h : canonicalJson v maxNodes = some text) : text = v.sortKeys.stringify := by
  obtain ⟨p, hvisit, rfl⟩ := Option.map_eq_some_iff.mp h
  rw [visit_text v 0 p hvisit]
  rfl

theorem wellFormed_of_canonical {v : JsonValue} (hv : v.proper = true) {maxNodes : Nat}
    {text : String} (h : canonicalJson v maxNodes = some text) : v.wellFormed = true := by
  obtain ⟨p, hvisit, _⟩ := Option.map_eq_some_iff.mp h
  exact wellFormed_of_visit v 0 p hv hvisit

/-- **Main.** Records have the same text exactly when they are the same but for the order of keys. -/
theorem canonicalJson_eq_iff {v w : JsonValue} (hv : v.proper = true) (hw : w.proper = true)
    {maxNodes maxNodes' : Nat} {text text' : String} (h : canonicalJson v maxNodes = some text)
    (h' : canonicalJson w maxNodes' = some text') : text = text' ↔ same v w := by
  have hleft := wellFormed_of_canonical hv h
  have hright := wellFormed_of_canonical hw h'
  rw [canonicalJson_eq h, canonicalJson_eq h', ← sortKeys_eq_iff v w hleft hright]
  constructor
  · exact stringify_injective (wellFormed_sortKeys v hleft) (wellFormed_sortKeys w hright)
  · exact fun heq => congrArg JsonValue.stringify heq

end CursorArtifacts
