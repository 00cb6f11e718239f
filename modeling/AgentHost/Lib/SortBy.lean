import Mathlib.Data.List.Sort

/-!
# Sorting by a comparator, and the order of texts

* `sortBy cmp` — the stable sort by a comparator, as `Array.prototype.sort` does it.
* `sortBy_eq_of_perm` — where the comparator is a total preorder that tells the elements of a
  list apart, the sorted list does not depend on the order of the input.
* `pair_sublist_sortBy` — elements that are tied keep their order.
* `map_sortBy` — sorting what a projection keeps; `map_sortBy_congr` — sorting lists that a
  projection does not tell apart.
* `compareTexts` — the order of texts by their UTF-16 code units.
-/

variable {α β : Type*}

/-- The stable sort by a comparator. -/
def sortBy (cmp : α → α → Ordering) (l : List α) : List α :=
  l.insertionSort fun a b => (cmp a b).isLE = true

theorem perm_sortBy (cmp : α → α → Ordering) (l : List α) : (sortBy cmp l).Perm l :=
  List.perm_insertionSort _ l

@[simp] theorem mem_sortBy {cmp : α → α → Ordering} {l : List α} {a : α} :
    a ∈ sortBy cmp l ↔ a ∈ l := (perm_sortBy cmp l).mem_iff

theorem pairwise_sortBy (cmp : α → α → Ordering) [Std.TransCmp cmp] (l : List α) :
    (sortBy cmp l).Pairwise fun a b => (cmp a b).isLE := by
  have htotal : Std.Total fun a b => (cmp a b).isLE = true := ⟨fun a b => by
    cases h : cmp a b with
    | lt | eq => exact .inl rfl
    | gt => exact .inr (by simp [Std.OrientedCmp.gt_iff_lt.mp h])⟩
  have htrans : IsTrans α fun a b => (cmp a b).isLE = true :=
    ⟨fun _ _ _ => Std.TransCmp.isLE_trans⟩
  exact List.pairwise_insertionSort _ l

/-- Stability: elements that stand in the right order keep it, also where they are tied. -/
theorem pair_sublist_sortBy {cmp : α → α → Ordering} {a b : α} {l : List α}
    (hab : (cmp a b).isLE = true) (h : [a, b].Sublist l) : [a, b].Sublist (sortBy cmp l) :=
  List.pair_sublist_insertionSort hab h

/-- The sorted list depends only on what is in it. -/
theorem sortBy_eq_of_perm (cmp : α → α → Ordering) [Std.TransCmp cmp] {l l' : List α}
    (h : l.Perm l') (hcmp : ∀ a ∈ l, ∀ b ∈ l, cmp a b = .eq → a = b) :
    sortBy cmp l = sortBy cmp l' := by
  have hperm : (sortBy cmp l).Perm (sortBy cmp l') :=
    (perm_sortBy cmp l).trans (h.trans (perm_sortBy cmp l').symm)
  refine List.Perm.eq_of_pairwise (fun a b ha hb hab hba => ?_) (pairwise_sortBy cmp l)
    (pairwise_sortBy cmp l') hperm
  rw [mem_sortBy] at ha hb
  refine hcmp a ha b (h.mem_iff.mpr hb) ?_
  exact Std.OrientedCmp.isLE_antisymm hab hba

/-- Sorting commutes with a projection that the comparators agree on. -/
theorem map_sortBy {cmp : α → α → Ordering} {cmp' : β → β → Ordering} (f : α → β) (l : List α)
    (h : ∀ a ∈ l, ∀ b ∈ l, cmp a b = cmp' (f a) (f b)) :
    (sortBy cmp l).map f = sortBy cmp' (l.map f) :=
  List.map_insertionSort _ _ f l fun a ha b hb => by rw [h a ha b hb]

theorem forall₂_map_eq_iff {f : α → β} {l l' : List α} :
    List.Forall₂ (fun a b => f a = f b) l l' ↔ l.map f = l'.map f := by
  rw [← List.forall₂_eq_eq_eq, List.forall₂_map_left_iff, List.forall₂_map_right_iff]

/-- Lists that a projection does not tell apart are filtered alike. -/
theorem map_filter_congr {f : α → β} {p : α → Bool} (hp : ∀ a b, f a = f b → p a = p b)
    {l l' : List α} (h : l.map f = l'.map f) : (l.filter p).map f = (l'.filter p).map f := by
  rw [← forall₂_map_eq_iff] at h ⊢
  induction h with
  | nil => exact .nil
  | @cons a b l l' hab hl ih =>
    rw [List.filter_cons, List.filter_cons, hp a b hab]
    split
    · exact .cons hab ih
    · exact ih

/-- Lists that a projection does not tell apart are sorted alike. -/
theorem map_sortBy_congr {f : α → β} {cmp : α → α → Ordering}
    (hcmp : ∀ a b a' b', f a = f a' → f b = f b' → cmp a b = cmp a' b') {l l' : List α}
    (h : l.map f = l'.map f) : (sortBy cmp l).map f = (sortBy cmp l').map f := by
  have hinsert : ∀ {a a' : α} {l l' : List α}, f a = f a' →
      List.Forall₂ (fun a b => f a = f b) l l' →
      List.Forall₂ (fun a b => f a = f b) (l.orderedInsert (fun a b => (cmp a b).isLE = true) a)
        (l'.orderedInsert (fun a b => (cmp a b).isLE = true) a') := by
    intro a a' l l' ha hl
    induction hl with
    | nil => exact .cons ha .nil
    | @cons b b' l l' hb hl ih =>
      rw [List.orderedInsert_cons, List.orderedInsert_cons, hcmp a b a' b' ha hb]
      split
      · exact .cons ha (.cons hb hl)
      · exact .cons hb ih
  rw [← forall₂_map_eq_iff] at h ⊢
  induction h with
  | nil => exact .nil
  | cons ha _ ih => exact hinsert ha ih

/-! ### Texts -/

/-- Where a character comes in the order of UTF-16 code units: those from `U+E000` to `U+FFFF` come
    after the ones that take two units. -/
def utf16Rank (c : Char) : Nat :=
  if 0xE000 ≤ c.toNat ∧ c.toNat < 0x10000 then c.toNat + 0x110000 else c.toNat

theorem utf16Rank_injective : Function.Injective utf16Rank := by
  intro c d h
  have hlt : ∀ c : Char, c.toNat < 0x110000 := fun c => by
    have hvalid := c.valid
    simp only [UInt32.isValidChar, Nat.isValidChar] at hvalid
    change c.val.toNat < _
    omega
  have hc := hlt c
  have hd := hlt d
  have heq : c.toNat = d.toNat := by
    unfold utf16Rank at h
    split at h <;> split at h <;> omega
  exact Char.toNat_inj.mp heq

/-- `a < b`, `a > b` or neither, for texts. -/
def compareTexts (a b : String) : Ordering :=
  compare (a.toList.map utf16Rank) (b.toList.map utf16Rank)

instance : Std.TransCmp compareTexts where
  eq_swap := Std.OrientedOrd.eq_swap
  isLE_trans := Std.TransOrd.isLE_trans

theorem compareTexts_eq_iff {a b : String} : compareTexts a b = .eq ↔ a = b := by
  rw [compareTexts, Std.LawfulEqOrd.compare_eq_iff_eq,
    (List.map_injective_iff.mpr utf16Rank_injective).eq_iff, String.toList_inj]
