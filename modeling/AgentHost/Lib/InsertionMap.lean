import Mathlib.Data.List.Nodup
import Mathlib.Data.List.Perm.Basic
import Mathlib.Algebra.BigOperators.Group.List.Basic

/-!
# Insertion-ordered maps whose values carry their key

The map of a script language that iterates in insertion order, specialised to the
common case where the key of an entry is a field of its value: an `InsertionMap key`
is the list of its values, with pairwise different keys.

* `get?`, `set`, `delete`, `keepNewest`, `ofValues` are the operations of such a map.  `set` keeps the
  position of a key that is present and appends a new one; `delete` followed by `set`
  moves the entry to the end.
* `set_perm`, `perm_cons_delete` say what an update does to the values up to order: every
  fact about a sum, a membership or the absence of duplicates follows from these two.
-/

/-- The values of an insertion-ordered map, keyed by `key`, in insertion order. -/
structure InsertionMap {κ α : Type*} (key : α → κ) where
  values : List α
  nodup : (values.map key).Nodup

namespace InsertionMap

variable {κ α β : Type*} {key : α → κ}

@[ext] theorem ext {m n : InsertionMap key} (h : m.values = n.values) : m = n := by
  cases m; cases n; cases h; rfl

instance [DecidableEq α] : DecidableEq (InsertionMap key) := fun m n =>
  decidable_of_iff (m.values = n.values) ⟨ext, congrArg values⟩

/-- The map without entries. -/
def empty : InsertionMap key := ⟨[], List.nodup_nil⟩

instance : Inhabited (InsertionMap key) := ⟨empty⟩

@[simp] theorem values_empty : (empty : InsertionMap key).values = [] := rfl

/-- The number of entries. -/
def size (m : InsertionMap key) : Nat := m.values.length

/-- The values are pairwise different, as their keys are. -/
theorem values_nodup (m : InsertionMap key) : m.values.Nodup := m.nodup.of_map key

/-- Two values of one map with the same key are the same value. -/
theorem eq_of_key_eq (m : InsertionMap key) {v w : α} (hv : v ∈ m.values) (hw : w ∈ m.values)
    (h : key v = key w) : v = w :=
  List.inj_on_of_nodup_map m.nodup hv hw h

/-- Values differ in what is derived from their keys injectively. -/
theorem nodup_map_of_injective (m : InsertionMap key) {derive : κ → β} {f : α → β}
    (hderive : Function.Injective derive) (hf : ∀ v ∈ m.values, f v = derive (key v)) :
    (m.values.map f).Nodup := by
  have hmap : m.values.map f = (m.values.map key).map derive := by
    rw [List.map_map]
    exact List.map_congr_left hf
  rw [hmap]
  exact m.nodup.map hderive

/-- Drop the oldest entries until at most `limit` remain. -/
def keepNewest (m : InsertionMap key) (limit : Nat) : InsertionMap key :=
  ⟨m.values.drop (m.size - limit), m.nodup.sublist ((List.drop_sublist _ _).map key)⟩

@[simp] theorem values_keepNewest (m : InsertionMap key) (limit : Nat) :
    (m.keepNewest limit).values = m.values.drop (m.size - limit) := rfl

theorem size_keepNewest_le (m : InsertionMap key) (limit : Nat) :
    (m.keepNewest limit).size ≤ limit := by
  simp only [size, values_keepNewest, List.length_drop]
  omega

/-- Nothing is dropped from a map within the limit. -/
theorem keepNewest_of_le {m : InsertionMap key} {limit : Nat} (h : m.size ≤ limit) :
    m.keepNewest limit = m := by
  apply ext
  rw [values_keepNewest, Nat.sub_eq_zero_of_le h, List.drop_zero]

/-- Keep the entries that satisfy a predicate. -/
def filter (m : InsertionMap key) (p : α → Bool) : InsertionMap key :=
  ⟨m.values.filter p, m.nodup.sublist (List.filter_sublist.map key)⟩

@[simp] theorem values_filter (m : InsertionMap key) (p : α → Bool) :
    (m.filter p).values = m.values.filter p := rfl

variable [DecidableEq κ]

/-- The value at a key. -/
def get? (m : InsertionMap key) (k : κ) : Option α := m.values.find? (fun v => key v = k)

/-- Whether a key is present. -/
def has (m : InsertionMap key) (k : κ) : Bool := (m.get? k).isSome

@[simp] theorem get?_empty (k : κ) : (empty : InsertionMap key).get? k = none := rfl

theorem get?_eq_some_iff {m : InsertionMap key} {k : κ} {v : α} :
    m.get? k = some v ↔ v ∈ m.values ∧ key v = k := by
  constructor
  · intro h
    have hv := List.mem_of_find?_eq_some h
    have hk := List.find?_some h
    exact ⟨hv, by simpa using hk⟩
  · rintro ⟨hv, rfl⟩
    cases h : m.get? (key v) with
    | none =>
      have := List.find?_eq_none.mp h v hv
      simp at this
    | some w =>
      have hw := List.mem_of_find?_eq_some h
      have hk : key w = key v := by simpa using List.find?_some h
      rw [m.eq_of_key_eq hw hv hk]

theorem get?_eq_none_iff {m : InsertionMap key} {k : κ} :
    m.get? k = none ↔ ∀ v ∈ m.values, key v ≠ k := by
  simp [get?, List.find?_eq_none]

theorem mem_of_get? {m : InsertionMap key} {k : κ} {v : α} (h : m.get? k = some v) :
    v ∈ m.values := (get?_eq_some_iff.mp h).1

theorem key_of_get? {m : InsertionMap key} {k : κ} {v : α} (h : m.get? k = some v) :
    key v = k := (get?_eq_some_iff.mp h).2

theorem get?_of_mem {m : InsertionMap key} {v : α} (h : v ∈ m.values) :
    m.get? (key v) = some v := get?_eq_some_iff.mpr ⟨h, rfl⟩

theorem key_mem_iff {m : InsertionMap key} {k : κ} :
    k ∈ m.values.map key ↔ (m.get? k).isSome := by
  rw [List.mem_map, Option.isSome_iff_exists]
  constructor
  · rintro ⟨v, hv, hk⟩
    exact ⟨v, get?_eq_some_iff.mpr ⟨hv, hk⟩⟩
  · rintro ⟨v, hv⟩
    exact ⟨v, mem_of_get? hv, key_of_get? hv⟩

/-! ### Deleting -/

/-- Remove the entry at a key. -/
def delete (m : InsertionMap key) (k : κ) : InsertionMap key :=
  ⟨m.values.filter (fun v => key v ≠ k), m.nodup.sublist (List.filter_sublist.map key)⟩

theorem mem_delete {m : InsertionMap key} {k : κ} {v : α} :
    v ∈ (m.delete k).values ↔ v ∈ m.values ∧ key v ≠ k := by
  simp [delete]

theorem delete_sublist (m : InsertionMap key) (k : κ) :
    (m.delete k).values.Sublist m.values := List.filter_sublist

theorem get?_delete (m : InsertionMap key) (k j : κ) :
    (m.delete k).get? j = if j = k then none else m.get? j := by
  split
  · next h =>
    subst h
    exact get?_eq_none_iff.mpr fun v hv => (mem_delete.mp hv).2
  · next h =>
    cases hj : m.get? j with
    | none =>
      rw [get?_eq_none_iff] at hj ⊢
      exact fun v hv => hj v (mem_delete.mp hv).1
    | some v =>
      obtain ⟨hv, hk⟩ := get?_eq_some_iff.mp hj
      exact get?_eq_some_iff.mpr ⟨mem_delete.mpr ⟨hv, by rw [hk]; exact h⟩, hk⟩

/-- Deleting an absent key changes nothing. -/
theorem delete_of_get?_none {m : InsertionMap key} {k : κ} (h : m.get? k = none) :
    m.delete k = m := by
  apply ext
  exact List.filter_eq_self.mpr fun v hv => by simpa using get?_eq_none_iff.mp h v hv

/-- A present value heads the rest of the map, up to order. -/
theorem perm_cons_delete {m : InsertionMap key} {k : κ} {v : α} (h : m.get? k = some v) :
    m.values.Perm (v :: (m.delete k).values) := by
  obtain ⟨hv, hk⟩ := get?_eq_some_iff.mp h
  have hnd : (v :: (m.delete k).values).Nodup :=
    List.nodup_cons.mpr
      ⟨fun hm => (mem_delete.mp hm).2 hk, (m.delete k).values_nodup⟩
  refine (List.perm_ext_iff_of_nodup m.values_nodup hnd).mpr fun w => ?_
  rw [List.mem_cons, mem_delete]
  constructor
  · intro hw
    by_cases hwk : key w = k
    · exact .inl (m.eq_of_key_eq hw hv (hwk.trans hk.symm))
    · exact .inr ⟨hw, hwk⟩
  · rintro (rfl | ⟨hw, _⟩)
    · exact hv
    · exact hw

/-- Remove the entries at the given keys one after the other. -/
def deleteAll (m : InsertionMap key) (ks : List κ) : InsertionMap key := ks.foldl delete m

theorem values_deleteAll (m : InsertionMap key) (ks : List κ) :
    (m.deleteAll ks).values = m.values.filter (fun v => key v ∉ ks) := by
  induction ks generalizing m with
  | nil => simp [deleteAll]
  | cons k ks ih =>
    rw [deleteAll, List.foldl_cons]
    change ((m.delete k).deleteAll ks).values = _
    rw [ih, delete, List.filter_filter]
    refine List.filter_congr fun v _ => ?_
    simp only [List.mem_cons, not_or, Bool.decide_and]
    exact Bool.and_comm _ _

/-! ### Setting -/

/-- Replace the value with `v`'s key where it stands, or append `v`. -/
def upsert (key : α → κ) (v : α) : List α → List α
  | [] => [v]
  | w :: ws => if key w = key v then v :: ws else w :: upsert key v ws

theorem mem_upsert_iff (v x : α) {l : List α} (hl : (l.map key).Nodup) :
    x ∈ upsert key v l ↔ x = v ∨ (x ∈ l ∧ key x ≠ key v) := by
  induction l with
  | nil => simp [upsert]
  | cons w ws ih =>
    rw [List.map_cons, List.nodup_cons] at hl
    unfold upsert
    split
    · next hw =>
      have hne : ∀ x ∈ ws, key x ≠ key v := fun x hx hk =>
        hl.1 (hw ▸ hk ▸ List.mem_map_of_mem hx)
      simp only [List.mem_cons]
      constructor
      · rintro (rfl | hx)
        · exact .inl rfl
        · exact .inr ⟨.inr hx, hne x hx⟩
      · rintro (rfl | ⟨rfl | hx, hk⟩)
        · exact .inl rfl
        · exact absurd hw hk
        · exact .inr hx
    · next hw =>
      rw [List.mem_cons, ih hl.2, List.mem_cons]
      constructor
      · rintro (rfl | rfl | ⟨hx, hk⟩)
        · exact .inr ⟨.inl rfl, hw⟩
        · exact .inl rfl
        · exact .inr ⟨.inr hx, hk⟩
      · rintro (rfl | ⟨rfl | hx, hk⟩)
        · exact .inr (.inl rfl)
        · exact .inl rfl
        · exact .inr (.inr ⟨hx, hk⟩)

theorem nodup_upsert (v : α) {l : List α} (hl : (l.map key).Nodup) :
    ((upsert key v l).map key).Nodup := by
  induction l with
  | nil => simp [upsert]
  | cons w ws ih =>
    have hcons := List.nodup_cons.mp (List.map_cons ▸ hl)
    unfold upsert
    split
    · next hw =>
      rw [List.map_cons, List.nodup_cons, ← hw]
      exact hcons
    · next hw =>
      rw [List.map_cons, List.nodup_cons]
      refine ⟨fun hm => ?_, ih hcons.2⟩
      obtain ⟨x, hx, hxk⟩ := List.mem_map.mp hm
      rcases (mem_upsert_iff v x hcons.2).mp hx with rfl | ⟨hx, _⟩
      · exact hw hxk.symm
      · exact hcons.1 (hxk ▸ List.mem_map_of_mem hx)

/-- Store a value under its own key. -/
def set (m : InsertionMap key) (v : α) : InsertionMap key :=
  ⟨upsert key v m.values, nodup_upsert v m.nodup⟩

theorem mem_set {m : InsertionMap key} {v x : α} :
    x ∈ (m.set v).values ↔ x = v ∨ (x ∈ m.values ∧ key x ≠ key v) :=
  mem_upsert_iff v x m.nodup

theorem mem_set_self (m : InsertionMap key) (v : α) : v ∈ (m.set v).values :=
  mem_set.mpr (.inl rfl)

theorem get?_set (m : InsertionMap key) (v : α) (k : κ) :
    (m.set v).get? k = if k = key v then some v else m.get? k := by
  split
  · next h => exact get?_eq_some_iff.mpr ⟨mem_set_self m v, h.symm⟩
  · next h =>
    cases hk : m.get? k with
    | none =>
      rw [get?_eq_none_iff] at hk ⊢
      intro x hx
      rcases mem_set.mp hx with rfl | ⟨hx, _⟩
      · exact fun hk => h hk.symm
      · exact hk x hx
    | some w =>
      obtain ⟨hw, rfl⟩ := get?_eq_some_iff.mp hk
      exact get?_eq_some_iff.mpr ⟨mem_set.mpr (.inr ⟨hw, h⟩), rfl⟩

/-- Setting is, up to order, deleting the key and consing the value. -/
theorem set_perm (m : InsertionMap key) (v : α) :
    (m.set v).values.Perm (v :: (m.delete (key v)).values) := by
  have hnd : (v :: (m.delete (key v)).values).Nodup :=
    List.nodup_cons.mpr ⟨fun hm => (mem_delete.mp hm).2 rfl, (m.delete (key v)).values_nodup⟩
  refine (List.perm_ext_iff_of_nodup (m.set v).values_nodup hnd).mpr fun x => ?_
  rw [mem_set, List.mem_cons, mem_delete]

/-- A new key goes to the end. -/
theorem values_set_of_get?_none {m : InsertionMap key} {v : α} (h : m.get? (key v) = none) :
    (m.set v).values = m.values ++ [v] := by
  have hne := get?_eq_none_iff.mp h
  change upsert key v m.values = _
  generalize m.values = l at hne
  induction l with
  | nil => rfl
  | cons w ws ih =>
    rw [upsert, if_neg (hne w List.mem_cons_self), ih fun x hx => hne x (List.mem_cons_of_mem _ hx)]
    rfl

/-- A key that is present keeps its place, so a projection the two values share is unchanged. -/
theorem map_set_of_get?_some {m : InsertionMap key} {v w : α} (f : α → β)
    (h : m.get? (key v) = some w) (hf : f w = f v) : (m.set v).values.map f = m.values.map f := by
  have hmem := get?_eq_some_iff.mp h
  change (upsert key v m.values).map f = _
  have hnd := m.nodup
  generalize m.values = l at hmem hnd
  induction l with
  | nil => simp at hmem
  | cons x xs ih =>
    have hcons := List.nodup_cons.mp (List.map_cons ▸ hnd)
    unfold upsert
    split
    · next hx =>
      rcases List.mem_cons.mp hmem.1 with rfl | hxs
      · simp [hf]
      · exact absurd (List.mem_map.mpr ⟨w, hxs, hmem.2.trans hx.symm⟩) hcons.1
    · next hx =>
      rcases List.mem_cons.mp hmem.1 with rfl | hxs
      · exact absurd hmem.2 hx
      · rw [List.map_cons, List.map_cons, ih ⟨hxs, hmem.2⟩ hcons.2]

/-- Setting a key twice keeps the second value only. -/
theorem set_set {m : InsertionMap key} {v w : α} (h : key v = key w) :
    (m.set v).set w = m.set w := by
  apply ext
  change upsert key w (upsert key v m.values) = upsert key w m.values
  generalize m.values = l
  induction l with
  | nil => simp [upsert, h]
  | cons x xs ih =>
    by_cases hx : key x = key v
    · simp [upsert, hx, h]
    · have hxw : key x ≠ key w := h ▸ hx
      simp [upsert, hx, hxw, ih]

/-- Setting the value that is stored changes nothing. -/
theorem set_of_get?_some {m : InsertionMap key} {v : α} (h : m.get? (key v) = some v) :
    m.set v = m := by
  apply ext
  simpa using map_set_of_get?_some (m := m) id h rfl

/-- Deleting a key that was just added undoes the addition. -/
theorem delete_set_of_get?_none {m : InsertionMap key} {v : α} (h : m.get? (key v) = none) :
    (m.set v).delete (key v) = m := by
  apply ext
  have hself : m.values.filter (fun w => key w ≠ key v) = m.values :=
    List.filter_eq_self.mpr fun w hw => by simpa using get?_eq_none_iff.mp h w hw
  change (m.set v).values.filter (fun w => key w ≠ key v) = m.values
  rw [values_set_of_get?_none h, List.filter_append, hself]
  simp

/-! ### Building from a list -/

/-- Set the given values one after the other, starting from `m`. -/
def setAll (m : InsertionMap key) (values : List α) : InsertionMap key := values.foldl set m

/-- The map built by setting the given values one after the other. -/
def ofValues (key : α → κ) (values : List α) : InsertionMap key := empty.setAll values

theorem mem_of_mem_setAll {m : InsertionMap key} {values : List α} {v : α}
    (h : v ∈ (m.setAll values).values) : v ∈ m.values ∨ v ∈ values := by
  induction values generalizing m with
  | nil => exact .inl h
  | cons w ws ih =>
    rcases ih (m := m.set w) h with hm | hws
    · rcases mem_set.mp hm with rfl | ⟨hm, _⟩
      · exact .inr List.mem_cons_self
      · exact .inl hm
    · exact .inr (List.mem_cons_of_mem _ hws)

/-- What is stored under a key that no given value has stays. -/
theorem get?_setAll_of_ne {m : InsertionMap key} {values : List α} {k : κ}
    (h : ∀ v ∈ values, key v ≠ k) : (m.setAll values).get? k = m.get? k := by
  induction values generalizing m with
  | nil => rfl
  | cons v vs ih =>
    have hrest := ih (m := m.set v) fun w hw => h w (List.mem_cons_of_mem _ hw)
    refine hrest.trans ?_
    rw [get?_set, if_neg (h v List.mem_cons_self).symm]

/-- What is found after setting values with pairwise different keys: one of them, or what was
    there. -/
theorem mem_setAll_iff {m : InsertionMap key} {values : List α} (h : (values.map key).Nodup)
    {v : α} : v ∈ (m.setAll values).values ↔
      v ∈ values ∨ v ∈ m.values ∧ ∀ w ∈ values, key w ≠ key v := by
  induction values generalizing m with
  | nil => simp [setAll]
  | cons w ws ih =>
    have hcons := List.nodup_cons.mp (List.map_cons ▸ h)
    rw [setAll, List.foldl_cons]
    change v ∈ ((m.set w).setAll ws).values ↔ _
    rw [ih hcons.2, mem_set]
    constructor
    · rintro (hv | ⟨rfl | ⟨hv, hne⟩, hws⟩)
      · exact .inl (List.mem_cons_of_mem _ hv)
      · exact .inl List.mem_cons_self
      · exact .inr ⟨hv, List.forall_mem_cons.mpr ⟨fun hk => hne hk.symm, hws⟩⟩
    · rintro (hv | ⟨hv, hne⟩)
      · rcases List.mem_cons.mp hv with rfl | hv
        · exact .inr ⟨.inl rfl, fun x hx hk => hcons.1 (hk ▸ List.mem_map_of_mem hx)⟩
        · exact .inl hv
      · obtain ⟨hw, hws⟩ := List.forall_mem_cons.mp hne
        exact .inr ⟨.inr ⟨hv, fun hk => hw hk.symm⟩, hws⟩

/-- Maps that a projection does not tell apart, with values that it does not tell apart. -/
theorem map_values_setAll_congr {f : α → β} (hkey : ∀ v w, f v = f w → key v = key w)
    {m m' : InsertionMap key} {values values' : List α} (hm : m.values.map f = m'.values.map f)
    (h : values.map f = values'.map f) :
    (m.setAll values).values.map f = (m'.setAll values').values.map f := by
  have hupsert : ∀ {v v' : α} {l l' : List α}, f v = f v' → l.map f = l'.map f →
      (upsert key v l).map f = (upsert key v' l').map f := by
    intro v v' l
    induction l with
    | nil =>
      intro l' hv hl
      rw [List.map_nil, eq_comm, List.map_eq_nil_iff] at hl
      rw [hl]
      exact congrArg (fun b => [b]) hv
    | cons w ws ih =>
      intro l' hv hl
      cases l' with
      | nil => cases hl
      | cons w' ws' =>
        obtain ⟨hw, hws⟩ := List.cons.inj hl
        rw [upsert, upsert, hkey w w' hw, hkey v v' hv]
        split
        · rw [List.map_cons, List.map_cons, hv, hws]
        · rw [List.map_cons, List.map_cons, hw, ih hv hws]
  induction values generalizing m m' values' with
  | nil =>
    rw [List.map_nil, eq_comm, List.map_eq_nil_iff] at h
    rw [h]
    exact hm
  | cons v vs ih =>
    cases values' with
    | nil => cases h
    | cons v' vs' =>
      obtain ⟨hv, hvs⟩ := List.cons.inj h
      have hset : (m.set v).values.map f = (m'.set v').values.map f := hupsert hv hm
      have hrest := ih hset hvs
      exact hrest

theorem mem_of_mem_ofValues {values : List α} {v : α} (h : v ∈ (ofValues key values).values) :
    v ∈ values := (mem_of_mem_setAll h).resolve_left (List.not_mem_nil)

/-- Values with new, pairwise different keys are appended in order. -/
theorem values_setAll {m : InsertionMap key} {values : List α}
    (h : ((m.values ++ values).map key).Nodup) : (m.setAll values).values = m.values ++ values := by
  induction values generalizing m with
  | nil => simp [setAll]
  | cons v vs ih =>
    have hnew : m.get? (key v) = none := by
      refine get?_eq_none_iff.mpr fun w hw hk => ?_
      rw [List.map_append, List.nodup_append] at h
      exact h.2.2 _ (List.mem_map_of_mem hw) _ (List.mem_map_of_mem List.mem_cons_self) hk
    have hset := values_set_of_get?_none hnew
    have hrest := ih (m := m.set v) (by rw [hset]; simpa using h)
    rw [setAll, List.foldl_cons]
    change ((m.set v).setAll vs).values = _
    rw [hrest, hset, List.append_assoc, List.singleton_append]

/-- A list of values with pairwise different keys is the list of values of its map. -/
theorem values_ofValues {values : List α} (h : (values.map key).Nodup) :
    (ofValues key values).values = values := values_setAll (by simpa using h)

@[simp] theorem ofValues_values (m : InsertionMap key) : ofValues key m.values = m :=
  ext (values_ofValues m.nodup)

/-! ### Changing the values under their keys -/

section MapValues

variable (f : α → α) (hf : ∀ v, key (f v) = key v)

/-- Apply a function that keeps the key to every value. -/
def mapValues (m : InsertionMap key) : InsertionMap key :=
  ⟨m.values.map f, by
    rw [List.map_map]
    exact (List.map_congr_left fun v _ => hf v) ▸ m.nodup⟩

omit [DecidableEq κ] in
@[simp] theorem values_mapValues (m : InsertionMap key) :
    (m.mapValues f hf).values = m.values.map f := rfl

omit [DecidableEq κ] in
@[simp] theorem size_mapValues (m : InsertionMap key) : (m.mapValues f hf).size = m.size :=
  List.length_map _

@[simp] theorem get?_mapValues (m : InsertionMap key) (k : κ) :
    (m.mapValues f hf).get? k = (m.get? k).map f := by
  simp only [get?, values_mapValues, List.find?_map, Function.comp_def, hf]

@[simp] theorem mapValues_set (m : InsertionMap key) (v : α) :
    (m.set v).mapValues f hf = (m.mapValues f hf).set (f v) := by
  apply ext
  change (upsert key v m.values).map f = upsert key (f v) (m.values.map f)
  generalize m.values = l
  induction l with
  | nil => rfl
  | cons w ws ih =>
    simp only [upsert, List.map_cons, hf]
    split
    · rfl
    · rw [List.map_cons, ih]

@[simp] theorem mapValues_delete (m : InsertionMap key) (k : κ) :
    (m.delete k).mapValues f hf = (m.mapValues f hf).delete k := by
  apply ext
  simp only [delete, values_mapValues, List.filter_map, Function.comp_def, hf]

omit [DecidableEq κ] in
@[simp] theorem mapValues_keepNewest (m : InsertionMap key) (limit : Nat) :
    (m.keepNewest limit).mapValues f hf = (m.mapValues f hf).keepNewest limit := by
  apply ext
  simp only [values_keepNewest, values_mapValues, size_mapValues, List.map_drop]

@[simp] theorem mapValues_deleteAll (m : InsertionMap key) (ks : List κ) :
    (m.deleteAll ks).mapValues f hf = (m.mapValues f hf).deleteAll ks := by
  apply ext
  simp only [values_deleteAll, values_mapValues, List.filter_map, Function.comp_def, hf]

@[simp] theorem mapValues_setAll (m : InsertionMap key) (values : List α) :
    (m.setAll values).mapValues f hf = (m.mapValues f hf).setAll (values.map f) := by
  induction values generalizing m with
  | nil => rfl
  | cons v vs ih => exact (ih (m.set v)).trans (by rw [mapValues_set]; rfl)

@[simp] theorem mapValues_ofValues (values : List α) :
    (ofValues key values).mapValues f hf = ofValues key (values.map f) :=
  mapValues_setAll f hf empty values

end MapValues

end InsertionMap
