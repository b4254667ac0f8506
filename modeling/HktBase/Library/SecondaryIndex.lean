import Mathlib.Data.Set.Basic
import Mathlib.Logic.Function.Basic
import Mathlib.Tactic.Common

/-!
# A store with a secondary index

Items are stored under ids, and an index keeps, under keys of its own, references to
the items that have the key.  The two are updated separately: an item can be put or
erased, its references can be listed or unlisted, and all references under a set of keys
can be dropped.

The index is complete when every stored item is listed under all its keys, and none of
its references is stale when each is the reference of a stored item.  Completeness is in
danger where keys are dropped (`complete_dropKeys_iff`), and references become stale where
an item leaves the store while it is listed (`sound_erase`, `sound_list_put` and their
converses).
-/

/-- The items of a store under their ids, and the references of an index under its keys. -/
structure IndexedStore (Id Item Ref Key : Type*) where
  store : Id → Option Item
  index : Key → Set Ref

namespace IndexedStore

variable {Id Item Ref Key : Type*} [DecidableEq Id] (ref : Item → Ref) (keys : Item → Set Key)

/-! ## Operations -/

/-- Store an item under an id; an item already there is lost. -/
def put (s : IndexedStore Id Item Ref Key) (id : Id) (item : Item) :
    IndexedStore Id Item Ref Key :=
  { s with store := Function.update s.store id (some item) }

/-- Take the item under an id out of the store. -/
def erase (s : IndexedStore Id Item Ref Key) (id : Id) : IndexedStore Id Item Ref Key :=
  { s with store := Function.update s.store id none }

/-- Refer to an item under all its keys. -/
def list (s : IndexedStore Id Item Ref Key) (item : Item) : IndexedStore Id Item Ref Key :=
  { s with index := fun key => {r | r ∈ s.index key ∨ (key ∈ keys item ∧ r = ref item)} }

/-- Refer to an item under none of its keys. -/
def unlist (s : IndexedStore Id Item Ref Key) (item : Item) : IndexedStore Id Item Ref Key :=
  { s with index := fun key => {r | r ∈ s.index key ∧ ¬ (key ∈ keys item ∧ r = ref item)} }

/-- Forget all references under a set of keys. -/
def dropKeys (s : IndexedStore Id Item Ref Key) (dropped : Set Key) :
    IndexedStore Id Item Ref Key :=
  { s with index := fun key => {r | r ∈ s.index key ∧ key ∉ dropped} }

theorem store_put_eq_some {s : IndexedStore Id Item Ref Key} {id other : Id} {item found : Item} :
    (s.put id item).store other = some found ↔
      (other = id ∧ found = item) ∨ (other ≠ id ∧ s.store other = some found) := by
  by_cases h : other = id
  · subst h
    simp [put, eq_comm]
  · simp [put, h]

theorem store_erase_eq_some {s : IndexedStore Id Item Ref Key} {id other : Id} {found : Item} :
    (s.erase id).store other = some found ↔ other ≠ id ∧ s.store other = some found := by
  by_cases h : other = id
  · subst h
    simp [erase]
  · simp [erase, h]

/-! ## What the two owe each other -/

/-- The reference stands somewhere in the index. -/
def Listed (s : IndexedStore Id Item Ref Key) (r : Ref) : Prop :=
  ∃ key, r ∈ s.index key

/-- The reference is that of a stored item. -/
def Owned (s : IndexedStore Id Item Ref Key) (r : Ref) : Prop :=
  ∃ id item, s.store id = some item ∧ ref item = r

/-- No two stored items have the same reference. -/
def DistinctRefs (s : IndexedStore Id Item Ref Key) : Prop :=
  ∀ id other item found, s.store id = some item → s.store other = some found →
    ref item = ref found → id = other

/-- Every stored item is listed under all its keys. -/
def Complete (s : IndexedStore Id Item Ref Key) : Prop :=
  ∀ id item, s.store id = some item → ∀ key ∈ keys item, ref item ∈ s.index key

/-- Every reference is that of a stored item. -/
def NoneStale (s : IndexedStore Id Item Ref Key) : Prop :=
  ∀ key, ∀ r ∈ s.index key, s.Owned ref r

/-- Every reference is that of a stored item that has the key. -/
def Sound (s : IndexedStore Id Item Ref Key) : Prop :=
  ∀ key, ∀ r ∈ s.index key, ∃ id item, s.store id = some item ∧ ref item = r ∧ key ∈ keys item

variable {ref keys} {s : IndexedStore Id Item Ref Key}

omit [DecidableEq Id] in
theorem Sound.noneStale (h : s.Sound ref keys) : s.NoneStale ref := by
  intro key r hr
  obtain ⟨id, item, hstored, href, -⟩ := h key r hr
  exact ⟨id, item, hstored, href⟩

omit [DecidableEq Id] in
theorem Sound.mem_keys (h : s.Sound ref keys) (hdistinct : s.DistinctRefs ref) {id : Id}
    {item : Item} (hstored : s.store id = some item) {key : Key} (hlisted : ref item ∈ s.index key) :
    key ∈ keys item := by
  obtain ⟨other, found, hfound, href, hkey⟩ := h key _ hlisted
  obtain rfl := hdistinct other id found item hfound hstored href
  obtain rfl : found = item := Option.some.inj (hfound.symm.trans hstored)
  exact hkey

/-! ## Distinct references -/

theorem DistinctRefs.erase (h : s.DistinctRefs ref) (id : Id) : (s.erase id).DistinctRefs ref := by
  intro first second item found hfirst hsecond href
  exact h first second item found (store_erase_eq_some.mp hfirst).2
    (store_erase_eq_some.mp hsecond).2 href

theorem DistinctRefs.put (h : s.DistinctRefs ref) (id : Id) {item : Item}
    (hfresh : ¬ s.Owned ref (ref item)) : (s.put id item).DistinctRefs ref := by
  intro first second found other hfirst hsecond href
  rcases store_put_eq_some.mp hfirst with ⟨rfl, rfl⟩ | ⟨-, holdFirst⟩ <;>
    rcases store_put_eq_some.mp hsecond with ⟨rfl, rfl⟩ | ⟨-, holdSecond⟩
  · rfl
  · exact absurd ⟨second, other, holdSecond, href.symm⟩ hfresh
  · exact absurd ⟨first, found, holdFirst, href⟩ hfresh
  · exact h first second found other holdFirst holdSecond href

/-! ## Completeness -/

theorem Complete.list_put (h : s.Complete ref keys) (id : Id) (item : Item) :
    ((s.list ref keys item).put id item).Complete ref keys := by
  intro other found hfound key hkey
  rcases store_put_eq_some.mp hfound with ⟨-, rfl⟩ | ⟨-, hfound⟩
  · exact Or.inr ⟨hkey, rfl⟩
  · exact Or.inl (h other found hfound key hkey)

theorem Complete.erase (h : s.Complete ref keys) (id : Id) : (s.erase id).Complete ref keys := by
  intro other found hfound key hkey
  exact h other found (store_erase_eq_some.mp hfound).2 key hkey

theorem Complete.unlist_erase (h : s.Complete ref keys) {id : Id} {item : Item}
    (hown : ∀ other found, s.store other = some found → ref found = ref item → other = id) :
    ((s.unlist ref keys item).erase id).Complete ref keys := by
  intro other found hfound key hkey
  obtain ⟨hne, hstored⟩ := store_erase_eq_some.mp hfound
  exact ⟨h other found hstored key hkey, fun hsame => hne (hown other found hstored hsame.2)⟩

omit [DecidableEq Id] in
/-- Dropping keys leaves a complete index complete exactly when no stored item has one
of them. -/
theorem complete_dropKeys_iff (h : s.Complete ref keys) {dropped : Set Key} :
    (s.dropKeys dropped).Complete ref keys ↔
      ∀ id item, s.store id = some item → ∀ key ∈ keys item, key ∉ dropped := by
  constructor
  · intro hcomplete id item hstored key hkey
    exact (hcomplete id item hstored key hkey).2
  · intro hkept id item hstored key hkey
    exact ⟨h id item hstored key hkey, hkept id item hstored key hkey⟩

/-- The item that is erased along with the keys may have them. -/
theorem complete_dropKeys_erase_iff (h : s.Complete ref keys) {dropped : Set Key} {id : Id} :
    ((s.dropKeys dropped).erase id).Complete ref keys ↔
      ∀ other item, other ≠ id → s.store other = some item → ∀ key ∈ keys item, key ∉ dropped := by
  have hdrop : ((s.dropKeys dropped).erase id) = (s.erase id).dropKeys dropped := rfl
  rw [hdrop, complete_dropKeys_iff (h.erase id)]
  constructor
  · intro hkept other item hne hstored
    exact hkept other item (store_erase_eq_some.mpr ⟨hne, hstored⟩)
  · intro hkept other item hstored
    obtain ⟨hne, hstored⟩ := store_erase_eq_some.mp hstored
    exact hkept other item hne hstored

/-! ## Stale references -/

omit [DecidableEq Id] in
theorem Sound.unlist (h : s.Sound ref keys) (item : Item) :
    (s.unlist ref keys item).Sound ref keys :=
  fun key r hr => h key r hr.1

omit [DecidableEq Id] in
theorem Sound.dropKeys (h : s.Sound ref keys) (dropped : Set Key) :
    (s.dropKeys dropped).Sound ref keys :=
  fun key r hr => h key r hr.1

/-- An item can be put where none is that is listed, or in place of one with the same
reference whose keys it has. -/
theorem Sound.put (h : s.Sound ref keys) {id : Id} {item : Item}
    (hsame : ∀ old, s.store id = some old → s.Listed (ref old) →
      ref item = ref old ∧ keys old ⊆ keys item) :
    (s.put id item).Sound ref keys := by
  intro key r hr
  obtain ⟨other, found, hstored, rfl, hkey⟩ := h key r hr
  by_cases hother : other = id
  · subst hother
    obtain ⟨href, hkeys⟩ := hsame found hstored ⟨key, hr⟩
    exact ⟨other, item, store_put_eq_some.mpr (Or.inl ⟨rfl, rfl⟩), href, hkeys hkey⟩
  · exact ⟨other, found, store_put_eq_some.mpr (Or.inr ⟨hother, hstored⟩), rfl, hkey⟩

omit [DecidableEq Id] in
theorem Sound.list (h : s.Sound ref keys) {id : Id} {item : Item}
    (hstored : s.store id = some item) : (s.list ref keys item).Sound ref keys := by
  rintro key r (hr | ⟨hkey, rfl⟩)
  · exact h key r hr
  · exact ⟨id, item, hstored, rfl, hkey⟩

theorem sound_erase (h : s.Sound ref keys) {id : Id}
    (hunlisted : ∀ old, s.store id = some old → ¬ s.Listed (ref old)) :
    (s.erase id).Sound ref keys := by
  intro key r hr
  obtain ⟨other, item, hstored, rfl, hkey⟩ := h key r hr
  refine ⟨other, item, store_erase_eq_some.mpr ⟨?_, hstored⟩, rfl, hkey⟩
  rintro rfl
  exact hunlisted item hstored ⟨key, hr⟩

theorem not_listed_of_noneStale_erase (hdistinct : s.DistinctRefs ref) {id : Id}
    (h : (s.erase id).NoneStale ref) {old : Item} (hold : s.store id = some old) :
    ¬ s.Listed (ref old) := by
  rintro ⟨key, hr⟩
  obtain ⟨other, item, hstored, href⟩ := h key _ hr
  obtain ⟨hne, hstored⟩ := store_erase_eq_some.mp hstored
  exact hne (hdistinct other id item old hstored hold href)

/-- The item that a new one replaces must not be listed. -/
theorem sound_list_put (h : s.Sound ref keys) {id : Id} {item : Item}
    (hunlisted : ∀ old, s.store id = some old → ¬ s.Listed (ref old)) :
    ((s.list ref keys item).put id item).Sound ref keys := by
  have hput : (s.put id item).Sound ref keys :=
    h.put fun old hold hlisted => absurd hlisted (hunlisted old hold)
  exact hput.list (store_put_eq_some.mpr (Or.inl ⟨rfl, rfl⟩))

/-- An item that is replaced while it is listed leaves a stale reference. -/
theorem not_listed_of_noneStale_list_put (hdistinct : s.DistinctRefs ref) {id : Id} {item : Item}
    (hfresh : ¬ s.Owned ref (ref item)) (h : ((s.list ref keys item).put id item).NoneStale ref)
    {old : Item} (hold : s.store id = some old) : ¬ s.Listed (ref old) := by
  rintro ⟨key, hr⟩
  obtain ⟨other, found, hstored, href⟩ := h key _ (Or.inl hr)
  rcases store_put_eq_some.mp hstored with ⟨-, rfl⟩ | ⟨hne, hstored⟩
  · exact hfresh ⟨id, old, hold, href.symm⟩
  · exact hne (hdistinct other id found old hstored hold href)

end IndexedStore
