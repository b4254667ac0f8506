import Mathlib.Data.List.Basic
import Mathlib.Data.List.ReduceOption
import Mathlib.Tactic.Common

/-!
# Maps kept in a sparse array

A map whose pairs lie in an array of slots.  A removed pair leaves an empty slot
behind, the empty slots are chained into a free list, and a new pair goes into
the slot that was freed last, or to the end of the array when there is none.
Iteration follows the array, so it is neither the order of insertion nor that of
the keys: it depends on the whole history of the map.

Users of the map need not look at slots: `find_add` and `find_remove` say what a lookup
returns after an update, and `find_eq_some_iff` that the entries enumerate the lookups.
-/

variable {K V : Type*}

/-- No key lies in two slots of the array. -/
def DistinctKeys (slots : List (Option (K × V))) : Prop :=
  ∀ (i j : ℕ) (k : K) (v w : V), slots[i]? = some (some (k, v)) →
    slots[j]? = some (some (k, w)) → i = j

/-- A map from `K` to `V` stored in an array of slots with a free list. -/
structure SparseMap (K V : Type*) where
  slots : List (Option (K × V))
  free : List ℕ
  distinct : DistinctKeys slots
  /-- The free list names empty slots, each of them once. -/
  vacant : ∀ i ∈ free, slots[i]? = some none
  free_nodup : free.Nodup

/-! ## Arrays of slots -/

/-- Whatever a slot is set to, no other slot changes. -/
theorem getElem?_set_eq_some {slots : List (Option (K × V))} {i j : ℕ} {content : Option (K × V)}
    {entry : K × V} (h : (slots.set i content)[j]? = some (some entry)) :
    (j = i ∧ content = some entry) ∨ (j ≠ i ∧ slots[j]? = some (some entry)) := by
  rw [List.getElem?_set] at h
  split at h
  · next hij =>
      split at h
      · exact Or.inl ⟨hij.symm, by simpa using h⟩
      · simp at h
  · next hij => exact Or.inr ⟨fun hji => hij hji.symm, h⟩

/-- A key may be written into a slot if it lies in no other one. -/
theorem DistinctKeys.set {slots : List (Option (K × V))} (h : DistinctKeys slots) {i : ℕ} {k : K}
    {v : V} (hk : ∀ (j : ℕ) (w : V), slots[j]? = some (some (k, w)) → j = i) :
    DistinctKeys (slots.set i (some (k, v))) := by
  intro a b key x y ha hb
  rcases getElem?_set_eq_some ha with ⟨hai, hx⟩ | ⟨hai, ha'⟩ <;>
    rcases getElem?_set_eq_some hb with ⟨hbi, hy⟩ | ⟨hbi, hb'⟩
  · rw [hai, hbi]
  · obtain ⟨rfl, -⟩ : k = key ∧ v = x := by simpa using hx
    exact absurd (hk b y hb') hbi
  · obtain ⟨rfl, -⟩ : k = key ∧ v = y := by simpa using hy
    exact absurd (hk a x ha') hai
  · exact h a b key x y ha' hb'

theorem DistinctKeys.set_none {slots : List (Option (K × V))} (h : DistinctKeys slots) (i : ℕ) :
    DistinctKeys (slots.set i none) := by
  intro a b key x y ha hb
  rcases getElem?_set_eq_some ha with ⟨-, hx⟩ | ⟨-, ha'⟩
  · simp at hx
  rcases getElem?_set_eq_some hb with ⟨-, hy⟩ | ⟨-, hb'⟩
  · simp at hy
  exact h a b key x y ha' hb'

theorem getElem?_concat_eq_some {slots : List (Option (K × V))} {j : ℕ} {new entry : K × V} :
    (slots ++ [some new])[j]? = some (some entry) ↔
      slots[j]? = some (some entry) ∨ (j = slots.length ∧ new = entry) := by
  rw [List.getElem?_append]
  split
  · next hlt =>
      have hj : j ≠ slots.length := by omega
      simp [hj]
  · next hge =>
      rw [List.getElem?_singleton, List.getElem?_eq_none (l := slots) (by omega)]
      split
      · next hzero =>
          have hj : j = slots.length := by omega
          simp [hj]
      · next hpos =>
          have hj : j ≠ slots.length := by omega
          simp [hj]

theorem DistinctKeys.concat {slots : List (Option (K × V))} (h : DistinctKeys slots) {k : K}
    {v : V} (hk : ∀ (j : ℕ) (w : V), slots[j]? ≠ some (some (k, w))) :
    DistinctKeys (slots ++ [some (k, v)]) := by
  intro a b key x y ha hb
  rcases getElem?_concat_eq_some.mp ha with ha | ⟨ha, hx⟩ <;>
    rcases getElem?_concat_eq_some.mp hb with hb | ⟨hb, hy⟩
  · exact h a b key x y ha hb
  · obtain ⟨rfl, -⟩ : k = key ∧ v = y := by simpa using hy
    exact absurd ha (hk a x)
  · obtain ⟨rfl, -⟩ : k = key ∧ v = x := by simpa using hx
    exact absurd hb (hk b y)
  · rw [ha, hb]

theorem DistinctKeys.tail {slot : Option (K × V)} {rest : List (Option (K × V))}
    (h : DistinctKeys (slot :: rest)) : DistinctKeys rest := by
  intro i j k v w hi hj
  have hsame := h (i + 1) (j + 1) k v w (by simpa using hi) (by simpa using hj)
  omega

namespace SparseMap

/-! ## Operations -/

instance : EmptyCollection (SparseMap K V) where
  emptyCollection :=
    { slots := []
      free := []
      distinct := by simp [DistinctKeys]
      vacant := by simp
      free_nodup := List.nodup_nil }

instance : Inhabited (SparseMap K V) := ⟨∅⟩

/-- The pairs of the map in the order in which an iteration visits them. -/
def entries (m : SparseMap K V) : List (K × V) :=
  m.slots.reduceOption

/-- The keys in the order of iteration. -/
def keys (m : SparseMap K V) : List K :=
  m.entries.map Prod.fst

/-- The number of pairs. -/
def num (m : SparseMap K V) : ℕ :=
  m.entries.length

variable [DecidableEq K]

/-- The value stored under a key. -/
def find (m : SparseMap K V) (k : K) : Option V :=
  (m.entries.find? fun entry => entry.1 = k).map Prod.snd

def contains (m : SparseMap K V) (k : K) : Bool :=
  (m.find k).isSome

/-- The slot in which a key lies. -/
def slotOf (m : SparseMap K V) (k : K) : Option ℕ :=
  m.slots.findIdx? fun slot => slot.any fun entry => entry.1 = k

theorem slotOf_eq_some {m : SparseMap K V} {k : K} {i : ℕ} (h : m.slotOf k = some i) :
    ∃ v, m.slots[i]? = some (some (k, v)) := by
  obtain ⟨hi, hslot, -⟩ := List.findIdx?_eq_some_iff_getElem.mp h
  cases hcontent : m.slots[i] with
  | none => simp [hcontent] at hslot
  | some entry =>
      obtain ⟨key, v⟩ := entry
      have hkey : key = k := by simpa [hcontent] using hslot
      exact ⟨v, by rw [List.getElem?_eq_getElem hi, hcontent, hkey]⟩

theorem slotOf_eq_none {m : SparseMap K V} {k : K} (h : m.slotOf k = none) (i : ℕ) (v : V) :
    m.slots[i]? ≠ some (some (k, v)) := by
  intro hslot
  have hmem : some (k, v) ∈ m.slots := List.mem_of_getElem? hslot
  simpa using List.findIdx?_eq_none_iff.mp h _ hmem

/-- Store a value under a key: in place when the key is present, otherwise in the
slot freed last or at the end of the array. -/
def add (m : SparseMap K V) (k : K) (v : V) : SparseMap K V :=
  match hslot : m.slotOf k with
  | some i =>
      { slots := m.slots.set i (some (k, v))
        free := m.free
        distinct := by
          obtain ⟨old, hold⟩ := slotOf_eq_some hslot
          exact m.distinct.set fun j w hj => m.distinct j i k w old hj hold
        vacant := by
          obtain ⟨old, hold⟩ := slotOf_eq_some hslot
          intro j hj
          have hne : i ≠ j := by
            rintro rfl
            simp [m.vacant _ hj] at hold
          rw [List.getElem?_set_ne hne, m.vacant j hj]
        free_nodup := m.free_nodup }
  | none =>
      match hfree : m.free with
      | [] =>
          { slots := m.slots ++ [some (k, v)]
            free := []
            distinct := m.distinct.concat (slotOf_eq_none hslot)
            vacant := by simp
            free_nodup := List.nodup_nil }
      | i :: rest =>
          { slots := m.slots.set i (some (k, v))
            free := rest
            distinct := m.distinct.set fun j w hj => absurd hj (slotOf_eq_none hslot j w)
            vacant := by
              have hnodup := m.free_nodup
              rw [hfree, List.nodup_cons] at hnodup
              intro j hj
              have hne : i ≠ j := fun hij => hnodup.1 (hij ▸ hj)
              rw [List.getElem?_set_ne hne, m.vacant j (by rw [hfree]; exact .tail _ hj)]
            free_nodup := by
              have hnodup := m.free_nodup
              rw [hfree, List.nodup_cons] at hnodup
              exact hnodup.2 }

/-- Remove a key: its slot is emptied and heads the free list. -/
def remove (m : SparseMap K V) (k : K) : SparseMap K V :=
  match hslot : m.slotOf k with
  | none => m
  | some i =>
      { slots := m.slots.set i none
        free := i :: m.free
        distinct := m.distinct.set_none i
        vacant := by
          obtain ⟨old, hold⟩ := slotOf_eq_some hslot
          have hlt : i < m.slots.length := (List.getElem?_eq_some_iff.mp hold).1
          intro j hj
          by_cases hij : i = j
          · subst hij
            rw [List.getElem?_set_self hlt]
          · rw [List.getElem?_set_ne hij]
            rcases List.mem_cons.mp hj with rfl | hj
            · exact absurd rfl hij
            · exact m.vacant j hj
        free_nodup := by
          obtain ⟨old, hold⟩ := slotOf_eq_some hslot
          refine List.nodup_cons.mpr ⟨fun hmem => ?_, m.free_nodup⟩
          simp [m.vacant _ hmem] at hold }

/-- Whether `find` returns nothing on any key. -/
def isEmpty (m : SparseMap K V) : Bool :=
  m.num = 0

/-! ## Lookups and slots -/

omit [DecidableEq K] in
theorem mem_entries_iff {m : SparseMap K V} {k : K} {v : V} :
    (k, v) ∈ m.entries ↔ ∃ i : ℕ, m.slots[i]? = some (some (k, v)) := by
  rw [entries, List.reduceOption_mem_iff, List.mem_iff_getElem?]

/-- The entries of a map enumerate its lookups: a key lies in one slot at most, so that the
first entry with it is the only one. -/
theorem find_eq_some_iff {m : SparseMap K V} {k : K} {v : V} :
    m.find k = some v ↔ (k, v) ∈ m.entries := by
  rw [find, Option.map_eq_some_iff]
  constructor
  · rintro ⟨⟨key, value⟩, hfound, rfl⟩
    have hkey : key = k := by simpa using List.find?_some hfound
    exact hkey ▸ List.mem_of_find?_eq_some hfound
  · intro hmem
    have hsome : (m.entries.find? fun entry => entry.1 = k).isSome := by
      rw [List.find?_isSome]
      exact ⟨(k, v), hmem, by simp⟩
    obtain ⟨⟨key, value⟩, hfound⟩ := Option.isSome_iff_exists.mp hsome
    have hkey : key = k := by simpa using List.find?_some hfound
    subst hkey
    obtain ⟨i, hi⟩ := mem_entries_iff.mp hmem
    obtain ⟨j, hj⟩ := mem_entries_iff.mp (List.mem_of_find?_eq_some hfound)
    obtain rfl := m.distinct _ _ _ _ _ hi hj
    have hvalue : v = value := by simpa [hi] using hj
    exact ⟨(key, value), hfound, hvalue.symm⟩

theorem find_eq_some_iff_slot {m : SparseMap K V} {k : K} {v : V} :
    m.find k = some v ↔ ∃ i : ℕ, m.slots[i]? = some (some (k, v)) :=
  find_eq_some_iff.trans mem_entries_iff

theorem contains_iff {m : SparseMap K V} {k : K} : m.contains k = true ↔ ∃ v, m.find k = some v := by
  rw [contains, Option.isSome_iff_exists]

theorem mem_keys {m : SparseMap K V} {k : K} : k ∈ m.keys ↔ ∃ v, m.find k = some v := by
  simp only [keys, List.mem_map, find_eq_some_iff, Prod.exists, exists_and_right, exists_eq_right]

@[simp] theorem find_empty (k : K) : (∅ : SparseMap K V).find k = none := rfl

@[simp] theorem contains_empty (k : K) : (∅ : SparseMap K V).contains k = false := rfl

/-- Two maps with the same slots that hold a key look it up alike. -/
theorem find_congr {m n : SparseMap K V} {k : K}
    (h : ∀ v, (∃ i : ℕ, m.slots[i]? = some (some (k, v))) ↔
      ∃ i : ℕ, n.slots[i]? = some (some (k, v))) :
    m.find k = n.find k := by
  refine Option.ext fun v => ?_
  simp only [find_eq_some_iff_slot, h]

/-! ## Lookups after an update -/

theorem find_add_self (m : SparseMap K V) (k : K) (v : V) : (m.add k v).find k = some v := by
  rw [find_eq_some_iff_slot]
  unfold add
  split
  · next i hslot =>
      obtain ⟨old, hold⟩ := slotOf_eq_some hslot
      exact ⟨i, List.getElem?_set_self (List.getElem?_eq_some_iff.mp hold).1⟩
  · split
    · exact ⟨m.slots.length, by simp⟩
    · next i rest hfree =>
        have hvacant := m.vacant i (by rw [hfree]; exact .head _)
        exact ⟨i, List.getElem?_set_self (List.getElem?_eq_some_iff.mp hvacant).1⟩

omit [DecidableEq K] in
/-- Setting a slot that holds `k` or nothing does not move the other keys. -/
theorem exists_getElem?_set_iff {slots : List (Option (K × V))} {i : ℕ} {k k' : K}
    (hi : slots[i]? = some none ∨ ∃ v, slots[i]? = some (some (k, v)))
    {content : Option (K × V)} (hcontent : content = none ∨ ∃ v, content = some (k, v))
    (hne : k' ≠ k) (v : V) :
    (∃ j : ℕ, (slots.set i content)[j]? = some (some (k', v))) ↔
      ∃ j : ℕ, slots[j]? = some (some (k', v)) := by
  constructor
  · rintro ⟨j, hj⟩
    rcases getElem?_set_eq_some hj with ⟨-, hx⟩ | ⟨-, hj'⟩
    · rcases hcontent with rfl | ⟨w, rfl⟩
      · simp at hx
      · exact absurd (by simpa using hx : k = k' ∧ w = v).1.symm hne
    · exact ⟨j, hj'⟩
  · rintro ⟨j, hj⟩
    have hij : i ≠ j := by
      rintro rfl
      rcases hi with hi | ⟨w, hi⟩
      · simp [hi] at hj
      · exact hne (by simpa [hi] using hj : k = k' ∧ w = v).1.symm
    exact ⟨j, by rw [List.getElem?_set_ne hij, hj]⟩

theorem find_add_of_ne (m : SparseMap K V) {k k' : K} (v : V) (hne : k' ≠ k) :
    (m.add k v).find k' = m.find k' := by
  refine find_congr fun w => ?_
  unfold add
  split
  · next i hslot =>
      exact exists_getElem?_set_iff (Or.inr (slotOf_eq_some hslot)) (Or.inr ⟨v, rfl⟩) hne w
  · split
    · simp only [getElem?_concat_eq_some]
      constructor
      · rintro ⟨j, hj | ⟨-, hj⟩⟩
        · exact ⟨j, hj⟩
        · exact absurd (by simpa using hj : k = k' ∧ v = w).1.symm hne
      · rintro ⟨j, hj⟩
        exact ⟨j, Or.inl hj⟩
    -- a slot of the free list is empty
    · next i rest hfree =>
        have hvacant := m.vacant i (by rw [hfree]; exact .head _)
        exact exists_getElem?_set_iff (Or.inl hvacant) (Or.inr ⟨v, rfl⟩) hne w

theorem find_add (m : SparseMap K V) (k k' : K) (v : V) :
    (m.add k v).find k' = if k' = k then some v else m.find k' := by
  split
  · next h => rw [h, find_add_self]
  · next h => exact find_add_of_ne m v h

theorem find_remove (m : SparseMap K V) (k k' : K) :
    (m.remove k).find k' = if k' = k then none else m.find k' := by
  unfold remove
  split
  · next hslot =>
      split
      · next h =>
          subst h
          refine Option.eq_none_iff_forall_ne_some.mpr fun v hv => ?_
          obtain ⟨i, hi⟩ := find_eq_some_iff_slot.mp hv
          exact slotOf_eq_none hslot i v hi
      · rfl
  · next i hslot =>
      obtain ⟨old, hold⟩ := slotOf_eq_some hslot
      split
      · next h =>
          subst h
          -- a second slot with the key would break `distinct`
          refine Option.eq_none_iff_forall_ne_some.mpr fun v hv => ?_
          obtain ⟨j, hj⟩ := find_eq_some_iff_slot.mp hv
          rcases getElem?_set_eq_some hj with ⟨-, hx⟩ | ⟨hji, hj'⟩
          · simp at hx
          · exact hji (m.distinct _ _ _ _ _ hj' hold)
      · next h =>
          exact find_congr fun v =>
            exists_getElem?_set_iff (Or.inr ⟨old, hold⟩) (Or.inl rfl) h v

/-- Removing an absent key leaves the map as it is, its slots and free list included. -/
theorem remove_of_find_eq_none {m : SparseMap K V} {k : K} (hnone : m.find k = none) :
    m.remove k = m := by
  unfold remove
  split
  · rfl
  · next i hslot =>
      obtain ⟨v, hv⟩ := slotOf_eq_some hslot
      rw [find_eq_some_iff_slot.mpr ⟨i, hv⟩] at hnone
      simp at hnone

theorem contains_add {m : SparseMap K V} {k k' : K} {v : V} :
    (m.add k v).contains k' = true ↔ k' = k ∨ m.contains k' = true := by
  simp only [contains, find_add]
  split <;> simp_all

theorem contains_remove {m : SparseMap K V} {k k' : K} :
    (m.remove k).contains k' = true ↔ k' ≠ k ∧ m.contains k' = true := by
  simp only [contains, find_remove]
  split <;> simp_all

theorem isEmpty_iff {m : SparseMap K V} : m.isEmpty = true ↔ ∀ k, m.find k = none := by
  rw [isEmpty, num, decide_eq_true_eq, List.length_eq_zero_iff, List.eq_nil_iff_forall_not_mem]
  constructor
  · intro h k
    exact Option.eq_none_iff_forall_ne_some.mpr fun v hv => h _ (find_eq_some_iff.mp hv)
  · rintro h ⟨k, v⟩ hmem
    have hnone := h k
    rw [find_eq_some_iff.mpr hmem] at hnone
    simp at hnone

/-! ## Iteration -/

omit [DecidableEq K] in
theorem nodup_keys_of_distinct : ∀ {slots : List (Option (K × V))}, DistinctKeys slots →
    (slots.reduceOption.map Prod.fst).Nodup := by
  intro slots
  induction slots with
  | nil => intro _; simp
  | cons slot rest ih =>
      intro h
      cases slot with
      | none => simpa using ih h.tail
      | some entry =>
          simp only [List.reduceOption_cons_of_some, List.map_cons, List.nodup_cons]
          refine ⟨?_, ih h.tail⟩
          intro hmem
          obtain ⟨⟨k, w⟩, hentry, hkey⟩ := List.mem_map.mp hmem
          obtain ⟨j, hj⟩ := List.mem_iff_getElem?.mp (List.reduceOption_mem_iff.mp hentry)
          have hzero : (some entry :: rest)[0]? = some (some (k, entry.2)) := by
            rw [List.getElem?_cons_zero, show k = entry.1 from hkey]
          have := h 0 (j + 1) k entry.2 w hzero (by simpa using hj)
          omega

/-- Emptying the slot of a key leaves the entries of the other keys, in their order, so that an
iteration over the map after a removal skips one entry. -/
theorem reduceOption_set_none {slots : List (Option (K × V))} (h : DistinctKeys slots) {i : ℕ}
    {k : K} {v : V} (hslot : slots[i]? = some (some (k, v))) :
    (slots.set i none).reduceOption = slots.reduceOption.filter fun entry => entry.1 ≠ k := by
  induction slots generalizing i with
  | nil => simp at hslot
  | cons slot rest ih =>
      cases i with
      | zero =>
          obtain rfl : slot = some (k, v) := by simpa using hslot
          have hrest : ∀ entry ∈ rest.reduceOption, entry.1 ≠ k := by
            rintro ⟨key, w⟩ hentry rfl
            obtain ⟨j, hj⟩ := List.mem_iff_getElem?.mp (List.reduceOption_mem_iff.mp hentry)
            have hsame := h 0 (j + 1) key v w hslot (by simpa using hj)
            omega
          rw [List.set_cons_zero, List.reduceOption_cons_of_none, List.reduceOption_cons_of_some,
            List.filter_cons_of_neg (by simp)]
          exact (List.filter_eq_self.mpr (by simpa using hrest)).symm
      | succ i =>
          have hslot' : rest[i]? = some (some (k, v)) := by simpa using hslot
          rw [List.set_cons_succ]
          cases slot with
          | none =>
              rw [List.reduceOption_cons_of_none, List.reduceOption_cons_of_none]
              exact ih h.tail hslot'
          | some entry =>
              have hne : entry.1 ≠ k := by
                rintro rfl
                have hsame := h 0 (i + 1) entry.1 entry.2 v rfl hslot
                omega
              rw [List.reduceOption_cons_of_some, List.reduceOption_cons_of_some,
                List.filter_cons_of_pos (by simpa using hne), ih h.tail hslot']

/-- A removal leaves the other entries as they are, in their order. -/
theorem entries_remove (m : SparseMap K V) (k : K) :
    (m.remove k).entries = m.entries.filter fun entry => entry.1 ≠ k := by
  unfold remove
  split
  · next hslot =>
      refine (List.filter_eq_self.mpr ?_).symm
      rintro ⟨key, v⟩ hentry
      obtain ⟨i, hi⟩ := mem_entries_iff.mp hentry
      refine decide_eq_true fun hkey => ?_
      rw [show key = k from hkey] at hi
      exact slotOf_eq_none hslot i v hi
  · next i hslot =>
      obtain ⟨v, hv⟩ := slotOf_eq_some hslot
      exact reduceOption_set_none m.distinct hv

theorem entries_foldl_remove (m : SparseMap K V) (keys : List K) :
    (keys.foldl remove m).entries = m.entries.filter fun entry => entry.1 ∉ keys := by
  induction keys generalizing m with
  | nil => simp
  | cons k rest ih =>
      rw [List.foldl_cons, ih, entries_remove, List.filter_filter]
      refine List.filter_congr fun entry _ => ?_
      simp only [List.mem_cons, not_or, Bool.decide_and, ne_eq]
      exact Bool.and_comm ..

omit [DecidableEq K] in
/-- An iteration visits no key twice. -/
theorem nodup_keys (m : SparseMap K V) : m.keys.Nodup :=
  nodup_keys_of_distinct m.distinct

end SparseMap
