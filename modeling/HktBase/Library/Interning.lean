import Mathlib.Data.List.Find
import Mathlib.Data.List.Infix
import Mathlib.Data.Set.Function
import Mathlib.Tactic.Common

/-!
# Numbers given out at first use

A counter that gives every key the next number when the key is used for the first time
numbers the keys by their positions in `firstUses`, the list of the keys in the order of
their first uses.  A number never changes once it is given (`idxOf_use_of_mem`).

Two parties that number the keys on their own understand each other when one encodes with
its numbers and the other decodes with its own: a code stands for the key that was entered
under it first.  `decode_eq_self_iff` says that this works for all entered keys exactly
when the two numberings agree on them and give no two of them the same code.
-/

variable {α γ : Type*}

namespace Interning

/-! ## The order of first use -/

section

variable [DecidableEq α]

/-- A key that was not used before goes to the end of the table. -/
def use (table : List α) (key : α) : List α :=
  if key ∈ table then table else table ++ [key]

/-- The keys in the order of their first uses. -/
def firstUses (uses : List α) : List α :=
  uses.foldl use []

theorem firstUses_concat (uses : List α) (key : α) :
    firstUses (uses ++ [key]) = use (firstUses uses) key := by
  simp [firstUses]

theorem use_of_mem {table : List α} {key : α} (h : key ∈ table) : use table key = table :=
  if_pos h

theorem use_of_notMem {table : List α} {key : α} (h : key ∉ table) :
    use table key = table ++ [key] :=
  if_neg h

@[simp] theorem mem_use {table : List α} {key other : α} :
    other ∈ use table key ↔ other ∈ table ∨ other = key := by
  by_cases h : key ∈ table
  · rw [use_of_mem h]
    constructor
    · exact Or.inl
    · intro hother
      rcases hother with hother | rfl
      · exact hother
      · exact h
  · rw [use_of_notMem h, List.mem_append, List.mem_singleton]

@[simp] theorem mem_firstUses {uses : List α} {key : α} : key ∈ firstUses uses ↔ key ∈ uses := by
  induction uses using List.reverseRecOn with
  | nil => simp [firstUses]
  | append_singleton before last ih =>
      rw [firstUses_concat, mem_use, ih, List.mem_append, List.mem_singleton]

theorem idxOf_use_of_mem {table : List α} {key : α} (h : key ∈ table) (other : α) :
    (use table other).idxOf key = table.idxOf key := by
  by_cases hother : other ∈ table
  · rw [use_of_mem hother]
  · rw [use_of_notMem hother, List.idxOf_append_of_mem h]

theorem idxOf_use_self {table : List α} {key : α} (h : key ∉ table) :
    (use table key).idxOf key = table.length := by
  rw [use_of_notMem h, List.idxOf_append_of_notMem h]
  simp

theorem position_lt {uses : List α} {key : α} (h : key ∈ uses) :
    (firstUses uses).idxOf key < (firstUses uses).length :=
  List.idxOf_lt_length_of_mem (mem_firstUses.mpr h)

theorem position_inj {uses : List α} {key other : α} (h : key ∈ uses) :
    (firstUses uses).idxOf key = (firstUses uses).idxOf other ↔ key = other :=
  List.idxOf_inj (mem_firstUses.mpr h)

end

/-! ## Encoding and decoding -/

section

variable [DecidableEq γ] (code : α → γ)

/-- The key that was entered under a code first. -/
def decode (entered : List α) (c : γ) : Option α :=
  entered.find? fun key => code key = c

theorem decode_concat (entered : List α) (key : α) (c : γ) :
    decode code (entered ++ [key]) c =
      (decode code entered c).or (if code key = c then some key else none) := by
  unfold decode
  rw [List.find?_append, List.find?_singleton]
  simp

variable {code}

theorem decode_eq_none_iff {entered : List α} {c : γ} :
    decode code entered c = none ↔ ∀ key ∈ entered, code key ≠ c := by
  simp [decode]

theorem mem_of_decode {entered : List α} {c : γ} {key : α}
    (h : decode code entered c = some key) : key ∈ entered ∧ code key = c :=
  ⟨List.mem_of_find?_eq_some h, by simpa using List.find?_some h⟩

theorem decode_congr {code' : α → γ} {entered : List α}
    (h : ∀ key ∈ entered, code key = code' key) (c : γ) :
    decode code entered c = decode code' entered c :=
  List.find?_congr fun key hkey => by rw [h key hkey]

/-- Every entered key survives encoding by one party and decoding by the other exactly
when the two numberings agree and the keys have different codes. -/
theorem decode_eq_self_iff {sent : α → γ} {entered : List α} :
    (∀ key ∈ entered, decode code entered (sent key) = some key) ↔
      Set.EqOn sent code {key | key ∈ entered} ∧ Set.InjOn code {key | key ∈ entered} := by
  constructor
  · intro h
    have hsent : Set.EqOn sent code {key | key ∈ entered} := fun key hkey =>
      (mem_of_decode (h key hkey)).2.symm
    refine ⟨hsent, ?_⟩
    intro key hkey other hother hcode
    have hfirst := h key hkey
    rw [hsent hkey, hcode, ← hsent hother, h other hother] at hfirst
    exact (Option.some.inj hfirst).symm
  · intro ⟨hsent, hinj⟩ key hkey
    rw [hsent hkey]
    cases hdecode : decode code entered (code key) with
    | none => exact absurd rfl (decode_eq_none_iff.mp hdecode key hkey)
    | some other =>
        obtain ⟨hother, hcode⟩ := mem_of_decode hdecode
        rw [hinj hother hkey hcode]

end

end Interning
