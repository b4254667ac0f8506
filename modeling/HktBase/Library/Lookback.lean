import Mathlib.Data.Nat.Bitwise
import Mathlib.Data.Set.Insert
import Mathlib.Tactic.Common

/-!
# Bitfields that look back from a head

A 32-bit field read relative to a head: bit `i` stands for the number `i + 1`
before the head, modulo `2 ^ 32`.  `lookback head bits` is the set of numbers the
field stands for.  The lemmas say what the set becomes under the operations that
programs use on such fields: a new bit is set, the field is shifted when the head
moves forward, or the field starts afresh.
-/

/-! ## Bits of 32-bit words -/

namespace UInt32

theorem toNat_ofNat_of_lt_size {n : ℕ} (h : n < 32) : (UInt32.ofNat n).toNat = n := by
  rw [UInt32.toNat_ofNat']
  omega

/-- The test `(x >> i) & 1` reads bit `i`. -/
theorem shiftRight_and_one_ne_zero_iff {x : UInt32} {i : ℕ} (hi : i < 32) :
    (x >>> UInt32.ofNat i) &&& 1 ≠ 0 ↔ x.toNat.testBit i = true := by
  have hzero : ((x >>> UInt32.ofNat i) &&& 1 = 0) ↔ (x.toNat >>> i) &&& 1 = 0 := by
    rw [← UInt32.toNat_inj, UInt32.toNat_and, UInt32.toNat_shiftRight,
      toNat_ofNat_of_lt_size hi, Nat.mod_eq_of_lt hi]
    rfl
  rw [ne_eq, hzero, Nat.testBit, Nat.and_comm]
  simp

@[simp] theorem testBit_or (x y : UInt32) (i : ℕ) :
    (x ||| y).toNat.testBit i = (x.toNat.testBit i || y.toNat.testBit i) := by
  rw [UInt32.toNat_or, Nat.testBit_or]

theorem testBit_one (i : ℕ) : (1 : UInt32).toNat.testBit i = decide (i = 0) := by
  have h : (1 : UInt32).toNat = 2 ^ 0 := rfl
  rw [h, Nat.testBit_two_pow]
  simp [eq_comm]

theorem testBit_shiftLeft {x d : UInt32} (hd : d.toNat < 32) (i : ℕ) :
    (x <<< d).toNat.testBit i =
      (decide (i < 32) && decide (d.toNat ≤ i) && x.toNat.testBit (i - d.toNat)) := by
  rw [UInt32.toNat_shiftLeft, Nat.mod_eq_of_lt hd, Nat.testBit_mod_two_pow, Nat.testBit_shiftLeft,
    Bool.and_assoc]

theorem testBit_one_shiftLeft {d : UInt32} (hd : d.toNat < 32) (i : ℕ) :
    ((1 : UInt32) <<< d).toNat.testBit i = decide (i = d.toNat) := by
  rw [testBit_shiftLeft hd, testBit_one]
  by_cases h : i = d.toNat
  · simp [h, hd]
  · by_cases hle : d.toNat ≤ i
    · have : i - d.toNat ≠ 0 := by omega
      simp [h, this]
    · simp [h, hle]

end UInt32

/-! ## The numbers a field stands for -/

/-- The numbers before `head` whose bits are set: bit `i` stands for
`head - (i + 1)` modulo `2 ^ 32`. -/
def lookback (head bits : UInt32) : Set UInt32 :=
  {s | ∃ i < 32, bits.toNat.testBit i = true ∧ s = head - UInt32.ofNat (i + 1)}

instance (head bits s : UInt32) : Decidable (s ∈ lookback head bits) :=
  inferInstanceAs (Decidable (∃ i < 32, bits.toNat.testBit i = true ∧
    s = head - UInt32.ofNat (i + 1)))

theorem mem_lookback {head bits s : UInt32} :
    s ∈ lookback head bits ↔
      ∃ i < 32, bits.toNat.testBit i = true ∧ s = head - UInt32.ofNat (i + 1) :=
  Iff.rfl

theorem head_notMem_lookback (head bits : UInt32) : head ∉ lookback head bits := by
  rintro ⟨i, hi, -, hs⟩
  have hone : (UInt32.ofNat (i + 1)).toNat = i + 1 := by
    rw [UInt32.toNat_ofNat']
    omega
  have h := congrArg UInt32.toNat hs
  rw [UInt32.toNat_sub, hone] at h
  have := head.toNat_lt
  omega

@[simp] theorem lookback_zero (head : UInt32) : lookback head 0 = ∅ := by
  ext s
  simp [mem_lookback]

theorem lookback_or (head x y : UInt32) :
    lookback head (x ||| y) = lookback head x ∪ lookback head y := by
  ext s
  simp only [mem_lookback, UInt32.testBit_or, Bool.or_eq_true, Set.mem_union]
  constructor
  · rintro ⟨i, hi, hx | hy, hs⟩
    · exact Or.inl ⟨i, hi, hx, hs⟩
    · exact Or.inr ⟨i, hi, hy, hs⟩
  · rintro (⟨i, hi, hx, hs⟩ | ⟨i, hi, hy, hs⟩)
    · exact ⟨i, hi, Or.inl hx, hs⟩
    · exact ⟨i, hi, Or.inr hy, hs⟩

theorem lookback_one (head : UInt32) : lookback head 1 = {head - 1} := by
  ext s
  simp only [mem_lookback, UInt32.testBit_one, decide_eq_true_eq, Set.mem_singleton_iff]
  constructor
  · rintro ⟨i, -, rfl, hs⟩
    exact hs
  · intro hs
    exact ⟨0, by decide, rfl, hs⟩

/-- A single bit stands for a single number. -/
theorem lookback_one_shiftLeft {head d : UInt32} (hd : d.toNat < 32) :
    lookback head (1 <<< d) = {head - (d + 1)} := by
  have hsucc : UInt32.ofNat (d.toNat + 1) = d + 1 := by
    rw [UInt32.ofNat_add, UInt32.ofNat_toNat]
    rfl
  ext s
  simp only [mem_lookback, UInt32.testBit_one_shiftLeft hd, decide_eq_true_eq,
    Set.mem_singleton_iff]
  constructor
  · rintro ⟨i, -, rfl, hs⟩
    rwa [hsucc] at hs
  · intro hs
    exact ⟨d.toNat, hd, rfl, by rwa [hsucc]⟩

/-- When the head moves forward by `d` and the field is shifted by `d`, the field
stands for the same numbers, less those that fall out at its far end. -/
theorem mem_lookback_shiftLeft {head bits d : UInt32} (hd : d.toNat < 32) {s : UInt32} :
    s ∈ lookback (head + d) (bits <<< d) ↔
      ∃ i, i + d.toNat < 32 ∧ bits.toNat.testBit i = true ∧ s = head - UInt32.ofNat (i + 1) := by
  have hmove : ∀ i : ℕ, head + d - UInt32.ofNat (i + d.toNat + 1) =
      head - UInt32.ofNat (i + 1) := by
    intro i
    have hsplit : UInt32.ofNat (i + d.toNat + 1) = UInt32.ofNat (i + 1) + d := by
      rw [show i + d.toNat + 1 = (i + 1) + d.toNat by omega, UInt32.ofNat_add,
        UInt32.ofNat_toNat]
    rw [hsplit]
    grind
  simp only [mem_lookback, UInt32.testBit_shiftLeft hd, Bool.and_eq_true, decide_eq_true_eq]
  constructor
  · rintro ⟨j, hj, ⟨⟨-, hle⟩, hbit⟩, hs⟩
    refine ⟨j - d.toNat, by omega, hbit, ?_⟩
    rw [hs, ← hmove (j - d.toNat), Nat.sub_add_cancel hle]
  · rintro ⟨i, hi, hbit, hs⟩
    refine ⟨i + d.toNat, hi, ⟨⟨hi, by omega⟩, ?_⟩, ?_⟩
    · rwa [Nat.add_sub_cancel]
    · rw [hs, hmove]

theorem lookback_shiftLeft_subset (head bits : UInt32) {d : UInt32} (hd : d.toNat < 32) :
    lookback (head + d) (bits <<< d) ⊆ lookback head bits := by
  intro s hs
  obtain ⟨i, hi, hbit, rfl⟩ := (mem_lookback_shiftLeft hd).mp hs
  exact ⟨i, by omega, hbit, rfl⟩
