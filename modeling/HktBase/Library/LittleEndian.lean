import Mathlib.Data.List.GetD
import Mathlib.Tactic.Common

/-!
# Little-endian words in byte lists

The memory image of a 32-bit word on a little-endian machine, and reading one
back from any position of a byte list.  Bytes past the end of the list read as
zero, so that reading is total: a caller that checks the length first never sees
them.
-/

/-- The four bytes of a 32-bit word, least significant first. -/
def writeUInt32 (x : UInt32) : List UInt8 :=
  [UInt8.ofNat x.toNat, UInt8.ofNat (x.toNat / 256), UInt8.ofNat (x.toNat / 65536),
    UInt8.ofNat (x.toNat / 16777216)]

/-- The 32-bit word whose bytes start at `offset`. -/
def readUInt32 (bytes : List UInt8) (offset : ℕ) : UInt32 :=
  let byte := fun i => (bytes.getD (offset + i) 0).toNat
  UInt32.ofNat (byte 0 + 256 * byte 1 + 65536 * byte 2 + 16777216 * byte 3)

@[simp] theorem length_writeUInt32 (x : UInt32) : (writeUInt32 x).length = 4 := rfl

/-- A word reads back from where it was written. -/
theorem readUInt32_write (front back : List UInt8) (x : UInt32) {offset : ℕ}
    (hoffset : front.length = offset) :
    readUInt32 (front ++ (writeUInt32 x ++ back)) offset = x := by
  have hbyte : ∀ i < 4, (front ++ (writeUInt32 x ++ back)).getD (offset + i) 0 =
      (writeUInt32 x).getD i 0 := by
    intro i hi
    rw [List.getD_append_right _ _ _ _ (by omega), List.getD_append _ _ _ _ (by simp; omega)]
    congr 1
    omega
  have hx := x.toNat_lt
  apply UInt32.toNat_inj.mp
  simp only [readUInt32, hbyte 0 (by omega), hbyte 1 (by omega), hbyte 2 (by omega),
    hbyte 3 (by omega), UInt32.toNat_ofNat']
  simp only [writeUInt32, List.getD_cons_zero, List.getD_cons_succ, UInt8.toNat_ofNat']
  omega
