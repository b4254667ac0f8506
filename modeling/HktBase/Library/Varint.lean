import Mathlib.Algebra.Group.Nat.Defs
import Mathlib.Data.Nat.Log
import Mathlib.Tactic.Common

/-!
# Base-128 numbers in byte lists

A natural number is written seven bits a byte, least significant first, and every byte
but the last has its high bit set.  The last byte is therefore recognised without a
length, so that a number reads back from the front of any byte list.
-/

namespace Varint

/-- The bytes of a number. -/
def encode (n : ℕ) : List UInt8 :=
  if n < 128 then [UInt8.ofNat n] else UInt8.ofNat (n % 128 + 128) :: encode (n / 128)

/-- The number at the front of a byte list and the bytes after it, unless the list ends
inside the number. -/
def decode : List UInt8 → Option (ℕ × List UInt8)
  | [] => none
  | byte :: rest =>
      if byte.toNat < 128 then some (byte.toNat, rest)
      else (decode rest).map fun result => (byte.toNat - 128 + 128 * result.1, result.2)

theorem encode_of_lt {n : ℕ} (h : n < 128) : encode n = [UInt8.ofNat n] := by
  rw [encode, if_pos h]

theorem encode_of_le {n : ℕ} (h : 128 ≤ n) :
    encode n = UInt8.ofNat (n % 128 + 128) :: encode (n / 128) := by
  rw [encode, if_neg (Nat.not_lt.mpr h)]

theorem toNat_ofNat_of_lt {n : ℕ} (h : n < 256) : (UInt8.ofNat n).toNat = n := by
  rw [UInt8.toNat_ofNat']
  omega

/-- A number reads back from where it was written, and leaves what follows it. -/
@[simp] theorem decode_encode_append (n : ℕ) (rest : List UInt8) :
    decode (encode n ++ rest) = some (n, rest) := by
  induction n using Nat.strongRecOn with
  | ind n ih =>
      by_cases h : n < 128
      · rw [encode_of_lt h, List.singleton_append, decode, toNat_ofNat_of_lt (by omega), if_pos h]
      · have hbyte : (UInt8.ofNat (n % 128 + 128)).toNat = n % 128 + 128 :=
          toNat_ofNat_of_lt (by omega)
        have hsmaller := ih (n / 128) (by omega)
        rw [encode_of_le (by omega), List.cons_append, decode, hbyte, if_neg (by omega), hsmaller]
        simp only [Option.map_some, Option.some.injEq, Prod.mk.injEq, and_true]
        omega

/-- Reading takes at least one byte. -/
theorem length_lt_of_decode {bytes rest : List UInt8} {n : ℕ} (h : decode bytes = some (n, rest)) :
    rest.length < bytes.length := by
  induction bytes generalizing n with
  | nil => simp [decode] at h
  | cons byte tail ih =>
      rw [decode] at h
      by_cases hbyte : byte.toNat < 128
      · rw [if_pos hbyte] at h
        obtain ⟨-, rfl⟩ := Prod.mk.inj (Option.some.inj h)
        exact Nat.lt_succ_self _
      · rw [if_neg hbyte, Option.map_eq_some_iff] at h
        obtain ⟨result, hresult, heq⟩ := h
        obtain ⟨-, rfl⟩ := Prod.mk.inj heq
        exact Nat.lt_succ_of_lt (ih hresult)

/-- Seven binary digits fit in a byte. -/
theorem length_encode (n : ℕ) : (encode n).length = Nat.log 2 n / 7 + 1 := by
  induction n using Nat.strongRecOn with
  | ind n ih =>
      by_cases h : n < 128
      · have hlog : Nat.log 2 n < 7 := Nat.log_lt_of_lt_pow' (by omega) (by omega)
        rw [encode_of_lt h, List.length_singleton]
        omega
      · have hlog : Nat.log 2 (n / 128) = Nat.log 2 n - 7 := Nat.log_div_base_pow 2 n 7
        have hle : 7 ≤ Nat.log 2 n := Nat.le_log_of_pow_le (by omega) (by omega)
        calc (encode n).length = (encode (n / 128)).length + 1 := by
              rw [encode_of_le (by omega), List.length_cons]
          _ = (Nat.log 2 n - 7) / 7 + 1 + 1 := by rw [ih (n / 128) (by omega), hlog]
          _ = Nat.log 2 n / 7 + 1 := by omega

end Varint
