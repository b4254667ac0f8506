import Mathlib.Data.UInt
import HktBase.Library.WireFormat

/-!
# The coded stream

The inline helpers of `coded_stream.h` and `wire_format_lite.h` with which the generated
messages write their fields and compute their sizes.  A helper that writes to `target` is
the list of the bytes it writes; making room in the buffer (`EnsureSpace`) writes nothing.

A few of the helpers are only declared in the headers: their bodies are in the library that
the program is linked with.  They are the fields of `Libprotobuf`, and what the headers and
the wire format say of them is `Libprotobuf.Documented`, which the results about whole
messages assume.  `Libprotobuf.reference` is a library that does what is said.

## Strategy

* **What is written.**  `unsafeVarint_eq` is the induction of the file: the loop of
  `UnsafeVarint` writes the digits of the number to base 128.  With it each helper writes
  the bytes of one record of the wire format, as long as the field number leaves room for
  the three bits of the wire type (`toNat_makeTag`).
* **How much is written.**  A varint size is computed without a loop from the number of
  leading zeros, by one of two formulas between which the processor decides.  Both agree with
  the number of bytes that `UnsafeVarint` writes: `9 / 64` is close enough to `1 / 7`, for the
  64 bits that a number can have (`length_encode_of_lt`).
-/

namespace HktBase.Grpc

/-! ## Writing -/

theorem toNat_shiftRight_seven (value : UInt64) : (value >>> 7).toNat = value.toNat / 128 := by
  rw [UInt64.toNat_shiftRight, Nat.shiftRight_eq_div_pow]
  rfl

theorem toNat_shiftRight_seven_lt {value : UInt64} (h : value ≥ 0x80) :
    (value >>> 7).toNat < value.toNat := by
  have hvalue : 128 ≤ value.toNat := UInt64.le_iff_toNat_le.mp h
  rw [toNat_shiftRight_seven]
  omega

/-- `EpsCopyOutputStream::UnsafeVarint`. -/
def unsafeVarint (value : UInt64) : List UInt8 :=
  if value ≥ 0x80 then (value ||| 0x80).toUInt8 :: unsafeVarint (value >>> 7)
  else [value.toUInt8]
termination_by value.toNat
decreasing_by exact toNat_shiftRight_seven_lt ‹_›

/-- `WireFormatLite::WireType`, as far as it is used here. -/
inductive WireType
  | varint
  | lengthDelimited

/-- The numbers of the wire types. -/
def WireType.toUInt32 : WireType → UInt32
  | .varint => 0
  | .lengthDelimited => 2

/-- `WireFormatLite::MakeTag`. -/
def makeTag (fieldNumber : UInt32) (type : WireType) : UInt32 :=
  fieldNumber <<< 3 ||| type.toUInt32

/-- `WireFormatLite::WriteTagToArray`. -/
def writeTagToArray (fieldNumber : UInt32) (type : WireType) : List UInt8 :=
  unsafeVarint (makeTag fieldNumber type).toUInt64

/-- `WireFormatLite::WriteInt64ToArray`. -/
def writeInt64ToArray (fieldNumber : UInt32) (value : Int64) : List UInt8 :=
  writeTagToArray fieldNumber .varint ++ unsafeVarint value.toUInt64

/-- `WireFormatLite::WriteInt32ToArray`: the value is sign-extended first. -/
def writeInt32ToArray (fieldNumber : UInt32) (value : Int32) : List UInt8 :=
  writeTagToArray fieldNumber .varint ++ unsafeVarint value.toInt64.toUInt64

/-- `EpsCopyOutputStream::WriteLengthDelim`. -/
def writeLengthDelim (num : UInt32) (size : UInt32) : List UInt8 :=
  writeTagToArray num .lengthDelimited ++ unsafeVarint size.toUInt64

/-! ## The functions of the library -/

/-- The functions that the headers only declare, and the buffer of the stream.  A message
that is passed to one of them is what its `_InternalSerialize` writes. -/
structure Libprotobuf where
  /-- `EpsCopyOutputStream::WriteStringMaybeAliasedOutline`. -/
  writeStringMaybeAliasedOutline : UInt32 → List UInt8 → List UInt8
  /-- `WireFormatLite::InternalWriteMessage`, with the size that the message computed last. -/
  internalWriteMessage : UInt32 → List UInt8 → Int32 → List UInt8
  /-- `MessageLite::SerializeWithCachedSizesToArray`. -/
  serializeWithCachedSizesToArray : List UInt8 → List UInt8
  /-- `end_ - ptr` when a string is about to be written. -/
  room : UInt32 → List UInt8 → ℤ

/-- `INT_MAX`, which no size of a message or a string may exceed. -/
def intMax : ℕ := 2147483647

/-- What is documented: a string and a message are written as length-delimited records, the
message behind its size, and an array gets what the message writes. -/
structure Libprotobuf.Documented (library : Libprotobuf) : Prop where
  writesString {num : UInt32} {s : List UInt8} : num.toNat < 2 ^ 29 → s.length ≤ intMax →
    library.writeStringMaybeAliasedOutline num s =
      (WireFormat.Record.delimited num.toNat s).encode
  writesMessage {fieldNumber : UInt32} {message : List UInt8} {cachedSize : Int32} :
    fieldNumber.toNat < 2 ^ 29 → message.length ≤ intMax →
    cachedSize = Int32.ofNat message.length →
    library.internalWriteMessage fieldNumber message cachedSize =
      (WireFormat.Record.delimited fieldNumber.toNat message).encode
  writesToArray (message : List UInt8) :
    library.serializeWithCachedSizesToArray message = message

/-- `EpsCopyOutputStream::TagSize`. -/
def tagSize (tag : UInt32) : ℤ :=
  if tag < (1 : UInt32) <<< 7 then 1
  else if tag < (1 : UInt32) <<< 14 then 2
  else if tag < (1 : UInt32) <<< 21 then 3
  else if tag < (1 : UInt32) <<< 28 then 4
  else 5

/-- `EpsCopyOutputStream::WriteBytesMaybeAliased`: a short string that the buffer has room
for has its size in one byte. -/
def writeBytesMaybeAliased (library : Libprotobuf) (num : UInt32) (s : List UInt8) :
    List UInt8 :=
  if s.length ≥ 128 ∨ library.room num s + 16 - tagSize (num <<< 3) - 1 < s.length then
    library.writeStringMaybeAliasedOutline num s
  else unsafeVarint (num <<< 3 ||| 2).toUInt64 ++ UInt8.ofNat s.length :: s

/-! ## Sizes -/

/-- `absl::countl_zero`, on values of `digits` bits. -/
def countlZero (digits value : ℕ) : ℕ :=
  if value = 0 then digits else digits - 1 - Nat.log2 value

section

-- PROTOBUF_CODED_STREAM_H_PREFER_BSR
variable (preferBsr : Bool)

/-- `CodedOutputStream::VarintSize32`. -/
def varintSize32 (value : UInt32) : ℕ :=
  if preferBsr then
    let log2value := 32 - 1 - countlZero 32 (value ||| 0x1).toNat
    (log2value * 9 + (64 + 9)) / 64
  else
    let clz := countlZero 32 value.toNat
    (32 * 9 + 64 - clz * 9) / 64

/-- `CodedOutputStream::VarintSize64PlusOne`. -/
def varintSize64PlusOne (value : UInt64) : ℕ :=
  if preferBsr then
    let log2value := 64 - 1 - countlZero 64 (value ||| 0x1).toNat
    (log2value * 9 + (64 + 9) + 64) / 64
  else
    let clz := countlZero 64 value.toNat
    (64 * 9 + 64 + 64 - clz * 9) / 64

/-- `WireFormatLite::Int64SizePlusOne`. -/
def int64SizePlusOne (value : Int64) : ℕ := varintSize64PlusOne preferBsr value.toUInt64

/-- `WireFormatLite::Int32SizePlusOne`. -/
def int32SizePlusOne (value : Int32) : ℕ := varintSize64PlusOne preferBsr value.toInt64.toUInt64

/-- `WireFormatLite::LengthDelimitedSize`: the length is truncated to 32 bits before its
size is computed. -/
def lengthDelimitedSize (length : ℕ) : ℕ := length + varintSize32 preferBsr (UInt32.ofNat length)

end

/-! ## What is written -/

theorem or_continuation (value : UInt64) :
    (value ||| 0x80).toUInt8 = UInt8.ofNat (value.toNat % 128 + 128) := by
  have hbyte : ∀ byte : Fin 256, byte.val ||| 128 = byte.val % 128 + 128 := by decide +kernel
  have hvalue := hbyte ⟨value.toNat % 256, Nat.mod_lt _ (by omega)⟩
  apply UInt8.toNat_inj.mp
  calc (value ||| 0x80).toUInt8.toNat = (value.toNat ||| 128) % 2 ^ 8 := by
        rw [UInt64.toNat_toUInt8, UInt64.toNat_or]
        rfl
    _ = value.toNat % 256 ||| 128 := Nat.or_mod_two_pow
    _ = value.toNat % 256 % 128 + 128 := hvalue
    _ = (UInt8.ofNat (value.toNat % 128 + 128)).toNat := by
        rw [UInt8.toNat_ofNat']
        omega

@[simp] theorem unsafeVarint_eq (value : UInt64) :
    unsafeVarint value = Varint.encode value.toNat := by
  induction value using unsafeVarint.induct with
  | case1 value h ih =>
      have hvalue : 128 ≤ value.toNat := UInt64.le_iff_toNat_le.mp h
      rw [unsafeVarint, if_pos h, ih, or_continuation, toNat_shiftRight_seven,
        Varint.encode_of_le hvalue]
  | case2 value h =>
      have hvalue : value.toNat < 128 := Nat.not_le.mp fun hle => h (UInt64.le_iff_toNat_le.mpr hle)
      rw [unsafeVarint, if_neg h, Varint.encode_of_lt hvalue, UInt8.ofNat_uInt64ToNat]

/-- A field number of at most 29 bits is left whole by the three bits of the wire type. -/
theorem toNat_makeTag {fieldNumber : UInt32} (h : fieldNumber.toNat < 2 ^ 29) (type : WireType) :
    (makeTag fieldNumber type).toNat = fieldNumber.toNat * 8 + type.toUInt32.toNat := by
  have htype : type.toUInt32.toNat < 2 ^ 3 := by cases type <;> decide
  have hshift : (fieldNumber <<< 3).toNat = 2 ^ 3 * fieldNumber.toNat := by
    rw [UInt32.toNat_shiftLeft, Nat.shiftLeft_eq]
    exact (Nat.mod_eq_of_lt (by simp; omega)).trans (Nat.mul_comm _ _)
  rw [makeTag, UInt32.toNat_or, hshift, ← Nat.two_pow_add_eq_or_of_lt htype, Nat.mul_comm]

theorem writeInt64ToArray_eq {fieldNumber : UInt32} (h : fieldNumber.toNat < 2 ^ 29)
    (value : Int64) :
    writeInt64ToArray fieldNumber value =
      (WireFormat.Record.varint fieldNumber.toNat value.toUInt64.toNat).encode := by
  simp [writeInt64ToArray, writeTagToArray, toNat_makeTag h, WireFormat.Record.encode,
    WireType.toUInt32]

theorem writeInt32ToArray_eq {fieldNumber : UInt32} (h : fieldNumber.toNat < 2 ^ 29)
    (value : Int32) :
    writeInt32ToArray fieldNumber value =
      (WireFormat.Record.varint fieldNumber.toNat value.toInt64.toUInt64.toNat).encode := by
  simp [writeInt32ToArray, writeTagToArray, toNat_makeTag h, WireFormat.Record.encode,
    WireType.toUInt32]

/-- The two paths write the same record, so that the room in the buffer does not matter. -/
theorem writeBytesMaybeAliased_eq {library : Libprotobuf} (hlibrary : library.Documented)
    {num : UInt32} (h : num.toNat < 2 ^ 29) {s : List UInt8} (hs : s.length ≤ intMax) :
    writeBytesMaybeAliased library num s = (WireFormat.Record.delimited num.toNat s).encode := by
  have htag := toNat_makeTag h .lengthDelimited
  rw [writeBytesMaybeAliased]
  split
  · exact hlibrary.writesString h hs
  · rename_i hshort
    have hsize : s.length < 128 := by omega
    rw [WireFormat.Record.encode, unsafeVarint_eq, UInt32.toNat_toUInt64,
      Varint.encode_of_lt (n := s.length) hsize, List.append_assoc]
    exact congrArg (fun tag => Varint.encode tag ++ _) htag

theorem writeLengthDelim_append {num : UInt32} (h : num.toNat < 2 ^ 29) {size : UInt32}
    {s : List UInt8} (hsize : size.toNat = s.length) :
    writeLengthDelim num size ++ s = (WireFormat.Record.delimited num.toNat s).encode := by
  simp [writeLengthDelim, writeTagToArray, toNat_makeTag h, WireFormat.Record.encode,
    WireType.toUInt32, hsize]

/-- A library that writes what is documented, into a buffer that never has room. -/
def Libprotobuf.reference : Libprotobuf where
  writeStringMaybeAliasedOutline num s := writeLengthDelim num (UInt32.ofNat s.length) ++ s
  internalWriteMessage fieldNumber message cachedSize :=
    writeLengthDelim fieldNumber cachedSize.toUInt32 ++ message
  serializeWithCachedSizesToArray message := message
  room _ _ := 0

/-- What the headers say can be done. -/
theorem Libprotobuf.reference_documented : Libprotobuf.reference.Documented where
  writesString hnum hs := by
    apply writeLengthDelim_append hnum
    rw [UInt32.toNat_ofNat']
    exact Nat.mod_eq_of_lt (Nat.lt_of_le_of_lt hs (by decide))
  writesMessage hnum hmessage hcached := by
    apply writeLengthDelim_append hnum
    rw [hcached]
    exact Nat.mod_eq_of_lt (Nat.lt_of_le_of_lt hmessage (by decide))
  writesToArray _ := rfl

/-! ## How much is written -/

theorem log2_or_one (n : ℕ) : Nat.log2 (n ||| 1) = Nat.log2 n := by
  have hhalf : (n ||| 1) / 2 = n / 2 := by
    rw [Nat.or_div_two]
    exact Nat.or_zero _
  have hle : (n ||| 1) ≥ 2 ↔ n ≥ 2 := by omega
  rw [Nat.log2_def, Nat.log2_def n, hhalf]
  simp only [hle]

section

variable {digits value : ℕ}

theorem log2_lt_of_lt (hdigits : 0 < digits) (hvalue : value < 2 ^ digits) :
    Nat.log2 value < digits := by
  by_cases hzero : value = 0
  · rw [hzero, Nat.log2_zero]
    exact hdigits
  · exact (Nat.log2_lt hzero).mpr hvalue

theorem countlZero_or_one (hdigits : 0 < digits) (hvalue : value < 2 ^ digits) :
    digits - 1 - countlZero digits (value ||| 1) = Nat.log2 value := by
  have hpositive : value ||| 1 ≠ 0 := Nat.ne_of_gt Nat.right_le_or
  have hlog := log2_lt_of_lt hdigits hvalue
  rw [countlZero, if_neg hpositive, log2_or_one]
  omega

/-- `9 / 64` is close enough to `1 / 7` for the digits of a 64-bit number. -/
theorem length_encode_of_lt (hdigits : 0 < digits) (hbound : digits ≤ 64)
    (hvalue : value < 2 ^ digits) :
    (Varint.encode value).length = (Nat.log2 value * 9 + (64 + 9)) / 64 := by
  have hlog := log2_lt_of_lt hdigits hvalue
  rw [Varint.length_encode, ← Nat.log2_eq_log_two]
  omega

theorem length_encode_of_countlZero (hdigits : 0 < digits) (hbound : digits ≤ 64)
    (hvalue : value < 2 ^ digits) :
    (Varint.encode value).length = (digits * 9 + 64 - countlZero digits value * 9) / 64 := by
  by_cases hzero : value = 0
  · rw [hzero, Varint.encode_of_lt (by omega), countlZero, if_pos rfl, List.length_singleton]
    omega
  · have hlog := log2_lt_of_lt hdigits hvalue
    rw [length_encode_of_lt hdigits hbound hvalue, countlZero, if_neg hzero]
    omega

end

@[simp] theorem varintSize32_eq (preferBsr : Bool) (value : UInt32) :
    varintSize32 preferBsr value = (Varint.encode value.toNat).length := by
  have hvalue : value.toNat < 2 ^ 32 := value.toNat_lt
  rw [varintSize32]
  cases preferBsr with
  | true =>
      have hor : (value ||| 0x1).toNat = value.toNat ||| 1 := UInt32.toNat_or ..
      rw [if_pos rfl, length_encode_of_lt (by omega) (by omega) hvalue, hor,
        countlZero_or_one (by omega) hvalue]
  | false =>
      rw [if_neg Bool.false_ne_true, length_encode_of_countlZero (by omega) (by omega) hvalue]

@[simp] theorem varintSize64PlusOne_eq (preferBsr : Bool) (value : UInt64) :
    varintSize64PlusOne preferBsr value = (Varint.encode value.toNat).length + 1 := by
  have hvalue : value.toNat < 2 ^ 64 := value.toNat_lt
  rw [varintSize64PlusOne]
  cases preferBsr with
  | true =>
      have hor : (value ||| 0x1).toNat = value.toNat ||| 1 := UInt64.toNat_or ..
      rw [if_pos rfl, length_encode_of_lt (by omega) (by omega) hvalue, hor,
        countlZero_or_one (by omega) hvalue]
      dsimp only
      omega
  | false =>
      rw [if_neg Bool.false_ne_true, length_encode_of_countlZero (by omega) (by omega) hvalue]
      by_cases hzero : value.toNat = 0
      · rw [countlZero, if_pos hzero]
      · have hlog := log2_lt_of_lt (by omega) hvalue
        rw [countlZero, if_neg hzero]
        dsimp only
        omega

theorem length_encode_varint {field : ℕ} (h : field < 16) (value : ℕ) :
    (WireFormat.Record.varint field value).encode.length = (Varint.encode value).length + 1 := by
  rw [WireFormat.Record.encode, Varint.encode_of_lt (by omega), List.singleton_append,
    List.length_cons]

theorem length_encode_delimited (preferBsr : Bool) {field : ℕ} (h : field < 15)
    {bytes : List UInt8} (hbytes : bytes.length ≤ intMax) :
    (WireFormat.Record.delimited field bytes).encode.length =
      1 + lengthDelimitedSize preferBsr bytes.length := by
  have hsize : (UInt32.ofNat bytes.length).toNat = bytes.length := by
    rw [UInt32.toNat_ofNat']
    exact Nat.mod_eq_of_lt (Nat.lt_of_le_of_lt hbytes (by decide))
  rw [WireFormat.Record.encode, Varint.encode_of_lt (n := field * 8 + 2) (by omega),
    lengthDelimitedSize, varintSize32_eq, hsize, List.length_append, List.length_append,
    List.length_singleton]
  omega

end HktBase.Grpc
