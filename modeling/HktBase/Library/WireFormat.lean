import HktBase.Library.Varint

/-!
# Tagged records

The wire format of protocol buffers, as far as varints and length-delimited values go: a
record is a tag, eight times the field number plus the wire type, followed by its value.
A record says itself where it ends, so that a list of records reads back from the
concatenation of their bytes.
-/

namespace WireFormat

/-- A field number and its value. -/
inductive Record
  | varint (field value : ℕ)
  | delimited (field : ℕ) (bytes : List UInt8)
  deriving DecidableEq

/-- The bytes of a record. -/
def Record.encode : Record → List UInt8
  | .varint field value => Varint.encode (field * 8) ++ Varint.encode value
  | .delimited field bytes =>
      Varint.encode (field * 8 + 2) ++ Varint.encode bytes.length ++ bytes

/-- The bytes of a list of records. -/
def encode (records : List Record) : List UInt8 :=
  records.flatMap Record.encode

/-- The record at the front of a byte list and the bytes after it. -/
def decodeRecord (bytes : List UInt8) : Option (Record × List UInt8) := do
  let (tag, value) ← Varint.decode bytes
  let (number, rest) ← Varint.decode value
  match tag % 8 with
  | 0 => some (.varint (tag / 8) number, rest)
  | 2 =>
      if number ≤ rest.length then
        some (.delimited (tag / 8) (rest.take number), rest.drop number)
      else none
  | _ => none

/-- A record reads back from where it was written, and leaves what follows it. -/
theorem decodeRecord_encode_append (record : Record) (rest : List UInt8) :
    decodeRecord (record.encode ++ rest) = some (record, rest) := by
  cases record with
  | varint field value =>
      have htag : field * 8 % 8 = 0 ∧ field * 8 / 8 = field := by omega
      simp [decodeRecord, Record.encode, htag]
  | delimited field bytes =>
      have htag : (field * 8 + 2) % 8 = 2 ∧ (field * 8 + 2) / 8 = field := by omega
      simp [decodeRecord, Record.encode, htag]

/-- Reading a record takes at least one byte. -/
theorem length_lt_of_decodeRecord {bytes rest : List UInt8} {record : Record}
    (h : decodeRecord bytes = some (record, rest)) : rest.length < bytes.length := by
  simp only [decodeRecord, Option.bind_eq_bind, Option.bind_eq_some_iff, Prod.exists] at h
  obtain ⟨tag, value, htag, number, last, hnumber, hmatch⟩ := h
  have hvalue := Varint.length_lt_of_decode htag
  have hlast := Varint.length_lt_of_decode hnumber
  have hrest : rest.length ≤ last.length := by
    split at hmatch
    · simp_all
    · split at hmatch
      · obtain ⟨-, rfl⟩ := Prod.mk.inj (Option.some.inj hmatch)
        simp
      · cases hmatch
    · cases hmatch
  omega

/-- The records that a byte list holds. -/
def decode (bytes : List UInt8) : Option (List Record) :=
  if bytes = [] then some []
  else
    match h : decodeRecord bytes with
    | none => none
    | some (record, rest) =>
        have := length_lt_of_decodeRecord h
        (decode rest).map (record :: ·)
termination_by bytes.length

theorem decode_nil : decode [] = some [] := by
  rw [decode, if_pos rfl]

theorem decode_of_decodeRecord {bytes rest : List UInt8} {record : Record}
    (h : decodeRecord bytes = some (record, rest)) :
    decode bytes = (decode rest).map (record :: ·) := by
  have hbytes : bytes ≠ [] := by
    intro hnil
    have := length_lt_of_decodeRecord h
    simp [hnil] at this
  rw [decode, if_neg hbytes]
  split
  · simp_all
  · simp_all

@[simp] theorem decode_encode (records : List Record) : decode (encode records) = some records := by
  induction records with
  | nil => exact decode_nil
  | cons record rest ih =>
      have hfirst : decodeRecord (encode (record :: rest)) = some (record, encode rest) :=
        decodeRecord_encode_append record (encode rest)
      rw [decode_of_decodeRecord hfirst, ih]
      rfl

@[simp] theorem encode_nil : encode [] = [] := rfl

theorem encode_cons (record : Record) (rest : List Record) :
    encode (record :: rest) = record.encode ++ encode rest :=
  List.flatMap_cons

theorem encode_append (first second : List Record) :
    encode (first ++ second) = encode first ++ encode second :=
  List.flatMap_append

end WireFormat
