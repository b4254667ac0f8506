import Mathlib.Data.UInt
import HktBase.Grpc.CodedStream
import HktBase.Grpc.Messages

/-!
# Messages on the wire

What a message is as a list of records, and what reading records makes of a message.  A
field with its default value has no record; of two records of a scalar field the later one
counts, and two records of a message field are merged.

The parser that the program runs is in the library it is linked with, behind tables that the
generated code only points to.  It is a `Parser` here, and what is documented of it is
`Parser.Documented`: without bytes a message stays as it is, and the record of a field of the
message is read before the bytes that follow it.  `Parser.reference` is a parser that does
this.

## Strategy

* **One field.**  `foldlM_fieldRecord` reads the record of one field on top of a message, or
  no record at all; the lemmas named after the fields are this one at each of them.
* **One message.**  Reading the records of a message on top of another is the same as merging
  the two.  A packet inside a message has to be read by the parser itself, so that
  `WireMessage.read_records` is relative to a reader of packets, and the packets come first.
* **Bytes.**  By induction on the records a documented parser reads their bytes as it reads
  the records (`Parser.mergeFromString_encode`).  Reading two messages one behind the other
  is reading the records of both.
-/

namespace HktBase.Grpc

open WireFormat (Record)

/-- The record of a field, unless the field has its default value. -/
def fieldRecord (isDefault : Bool) (record : Record) : List Record :=
  if isDefault then [] else [record]

/-- A scalar after a merge. -/
def mergeField {α : Type} (isDefault : Bool) (first second : α) : α :=
  if isDefault then first else second

theorem mergeField_default {α : Type} [BEq α] [LawfulBEq α] (default value : α) :
    mergeField (value == default) default value = value := by
  by_cases h : value == default
  · rw [mergeField, if_pos h, beq_iff_eq.mp h]
  · rw [mergeField, if_neg h]

/-! ## Scalars -/

theorem ofNat_toUInt64_toNat (value : Int64) : Int64.ofNat value.toUInt64.toNat = value := by
  apply Int64.toBitVec_inj.mp
  simp

/-- The sign extension is undone by the truncation to 32 bits. -/
theorem ofNat_toInt64_toUInt64_toNat (value : Int32) :
    Int32.ofNat value.toInt64.toUInt64.toNat = value := by
  apply Int32.toBitVec_inj.mp
  calc (Int32.ofNat value.toInt64.toUInt64.toNat).toBitVec
      = BitVec.ofNat 32 (value.toBitVec.signExtend 64).toNat := rfl
    _ = (value.toBitVec.signExtend 64).setWidth 32 := by simp
    _ = value.toBitVec := by
        ext i hi
        have hwide : i < 64 := by omega
        simp [BitVec.getElem_signExtend, hi, hwide]

/-- The record of a field of type `int64`. -/
def int64Record (field : ℕ) (value : Int64) : List Record :=
  fieldRecord (value == 0) (.varint field value.toUInt64.toNat)

/-- The record of a field of type `int32`: the value is sign-extended. -/
def int32Record (field : ℕ) (value : Int32) : List Record :=
  fieldRecord (value == 0) (.varint field value.toInt64.toUInt64.toNat)

/-- The record of a field of type `bytes`. -/
def bytesRecord (field : ℕ) (value : List UInt8) : List Record :=
  fieldRecord (value == []) (.delimited field value)

section

variable {V : Type} {readRecord : V → Record → Option V}

theorem foldlM_fieldRecord {α : Type} (isDefault : Bool) (record : Record) (set : α → V)
    (first second : α) (h : readRecord (set first) record = some (set second)) :
    (fieldRecord isDefault record).foldlM readRecord (set first) =
      some (set (mergeField isDefault first second)) := by
  cases isDefault with
  | true => rfl
  | false => simp [fieldRecord, mergeField, h]

theorem foldlM_int64Record (field : ℕ) (set : Int64 → V) (first second : Int64)
    (h : ∀ value, readRecord (set first) (.varint field value) = some (set (Int64.ofNat value))) :
    (int64Record field second).foldlM readRecord (set first) =
      some (set (mergeField (second == 0) first second)) :=
  foldlM_fieldRecord _ _ set first second (by rw [h, ofNat_toUInt64_toNat])

theorem foldlM_int32Record (field : ℕ) (set : Int32 → V) (first second : Int32)
    (h : ∀ value, readRecord (set first) (.varint field value) = some (set (Int32.ofNat value))) :
    (int32Record field second).foldlM readRecord (set first) =
      some (set (mergeField (second == 0) first second)) :=
  foldlM_fieldRecord _ _ set first second (by rw [h, ofNat_toInt64_toUInt64_toNat])

theorem foldlM_bytesRecord (field : ℕ) (set : List UInt8 → V) (first second : List UInt8)
    (h : ∀ bytes, readRecord (set first) (.delimited field bytes) = some (set bytes)) :
    (bytesRecord field second).foldlM readRecord (set first) =
      some (set (mergeField (second == []) first second)) :=
  foldlM_fieldRecord _ _ set first second (h second)

end

/-! ## `BehaviorPacket` -/

namespace BehaviorPacket

def records (packet : BehaviorPacket) : List Record :=
  int64Record 1 packet.behaviorId ++ int64Record 2 packet.ownerPlayerId ++
    int32Record 3 packet.behaviorTypeId ++ bytesRecord 4 packet.payload

/-- Records of other fields are skipped. -/
def readRecord (packet : BehaviorPacket) : Record → Option BehaviorPacket
  | .varint 1 value => some { packet with behaviorId := Int64.ofNat value }
  | .varint 2 value => some { packet with ownerPlayerId := Int64.ofNat value }
  | .varint 3 value => some { packet with behaviorTypeId := Int32.ofNat value }
  | .delimited 4 bytes => some { packet with payload := bytes }
  | _ => some packet

def merge (first second : BehaviorPacket) : BehaviorPacket where
  behaviorId := mergeField (second.behaviorId == 0) first.behaviorId second.behaviorId
  ownerPlayerId := mergeField (second.ownerPlayerId == 0) first.ownerPlayerId second.ownerPlayerId
  behaviorTypeId :=
    mergeField (second.behaviorTypeId == 0) first.behaviorTypeId second.behaviorTypeId
  payload := mergeField (second.payload == []) first.payload second.payload

theorem read_behaviorId (packet : BehaviorPacket) (value : Int64) :
    (int64Record 1 value).foldlM readRecord packet =
      some { packet with behaviorId := mergeField (value == 0) packet.behaviorId value } :=
  foldlM_int64Record _ (fun value => { packet with behaviorId := value }) _ value fun _ => rfl

theorem read_ownerPlayerId (packet : BehaviorPacket) (value : Int64) :
    (int64Record 2 value).foldlM readRecord packet =
      some { packet with ownerPlayerId := mergeField (value == 0) packet.ownerPlayerId value } :=
  foldlM_int64Record _ (fun value => { packet with ownerPlayerId := value }) _ value fun _ => rfl

theorem read_behaviorTypeId (packet : BehaviorPacket) (value : Int32) :
    (int32Record 3 value).foldlM readRecord packet =
      some { packet with
        behaviorTypeId := mergeField (value == 0) packet.behaviorTypeId value } :=
  foldlM_int32Record _ (fun value => { packet with behaviorTypeId := value }) _ value fun _ => rfl

theorem read_payload (packet : BehaviorPacket) (value : List UInt8) :
    (bytesRecord 4 value).foldlM readRecord packet =
      some { packet with payload := mergeField (value == []) packet.payload value } :=
  foldlM_bytesRecord _ (fun value => { packet with payload := value }) _ value fun _ => rfl

theorem read_records (first second : BehaviorPacket) :
    second.records.foldlM readRecord first = some (first.merge second) := by
  simp only [records, List.foldlM_append, read_behaviorId, read_ownerPlayerId,
    read_behaviorTypeId, read_payload, Option.bind_eq_bind, Option.bind_some]
  rfl

theorem merge_default (second : BehaviorPacket) : merge {} second = second := by
  simp only [merge, mergeField_default]

end BehaviorPacket

/-! ## Messages -/

/-- Reads bytes into a packet, unless they are malformed. -/
abbrev PacketReader := BehaviorPacket → List UInt8 → Option BehaviorPacket

/-- Reading the bytes of a packet, when they are not too many, merges it. -/
def PacketReader.Merges (readPacket : PacketReader) : Prop :=
  ∀ first second : BehaviorPacket, (WireFormat.encode second.records).length ≤ intMax →
    readPacket first (WireFormat.encode second.records) = some (first.merge second)

/-- Messages that can be written as records, read from records and merged. -/
class WireMessage (V : Type) where
  default : V
  records : V → List Record
  /-- Reads the record of a field, unless it holds a packet that cannot be read. -/
  readRecord : PacketReader → V → Record → Option V
  merge : V → V → V
  /-- Reading what was written merges. -/
  read_records {readPacket : PacketReader} : readPacket.Merges → ∀ first second : V,
    (WireFormat.encode (records second)).length ≤ intMax →
    (records second).foldlM (readRecord readPacket) first = some (merge first second)
  merge_default : ∀ second : V, merge default second = second

instance : WireMessage BehaviorPacket where
  default := {}
  records := BehaviorPacket.records
  readRecord _ := BehaviorPacket.readRecord
  merge := BehaviorPacket.merge
  read_records _ first second _ := BehaviorPacket.read_records first second
  merge_default := BehaviorPacket.merge_default

/-! ## `SyncRequest` -/

namespace SyncRequest

def records (request : SyncRequest) : List Record :=
  int64Record 1 request.playerId ++ int32Record 2 request.groupId

/-- Records of other fields are skipped. -/
def readRecord (request : SyncRequest) : Record → Option SyncRequest
  | .varint 1 value => some { request with playerId := Int64.ofNat value }
  | .varint 2 value => some { request with groupId := Int32.ofNat value }
  | _ => some request

def merge (first second : SyncRequest) : SyncRequest where
  playerId := mergeField (second.playerId == 0) first.playerId second.playerId
  groupId := mergeField (second.groupId == 0) first.groupId second.groupId

theorem read_playerId (request : SyncRequest) (value : Int64) :
    (int64Record 1 value).foldlM readRecord request =
      some { request with playerId := mergeField (value == 0) request.playerId value } :=
  foldlM_int64Record _ (fun value => { request with playerId := value }) _ value fun _ => rfl

theorem read_groupId (request : SyncRequest) (value : Int32) :
    (int32Record 2 value).foldlM readRecord request =
      some { request with groupId := mergeField (value == 0) request.groupId value } :=
  foldlM_int32Record _ (fun value => { request with groupId := value }) _ value fun _ => rfl

theorem read_records (first second : SyncRequest) :
    second.records.foldlM readRecord first = some (first.merge second) := by
  rw [records, List.foldlM_append, read_playerId, Option.bind_eq_bind, Option.bind_some,
    read_groupId]
  rfl

theorem merge_default (second : SyncRequest) : merge {} second = second := by
  rw [merge, mergeField_default, mergeField_default]

instance : WireMessage SyncRequest where
  default := {}
  records := records
  readRecord _ := readRecord
  merge := merge
  read_records _ first second _ := read_records first second
  merge_default := merge_default

end SyncRequest

/-! ## A field of type `BehaviorPacket` -/

/-- The record of a packet, whose bytes are those of the records of its fields. -/
def packetRecord (field : ℕ) : Option BehaviorPacket → List Record
  | none => []
  | some packet => [.delimited field (WireFormat.encode packet.records)]

def mergePacket (first : Option BehaviorPacket) : Option BehaviorPacket → Option BehaviorPacket
  | none => first
  | some second => some ((first.getD {}).merge second)

/-- A packet is read on top of the one that is there, or of a new one: a record of a message
field that comes a second time is merged and does not replace. -/
theorem foldlM_packetRecord {V : Type} {readRecord : V → Record → Option V}
    {readPacket : PacketReader} (hmerges : readPacket.Merges) (field : ℕ)
    (set : Option BehaviorPacket → V) (first second : Option BehaviorPacket)
    (hsize : (WireFormat.encode (packetRecord field second)).length ≤ intMax)
    (h : ∀ bytes, readRecord (set first) (.delimited field bytes) =
      (readPacket (first.getD {}) bytes).map fun packet => set (some packet)) :
    (packetRecord field second).foldlM readRecord (set first) =
      some (set (mergePacket first second)) := by
  cases second with
  | none => rfl
  | some second =>
      have hbytes : (WireFormat.encode second.records).length ≤ intMax := by
        rw [packetRecord, WireFormat.encode_cons, WireFormat.Record.encode, List.length_append,
          List.length_append] at hsize
        omega
      simp [packetRecord, h, hmerges (first.getD {}) second hbytes, mergePacket]

theorem mergePacket_none (second : Option BehaviorPacket) : mergePacket none second = second := by
  cases second with
  | none => rfl
  | some second => exact congrArg some second.merge_default

/-! ## `BehaviorRequest` -/

namespace BehaviorRequest

def records (request : BehaviorRequest) : List Record :=
  int32Record 1 request.groupId ++ packetRecord 2 request.packetField

/-- Records of other fields are skipped. -/
def readRecord (readPacket : PacketReader) (request : BehaviorRequest) :
    Record → Option BehaviorRequest
  | .varint 1 value => some { request with groupId := Int32.ofNat value }
  | .delimited 2 bytes =>
      (readPacket (request.packetField.getD {}) bytes).map fun packet =>
        { request with packetField := some packet }
  | _ => some request

def merge (first second : BehaviorRequest) : BehaviorRequest where
  groupId := mergeField (second.groupId == 0) first.groupId second.groupId
  packetField := mergePacket first.packetField second.packetField

section

variable {readPacket : PacketReader}

theorem read_groupId (request : BehaviorRequest) (value : Int32) :
    (int32Record 1 value).foldlM (readRecord readPacket) request =
      some { request with groupId := mergeField (value == 0) request.groupId value } :=
  foldlM_int32Record _ (fun value => { request with groupId := value }) _ value fun _ => rfl

theorem read_packet (hmerges : readPacket.Merges) (request : BehaviorRequest)
    (packet : Option BehaviorPacket)
    (hsize : (WireFormat.encode (packetRecord 2 packet)).length ≤ intMax) :
    (packetRecord 2 packet).foldlM (readRecord readPacket) request =
      some { request with packetField := mergePacket request.packetField packet } :=
  foldlM_packetRecord hmerges _ (fun packet => { request with packetField := packet }) _ packet
    hsize fun _ => rfl

theorem read_records (hmerges : readPacket.Merges) (first second : BehaviorRequest)
    (hsize : (WireFormat.encode second.records).length ≤ intMax) :
    second.records.foldlM (readRecord readPacket) first = some (first.merge second) := by
  have hpacket : (WireFormat.encode (packetRecord 2 second.packetField)).length ≤ intMax := by
    rw [records, WireFormat.encode_append, List.length_append] at hsize
    omega
  rw [records, List.foldlM_append, read_groupId, Option.bind_eq_bind, Option.bind_some,
    read_packet hmerges _ _ hpacket]
  rfl

end

theorem merge_default (second : BehaviorRequest) : merge {} second = second := by
  rw [merge, mergeField_default, mergePacket_none]

instance : WireMessage BehaviorRequest where
  default := {}
  records := records
  readRecord := readRecord
  merge := merge
  read_records := read_records
  merge_default := merge_default

end BehaviorRequest

/-! ## `SyncResponse` -/

namespace SyncResponse

def records (response : SyncResponse) : List Record := packetRecord 1 response.packetField

/-- Records of other fields are skipped. -/
def readRecord (readPacket : PacketReader) (response : SyncResponse) :
    Record → Option SyncResponse
  | .delimited 1 bytes =>
      (readPacket (response.packetField.getD {}) bytes).map fun packet =>
        { packetField := some packet }
  | _ => some response

def merge (first second : SyncResponse) : SyncResponse where
  packetField := mergePacket first.packetField second.packetField

theorem read_records {readPacket : PacketReader} (hmerges : readPacket.Merges)
    (first second : SyncResponse)
    (hsize : (WireFormat.encode second.records).length ≤ intMax) :
    second.records.foldlM (readRecord readPacket) first = some (first.merge second) :=
  foldlM_packetRecord hmerges _ SyncResponse.mk _ second.packetField hsize fun _ => rfl

theorem merge_default (second : SyncResponse) : merge {} second = second := by
  rw [merge, mergePacket_none]

instance : WireMessage SyncResponse where
  default := {}
  records := records
  readRecord := readRecord
  merge := merge
  read_records := read_records
  merge_default := merge_default

end SyncResponse

/-! ## The parser -/

/-- The parser of the library, which every type of messages shares. -/
structure Parser where
  /-- `MergeFromString`: reads bytes into a message, unless they are malformed. -/
  mergeFromString {V : Type} [WireMessage V] : V → List UInt8 → Option V

namespace Parser

/-- `ParseFromZeroCopyStream`: the message is cleared before the bytes are read into it. -/
def parseFromZeroCopyStream (parser : Parser) {V : Type} [WireMessage V] (bytes : List UInt8) :
    Option V :=
  parser.mergeFromString WireMessage.default bytes

/-- What is documented: the record of a field is read before the bytes that follow it, as
long as they are not too many, and where nothing follows the message is complete. -/
structure Documented (parser : Parser) : Prop where
  nil {V : Type} [WireMessage V] (msg : V) : parser.mergeFromString msg [] = some msg
  record {V : Type} [WireMessage V] (msg sent : V) {record : Record} {rest : List UInt8} :
    record ∈ WireMessage.records sent → (record.encode ++ rest).length ≤ intMax →
    parser.mergeFromString msg (record.encode ++ rest) =
      (WireMessage.readRecord parser.mergeFromString msg record).bind
        (parser.mergeFromString · rest)

section

variable {parser : Parser} (h : parser.Documented) {V : Type} [WireMessage V]

include h

/-- Reading bytes is reading the records that they hold. -/
theorem mergeFromString_encode {records : List Record}
    (hsent : ∀ record ∈ records, ∃ sent : V, record ∈ WireMessage.records sent)
    (hsize : (WireFormat.encode records).length ≤ intMax) (msg : V) :
    parser.mergeFromString msg (WireFormat.encode records) =
      records.foldlM (WireMessage.readRecord parser.mergeFromString) msg := by
  induction records generalizing msg with
  | nil => exact h.nil msg
  | cons record rest ih =>
      obtain ⟨sent, hrecord⟩ := hsent record List.mem_cons_self
      have hrest : (WireFormat.encode rest).length ≤ intMax := by
        rw [WireFormat.encode_cons, List.length_append] at hsize
        omega
      rw [WireFormat.encode_cons] at hsize ⊢
      rw [h.record msg sent hrecord hsize, List.foldlM_cons, Option.bind_eq_bind]
      refine congrArg (Option.bind _) (funext fun next => ?_)
      exact ih (fun record hmem => hsent record (List.mem_cons_of_mem _ hmem)) hrest next

theorem merges : PacketReader.Merges (parser.mergeFromString (V := BehaviorPacket)) := by
  intro first second hsize
  have hread := mergeFromString_encode h (V := BehaviorPacket)
    (fun _ hrecord => ⟨second, hrecord⟩) hsize first
  exact hread.trans (BehaviorPacket.read_records first second)

theorem parse_encode {message : V}
    (hsize : (WireFormat.encode (WireMessage.records message)).length ≤ intMax) :
    parser.parseFromZeroCopyStream (WireFormat.encode (WireMessage.records message)) =
      some message := by
  rw [parseFromZeroCopyStream,
    mergeFromString_encode h (fun _ hrecord => ⟨message, hrecord⟩) hsize,
    WireMessage.read_records (merges h) _ _ hsize, WireMessage.merge_default]

/-- Two messages one behind the other read as their merge. -/
theorem parse_encode_append {first second : V}
    (hsize : (WireFormat.encode (WireMessage.records first) ++
      WireFormat.encode (WireMessage.records second)).length ≤ intMax) :
    parser.parseFromZeroCopyStream (WireFormat.encode (WireMessage.records first) ++
        WireFormat.encode (WireMessage.records second)) =
      some (WireMessage.merge first second) := by
  have hsent : ∀ record ∈ WireMessage.records first ++ WireMessage.records second,
      ∃ sent : V, record ∈ WireMessage.records sent := by
    intro record hrecord
    rcases List.mem_append.mp hrecord with hfirst | hsecond
    · exact ⟨first, hfirst⟩
    · exact ⟨second, hsecond⟩
  have hlengths := hsize
  rw [List.length_append] at hlengths
  rw [← WireFormat.encode_append] at hsize ⊢
  rw [parseFromZeroCopyStream, mergeFromString_encode h hsent hsize, List.foldlM_append,
    WireMessage.read_records (merges h) _ first (by omega), WireMessage.merge_default,
    Option.bind_eq_bind, Option.bind_some,
    WireMessage.read_records (merges h) _ second (by omega)]

end

/-- A parser that splits the bytes into records first. -/
def reference : Parser where
  mergeFromString msg bytes :=
    (WireFormat.decode bytes).bind fun records =>
      records.foldlM
        (WireMessage.readRecord fun packet bytes =>
          (WireFormat.decode bytes).bind fun records =>
            records.foldlM BehaviorPacket.readRecord packet)
        msg

/-- What is documented can be done. -/
theorem reference_documented : reference.Documented where
  nil msg := by
    dsimp only [reference]
    rw [WireFormat.decode_nil]
    rfl
  record {V} _ msg sent {record rest} _ _ := by
    have hdecode := WireFormat.decode_of_decodeRecord
      (WireFormat.decodeRecord_encode_append record rest)
    dsimp only [reference]
    rw [hdecode]
    cases WireFormat.decode rest with
    | none => simp
    | some records => rfl

end Parser

end HktBase.Grpc
