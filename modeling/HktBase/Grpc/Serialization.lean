import HktBase.Grpc.Built
import HktBase.Grpc.StreamCall
import HktBase.Grpc.UnaryCall

/-!
# Serialization

The bytes of a message that can be built are those of the records of its view.  A packet
is written behind the size that it computed last, which `GenericSerialize` has just had
computed; whatever sizes were kept before do not matter.

The sizes are computed apart from the bytes, so that their agreement is what keeps the
writer within the memory that it was given.

## Strategy

* **Fields.**  `serializeInt64_eq` and its like: the bytes of a field are those of its record,
  and `sizeOfInt64_eq` and its like: the size that is computed for it is their number.
* **Messages.**  The bytes and the size of a message are assembled from those of its fields.
  Only where a packet is written does the order of things matter: `serializeMessage_eq` is
  about the message that the size computation has left, in which the packet has just kept its
  own size.
* **All messages at once.**  What has then been shown of each of the four messages is an
  instance of `LawfulMessage`, and the results about `GenericSerialize` and the parser are
  proved once, for any lawful message.

The library that the generated code calls and the parser are parameters of which only what is
documented is used (`Libprotobuf.Documented`, `Parser.Documented`); the results are applied to
the reference library and the reference parser, which meet that.
-/

namespace HktBase.Grpc.Generated

/-! ## Fields -/

section

variable {isSet : Bool}

theorem serializeInt64_eq {fieldNumber : UInt32} (hfield : fieldNumber.toNat < 2 ^ 29)
    {value : Int64} (hvalue : isSet = false → value = 0) :
    serializeInt64 isSet fieldNumber value =
      WireFormat.encode (int64Record fieldNumber.toNat value) := by
  by_cases hzero : value = 0
  · simp [serializeInt64, int64Record, fieldRecord, hzero]
  · simp [serializeInt64, int64Record, fieldRecord, hzero, isSet_of_ne hvalue hzero,
      writeInt64ToArray_eq hfield, WireFormat.encode]

theorem serializeInt32_eq {fieldNumber : UInt32} (hfield : fieldNumber.toNat < 2 ^ 29)
    {value : Int32} (hvalue : isSet = false → value = 0) :
    serializeInt32 isSet fieldNumber value =
      WireFormat.encode (int32Record fieldNumber.toNat value) := by
  by_cases hzero : value = 0
  · simp [serializeInt32, int32Record, fieldRecord, hzero]
  · simp [serializeInt32, int32Record, fieldRecord, hzero, isSet_of_ne hvalue hzero,
      writeInt32ToArray_eq hfield, WireFormat.encode]

theorem serializeBytes_eq {library : Libprotobuf} (hlibrary : library.Documented)
    {fieldNumber : UInt32} (hfield : fieldNumber.toNat < 2 ^ 29) {value : List UInt8}
    (hvalue : isSet = false → value = []) (hlength : value.length ≤ intMax) :
    serializeBytes library isSet fieldNumber value =
      WireFormat.encode (bytesRecord fieldNumber.toNat value) := by
  by_cases hempty : value = []
  · simp [serializeBytes, bytesRecord, fieldRecord, hempty]
  · simp [serializeBytes, bytesRecord, fieldRecord, hempty, isSet_of_ne hvalue hempty,
      writeBytesMaybeAliased_eq hlibrary hfield hlength, WireFormat.encode]

variable (preferBsr : Bool) (field : ℕ)

theorem sizeOfInt64_eq (hfield : field < 16) {value : Int64}
    (hvalue : isSet = false → value = 0) :
    sizeOfInt64 preferBsr isSet value = (WireFormat.encode (int64Record field value)).length := by
  by_cases hzero : value = 0
  · simp [sizeOfInt64, int64Record, fieldRecord, hzero]
  · simp [sizeOfInt64, int64SizePlusOne, int64Record, fieldRecord, hzero,
      isSet_of_ne hvalue hzero, length_encode_varint hfield, WireFormat.encode]

theorem sizeOfInt32_eq (hfield : field < 16) {value : Int32}
    (hvalue : isSet = false → value = 0) :
    sizeOfInt32 preferBsr isSet value = (WireFormat.encode (int32Record field value)).length := by
  by_cases hzero : value = 0
  · simp [sizeOfInt32, int32Record, fieldRecord, hzero]
  · simp [sizeOfInt32, int32SizePlusOne, int32Record, fieldRecord, hzero,
      isSet_of_ne hvalue hzero, length_encode_varint hfield, WireFormat.encode]

theorem sizeOfBytes_eq (hfield : field < 15) {value : List UInt8}
    (hvalue : isSet = false → value = []) (hlength : value.length ≤ intMax) :
    sizeOfBytes preferBsr isSet value = (WireFormat.encode (bytesRecord field value)).length := by
  by_cases hempty : value = []
  · simp [sizeOfBytes, bytesRecord, fieldRecord, hempty]
  · simp [sizeOfBytes, bytesRecord, fieldRecord, hempty, isSet_of_ne hvalue hempty,
      length_encode_delimited preferBsr hfield hlength, WireFormat.encode]

theorem length_le_sizeOfBytes {value : List UInt8} (hvalue : isSet = false → value = []) :
    value.length ≤ sizeOfBytes preferBsr isSet value := by
  by_cases hempty : value = []
  · simp [hempty]
  · simp only [sizeOfBytes, isSet_of_ne hvalue hempty, if_true, lengthDelimitedSize]
    rw [if_pos (by simpa using hempty)]
    omega

end

/-! ## `SyncRequest` -/

namespace SyncRequest

theorem internalSerialize_eq {request : SyncRequest} (h : request.WellFormed) :
    request.internalSerialize = WireFormat.encode request.view.records := by
  rw [internalSerialize, serializeInt64_eq (by decide) h.playerId,
    serializeInt32_eq (by decide) h.groupId, ← WireFormat.encode_append]
  rfl

theorem byteSizeLong_fst (preferBsr : Bool) (request : SyncRequest) :
    (request.byteSizeLong preferBsr).1 =
      sizeOfInt64 preferBsr (request.hasBits.any 0x1) request.playerId +
        sizeOfInt32 preferBsr (request.hasBits.any 0x2) request.groupId := by
  unfold byteSizeLong
  by_cases h : request.hasBits.any 0x3 = true
  · simp only [h, if_true]
  · obtain ⟨hplayer, hgroup⟩ :
        request.hasBits.any 0x1 = false ∧ request.hasBits.any 0x2 = false := by
      simpa using h
    simp only [h, hplayer, hgroup, sizeOfInt64, sizeOfInt32, if_false, Bool.false_eq_true]

theorem byteSizeLong_eq {request : SyncRequest} (h : request.WellFormed) (preferBsr : Bool) :
    (request.byteSizeLong preferBsr).1 = (WireFormat.encode request.view.records).length := by
  calc (request.byteSizeLong preferBsr).1
      = (WireFormat.encode (int64Record 1 request.playerId)).length +
          (WireFormat.encode (int32Record 2 request.groupId)).length := by
        rw [byteSizeLong_fst, sizeOfInt64_eq preferBsr 1 (by omega) h.playerId,
          sizeOfInt32_eq preferBsr 2 (by omega) h.groupId]
    _ = (WireFormat.encode request.view.records).length := by
        rw [← List.length_append, ← WireFormat.encode_append]
        rfl

end SyncRequest

/-! ## `BehaviorPacket` -/

namespace BehaviorPacket

theorem internalSerialize_eq {library : Libprotobuf} (hlibrary : library.Documented)
    {packet : BehaviorPacket} (h : packet.WellFormed)
    (hlength : packet.payload.length ≤ intMax) :
    packet.internalSerialize library = WireFormat.encode packet.view.records := by
  rw [internalSerialize, serializeInt64_eq (by decide) h.behaviorId,
    serializeInt64_eq (by decide) h.ownerPlayerId, serializeInt32_eq (by decide) h.behaviorTypeId,
    serializeBytes_eq hlibrary (by decide) h.payload hlength, ← WireFormat.encode_append,
    ← WireFormat.encode_append, ← WireFormat.encode_append]
  rfl

theorem byteSizeLong_fst (preferBsr : Bool) (packet : BehaviorPacket) :
    (packet.byteSizeLong preferBsr).1 =
      sizeOfBytes preferBsr (packet.hasBits.any 0x1) packet.payload +
        sizeOfInt64 preferBsr (packet.hasBits.any 0x2) packet.behaviorId +
        sizeOfInt64 preferBsr (packet.hasBits.any 0x4) packet.ownerPlayerId +
        sizeOfInt32 preferBsr (packet.hasBits.any 0x8) packet.behaviorTypeId := by
  unfold byteSizeLong
  by_cases h : packet.hasBits.any 0xf = true
  · simp only [h, if_true]
  · obtain ⟨hpayload, ⟨hbehavior, howner⟩, htype⟩ :
        packet.hasBits.any 0x1 = false ∧
          (packet.hasBits.any 0x2 = false ∧ packet.hasBits.any 0x4 = false) ∧
            packet.hasBits.any 0x8 = false := by
      simpa using h
    simp only [h, hpayload, hbehavior, howner, htype, sizeOfBytes, sizeOfInt64, sizeOfInt32,
      if_false, Bool.false_eq_true]

theorem byteSizeLong_eq {packet : BehaviorPacket} (h : packet.WellFormed)
    (hlength : packet.payload.length ≤ intMax) (preferBsr : Bool) :
    (packet.byteSizeLong preferBsr).1 = (WireFormat.encode packet.view.records).length := by
  have hrecords : WireFormat.encode packet.view.records =
      WireFormat.encode (int64Record 1 packet.behaviorId) ++
        WireFormat.encode (int64Record 2 packet.ownerPlayerId) ++
        WireFormat.encode (int32Record 3 packet.behaviorTypeId) ++
        WireFormat.encode (bytesRecord 4 packet.payload) := by
    rw [← WireFormat.encode_append, ← WireFormat.encode_append, ← WireFormat.encode_append]
    rfl
  rw [byteSizeLong_fst, sizeOfBytes_eq preferBsr 4 (by omega) h.payload hlength,
    sizeOfInt64_eq preferBsr 1 (by omega) h.behaviorId,
    sizeOfInt64_eq preferBsr 2 (by omega) h.ownerPlayerId,
    sizeOfInt32_eq preferBsr 3 (by omega) h.behaviorTypeId, hrecords]
  simp only [List.length_append]
  omega

theorem length_payload_le {packet : BehaviorPacket} (h : packet.WellFormed) (preferBsr : Bool) :
    packet.payload.length ≤ (packet.byteSizeLong preferBsr).1 := by
  have hpayload := length_le_sizeOfBytes preferBsr h.payload
  rw [byteSizeLong_fst]
  omega

end BehaviorPacket

/-! ## A field of type `BehaviorPacket` -/

namespace PacketField

section

variable (preferBsr : Bool) {field : PacketField}

/-- The size of the packet fits in the bits in which it is kept. -/
theorem byteSizeLong_of_small {packet : BehaviorPacket} (hpacket : packet.Built)
    (hsize : lengthDelimitedSize preferBsr (packet.byteSizeLong preferBsr).1 ≤ intMax) :
    (packet.byteSizeLong preferBsr).1 = (WireFormat.encode packet.view.records).length ∧
      packet.payload.length ≤ intMax ∧ (packet.byteSizeLong preferBsr).1 ≤ intMax := by
  have hwellFormed := BehaviorPacket.wellFormed_of_built hpacket
  have hle : (packet.byteSizeLong preferBsr).1 ≤
      lengthDelimitedSize preferBsr (packet.byteSizeLong preferBsr).1 := Nat.le_add_right ..
  have hlength := BehaviorPacket.length_payload_le hwellFormed preferBsr
  have hpayload : packet.payload.length ≤ intMax := by omega
  exact ⟨BehaviorPacket.byteSizeLong_eq hwellFormed hpayload preferBsr, hpayload, by omega⟩

theorem sizeOfMessage_fst (h : field.WellFormed) {number : ℕ} (hnumber : number < 15)
    (hsize : (field.sizeOfMessage preferBsr).1 ≤ intMax) :
    (field.sizeOfMessage preferBsr).1 =
      (WireFormat.encode (packetRecord number field.view)).length := by
  cases hset : field.hasPacket with
  | true =>
      obtain ⟨packet, hpacket⟩ := Option.isSome_iff_exists.mp (h.isSome hset)
      rw [sizeOfMessage_of_hasPacket preferBsr hset hpacket] at hsize ⊢
      obtain ⟨hbytes, -, hsmall⟩ :=
        byteSizeLong_of_small preferBsr (h.built packet hpacket) (by omega)
      rw [view_of_hasPacket_eq_true hset hpacket, packetRecord, WireFormat.encode,
        List.flatMap_singleton, hbytes, length_encode_delimited preferBsr hnumber (by omega)]
  | false =>
      rw [sizeOfMessage_of_not preferBsr hset, view_of_hasPacket_eq_false hset]
      rfl

/-- The size that was just computed is the one that stands before the packet: `ByteSizeLong`
caches it in the packet, and the writer reads it there. -/
theorem serializeMessage_eq {library : Libprotobuf} (hlibrary : library.Documented)
    (h : field.WellFormed) {fieldNumber : UInt32} (hnumber : fieldNumber.toNat < 2 ^ 29)
    (hsize : (field.sizeOfMessage preferBsr).1 ≤ intMax) :
    (field.sizeOfMessage preferBsr).2.serializeMessage library fieldNumber =
      WireFormat.encode (packetRecord fieldNumber.toNat field.view) := by
  cases hset : field.hasPacket with
  | true =>
      obtain ⟨packet, hpacket⟩ := Option.isSome_iff_exists.mp (h.isSome hset)
      rw [sizeOfMessage_of_hasPacket preferBsr hset hpacket] at hsize ⊢
      obtain ⟨hbytes, hpayload, hsmall⟩ :=
        byteSizeLong_of_small preferBsr (h.built packet hpacket) (by omega)
      have hwellFormed := BehaviorPacket.wellFormed_of_built (h.built packet hpacket)
      have hserialize := BehaviorPacket.internalSerialize_eq hlibrary hwellFormed hpayload
      -- what the packet has kept is the number of its bytes, which fits
      have hcached : (packet.byteSizeLong preferBsr).2.cachedSize =
          Int32.ofNat (WireFormat.encode packet.view.records).length :=
        congrArg Int32.ofNat hbytes
      have hwrite := hlibrary.writesMessage hnumber (hbytes ▸ hsmall) hcached
      rw [view_of_hasPacket_eq_true hset hpacket, packetRecord, WireFormat.encode,
        List.flatMap_singleton, ← hwrite, ← hserialize, serializeMessage,
        show field.hasBits.any 0x1 = true from hset, if_pos rfl]
      rfl
  | false =>
      rw [sizeOfMessage_of_not preferBsr hset, view_of_hasPacket_eq_false hset, serializeMessage,
        show field.hasBits.any 0x1 = false from hset, if_neg Bool.false_ne_true]
      rfl

end

end PacketField

/-! ## `BehaviorRequest` -/

namespace BehaviorRequest

/-- What is written once the sizes have been computed. -/
theorem internalSerialize_eq {library : Libprotobuf} (hlibrary : library.Documented)
    {request : BehaviorRequest} (h : request.WellFormed) {preferBsr : Bool}
    (hsize : (request.byteSizeLong preferBsr).1 ≤ intMax) :
    (request.byteSizeLong preferBsr).2.internalSerialize library =
      WireFormat.encode request.view.records := by
  rw [byteSizeLong_eq] at hsize ⊢
  rw [internalSerialize, PacketField.hasBits_sizeOfMessage,
    serializeInt32_eq (by decide) h.groupId,
    PacketField.serializeMessage_eq preferBsr hlibrary h.packet (by decide) (by omega),
    ← WireFormat.encode_append]
  rfl

theorem byteSizeLong_fst {request : BehaviorRequest} (h : request.WellFormed) {preferBsr : Bool}
    (hsize : (request.byteSizeLong preferBsr).1 ≤ intMax) :
    (request.byteSizeLong preferBsr).1 = (WireFormat.encode request.view.records).length := by
  have hrecords : WireFormat.encode request.view.records =
      WireFormat.encode (int32Record 1 request.groupId) ++
        WireFormat.encode (packetRecord 2 request.toPacketField.view) := by
    rw [← WireFormat.encode_append]
    rfl
  rw [byteSizeLong_eq] at hsize ⊢
  dsimp only at hsize ⊢
  rw [hrecords, List.length_append, sizeOfInt32_eq preferBsr 1 (by omega) h.groupId,
    PacketField.sizeOfMessage_fst preferBsr h.packet (by omega : 2 < 15) (by omega), Nat.add_comm]

end BehaviorRequest

/-! ## Whole messages -/

/-- Messages whose bytes are those of the records of what their getters see. -/
class LawfulMessage (M : Type) (V : outParam Type) [MessageLite M] [WireMessage V] where
  Built : M → Prop
  WellFormed : M → Prop
  view : M → V
  mergeFrom : M → M → M
  wellFormed_of_built {msg : M} : Built msg → WellFormed msg
  built_mergeFrom {msg source : M} : Built msg → Built source → Built (mergeFrom msg source)
  mergeFrom_view {msg source : M} : Built msg → Built source →
    view (mergeFrom msg source) = WireMessage.merge (view msg) (view source)
  /-- Below the limit both the bytes and their number are right. -/
  serialize {library : Libprotobuf} {msg : M} {preferBsr : Bool} : library.Documented →
    Built msg → (MessageLite.byteSizeLong preferBsr msg).1 ≤ intMax →
      MessageLite.internalSerialize library (MessageLite.byteSizeLong preferBsr msg).2 =
          WireFormat.encode (WireMessage.records (view msg)) ∧
        (MessageLite.byteSizeLong preferBsr msg).1 =
          (WireFormat.encode (WireMessage.records (view msg))).length

theorem SyncRequest.serialize {request : SyncRequest} (h : request.Built) (preferBsr : Bool) :
    (request.byteSizeLong preferBsr).2.internalSerialize =
        WireFormat.encode request.view.records ∧
      (request.byteSizeLong preferBsr).1 = (WireFormat.encode request.view.records).length :=
  have hwellFormed := wellFormed_of_built h
  ⟨internalSerialize_eq (wellFormed_of_built (.byteSizeLong preferBsr h)),
    byteSizeLong_eq hwellFormed preferBsr⟩

theorem BehaviorPacket.serialize {library : Libprotobuf} (hlibrary : library.Documented)
    {packet : BehaviorPacket} (h : packet.Built) {preferBsr : Bool}
    (hsize : (packet.byteSizeLong preferBsr).1 ≤ intMax) :
    (packet.byteSizeLong preferBsr).2.internalSerialize library =
        WireFormat.encode packet.view.records ∧
      (packet.byteSizeLong preferBsr).1 = (WireFormat.encode packet.view.records).length :=
  have hwellFormed := wellFormed_of_built h
  have hpayload := Nat.le_trans (length_payload_le hwellFormed preferBsr) hsize
  ⟨internalSerialize_eq hlibrary (wellFormed_of_built (.byteSizeLong preferBsr h)) hpayload,
    byteSizeLong_eq hwellFormed hpayload preferBsr⟩

instance : LawfulMessage SyncRequest Grpc.SyncRequest where
  Built := SyncRequest.Built
  WellFormed := SyncRequest.WellFormed
  view := SyncRequest.view
  mergeFrom := SyncRequest.mergeFrom
  wellFormed_of_built := SyncRequest.wellFormed_of_built
  built_mergeFrom h hsource := .mergeFrom hsource h
  mergeFrom_view _ hsource := SyncRequest.mergeFrom_view (SyncRequest.wellFormed_of_built hsource) _
  serialize _ h _ := SyncRequest.serialize h _

instance : LawfulMessage BehaviorPacket Grpc.BehaviorPacket where
  Built := BehaviorPacket.Built
  WellFormed := BehaviorPacket.WellFormed
  view := BehaviorPacket.view
  mergeFrom := BehaviorPacket.mergeFrom
  wellFormed_of_built := BehaviorPacket.wellFormed_of_built
  built_mergeFrom h hsource := .mergeFrom hsource h
  mergeFrom_view _ hsource :=
    BehaviorPacket.mergeFrom_view (BehaviorPacket.wellFormed_of_built hsource) _
  serialize hlibrary h hsize := BehaviorPacket.serialize hlibrary h hsize

instance : LawfulMessage BehaviorRequest Grpc.BehaviorRequest where
  Built := BehaviorRequest.Built
  WellFormed := BehaviorRequest.WellFormed
  view := BehaviorRequest.view
  mergeFrom := BehaviorRequest.mergeFrom
  wellFormed_of_built := BehaviorRequest.wellFormed_of_built
  built_mergeFrom h hsource := .mergeFrom hsource h
  mergeFrom_view h hsource :=
    BehaviorRequest.mergeFrom_view (BehaviorRequest.wellFormed_of_built h)
      (BehaviorRequest.wellFormed_of_built hsource)
  serialize hlibrary h hsize :=
    have hwellFormed := BehaviorRequest.wellFormed_of_built h
    ⟨BehaviorRequest.internalSerialize_eq hlibrary hwellFormed hsize,
      BehaviorRequest.byteSizeLong_fst hwellFormed hsize⟩

instance : LawfulMessage SyncResponse Grpc.SyncResponse where
  Built := SyncResponse.Built
  WellFormed := SyncResponse.WellFormed
  view := SyncResponse.view
  mergeFrom := SyncResponse.mergeFrom
  wellFormed_of_built := SyncResponse.wellFormed_of_built
  built_mergeFrom h hsource := .mergeFrom hsource h
  mergeFrom_view := SyncResponse.mergeFrom_view
  serialize hlibrary h hsize :=
    have hwellFormed := SyncResponse.wellFormed_of_built h
    ⟨PacketField.serializeMessage_eq _ hlibrary hwellFormed (by decide) hsize,
      PacketField.sizeOfMessage_fst _ hwellFormed (by omega) hsize⟩

section

variable {M V : Type} [MessageLite M] [WireMessage V] [LawfulMessage M V]

open LawfulMessage (Built WellFormed view mergeFrom)

/-- A message that is not too large is written as the records of its view, and a larger one
is refused. -/
theorem genericSerialize_eq {library : Libprotobuf} (hlibrary : library.Documented) {msg : M}
    (h : Built msg) (preferBsr : Bool) :
    (genericSerialize library preferBsr msg).1 =
      if (MessageLite.byteSizeLong preferBsr msg).1 > intMax then
        some (.error
          { code := "INTERNAL"
            message := "Protobuf is too large to be serialized"
            details := toString (MessageLite.byteSizeLong preferBsr msg).1 ++
              " bytes is beyond the limit 2^31-1" })
      else some (.ok (WireFormat.encode (WireMessage.records (view msg)))) := by
  unfold genericSerialize
  dsimp only
  by_cases hlarge : (MessageLite.byteSizeLong preferBsr msg).1 > intMax
  · rw [if_pos hlarge, if_pos hlarge]
  · obtain ⟨hbytes, hlength⟩ := LawfulMessage.serialize hlibrary h (Nat.not_lt.mp hlarge)
    rw [if_neg hlarge, if_neg hlarge, hbytes, hlibrary.writesToArray]
    split
    · rw [if_pos hlength.symm]
    · rw [if_pos (Nat.le_of_eq hlength.symm)]

/-- The bytes of a message, when it is not refused. -/
theorem bytes_of_genericSerialize {library : Libprotobuf} (hlibrary : library.Documented)
    {msg : M} (h : Built msg) {preferBsr : Bool} {bytes : List UInt8}
    (hbytes : (genericSerialize library preferBsr msg).1 = some (.ok bytes)) :
    bytes = WireFormat.encode (WireMessage.records (view msg)) ∧ bytes.length ≤ intMax := by
  rw [genericSerialize_eq hlibrary h] at hbytes
  split at hbytes
  · simp at hbytes
  · rename_i hsmall
    obtain rfl : WireFormat.encode (WireMessage.records (view msg)) = bytes := by
      simpa using hbytes
    obtain ⟨-, hlength⟩ := LawfulMessage.serialize hlibrary h (Nat.not_lt.mp hsmall)
    exact ⟨rfl, by omega⟩

/-- How the serialization of a message can end: with the records of the fields that differ
from their default, in the order of the fields, in as many bytes as were computed; or with a
refusal, because the bytes are too many to be sent. -/
def EndsWell (library : Libprotobuf) (preferBsr : Bool) (msg : M) : Prop :=
  match (genericSerialize library preferBsr msg).1 with
  | none => False
  | some (.error error) =>
      error.code = "INTERNAL" ∧ intMax < (MessageLite.byteSizeLong preferBsr msg).1
  | some (.ok bytes) =>
      bytes = WireFormat.encode (WireMessage.records (view msg)) ∧
        bytes.length = (MessageLite.byteSizeLong preferBsr msg).1 ∧ bytes.length ≤ intMax

theorem endsWell_of_built {library : Libprotobuf} (hlibrary : library.Documented) {msg : M}
    (h : Built msg) (preferBsr : Bool) : EndsWell library preferBsr msg := by
  unfold EndsWell
  rw [genericSerialize_eq hlibrary h]
  by_cases hlarge : (MessageLite.byteSizeLong preferBsr msg).1 > intMax
  · rw [if_pos hlarge]
    exact ⟨rfl, hlarge⟩
  · obtain ⟨-, hlength⟩ := LawfulMessage.serialize hlibrary h (Nat.not_lt.mp hlarge)
    rw [if_neg hlarge]
    exact ⟨rfl, hlength.symm, by omega⟩

section

variable {library : Libprotobuf} (hlibrary : library.Documented) {parser : Parser}
  (hparser : parser.Documented)

include hlibrary hparser

theorem parse_of_genericSerialize {msg : M} (h : Built msg) {preferBsr : Bool}
    {bytes : List UInt8}
    (hbytes : (genericSerialize library preferBsr msg).1 = some (.ok bytes)) :
    parser.parseFromZeroCopyStream bytes = some (view msg) := by
  obtain ⟨rfl, hsize⟩ := bytes_of_genericSerialize hlibrary h hbytes
  exact Parser.parse_encode hparser hsize

/-- The bytes of two messages, one behind the other, are read as what the getters see once
the second has been merged into the first. -/
theorem parse_append_of_genericSerialize {msg source : M} (h : Built msg) (hsource : Built source)
    {preferBsr : Bool} {first second : List UInt8}
    (hfirst : (genericSerialize library preferBsr msg).1 = some (.ok first))
    (hsecond : (genericSerialize library preferBsr source).1 = some (.ok second))
    (hsize : (first ++ second).length ≤ intMax) :
    WellFormed (mergeFrom msg source) ∧
      parser.parseFromZeroCopyStream (first ++ second) = some (view (mergeFrom msg source)) := by
  obtain ⟨rfl, -⟩ := bytes_of_genericSerialize hlibrary h hfirst
  obtain ⟨rfl, -⟩ := bytes_of_genericSerialize hlibrary hsource hsecond
  refine ⟨LawfulMessage.wellFormed_of_built (LawfulMessage.built_mergeFrom h hsource), ?_⟩
  rw [Parser.parse_encode_append hparser hsize, LawfulMessage.mergeFrom_view h hsource]

end

end

/-! ## The messages of the service -/

/-- The request of `FHktRpcProxy::ExecuteBehavior`. -/
def executeBehaviorRequest (groupId subjectId : Int64) (behaviorTypeId : Int32)
    (bytes : List UInt8) : BehaviorRequest :=
  let packet :=
    ((({} : BehaviorPacket).setOwnerPlayerId subjectId).setBehaviorId 0).setBehaviorTypeId
      behaviorTypeId |>.setPayload bytes
  (({} : BehaviorRequest).setGroupId groupId.toInt32).mutablePacket fun target =>
    target.copyFrom packet

/-- The request of `FHktRpcProxy::SyncGroup`. -/
def syncGroupRequest (playerId groupId : Int64) : SyncRequest :=
  (({} : SyncRequest).setPlayerId playerId).setGroupId groupId.toInt32

/-- `FSyncGroupRpcTrait::CreateResponseFromPacket`. -/
def createResponseFromPacket (packet : BehaviorPacket) : SyncResponse :=
  ({} : SyncResponse).mutablePacket fun target => target.copyFrom packet

theorem copyFrom_view {packet source : BehaviorPacket} (h : packet.Built) (hsource : source.Built) :
    (packet.copyFrom source).view = source.view := by
  rw [BehaviorPacket.copyFrom, BehaviorPacket.mergeFrom_view
    (BehaviorPacket.wellFormed_of_built hsource), PacketField.view_clear h,
    Grpc.BehaviorPacket.merge_default]

theorem built_executeBehaviorRequest (groupId subjectId : Int64) (behaviorTypeId : Int32)
    (bytes : List UInt8) :
    (executeBehaviorRequest groupId subjectId behaviorTypeId bytes).Built :=
  .mutablePacket
    (fun _ htarget => .mergeFrom
      (.setPayload _ (.setBehaviorTypeId _ (.setBehaviorId _ (.setOwnerPlayerId _ .new))))
      (.clear htarget))
    (.setGroupId _ .new)

theorem executeBehaviorRequest_view (groupId subjectId : Int64) (behaviorTypeId : Int32)
    (bytes : List UInt8) :
    (executeBehaviorRequest groupId subjectId behaviorTypeId bytes).view =
      RpcServer.executeBehavior groupId subjectId behaviorTypeId bytes := by
  have hpacket := copyFrom_view .new
    (.setPayload bytes (.setBehaviorTypeId behaviorTypeId
      (.setBehaviorId 0 (.setOwnerPlayerId subjectId .new))))
  have hset : PacketField.hasPacket
      (executeBehaviorRequest groupId subjectId behaviorTypeId bytes).toPacketField = true := by
    simp [executeBehaviorRequest, BehaviorRequest.mutablePacket, PacketField.mutablePacket,
      PacketField.hasPacket]
  rw [BehaviorRequest.view, PacketField.view_of_hasPacket_eq_true hset rfl]
  exact congrArg (fun packet => Grpc.BehaviorRequest.mk groupId.toInt32 (some packet)) hpacket

theorem built_syncGroupRequest (playerId groupId : Int64) :
    (syncGroupRequest playerId groupId).Built :=
  .setGroupId _ (.setPlayerId _ .new)

theorem syncGroupRequest_view (playerId groupId : Int64) :
    (syncGroupRequest playerId groupId).view =
      (StreamCall.syncGroup playerId groupId).request :=
  rfl

theorem built_createResponseFromPacket {packet : BehaviorPacket} (h : packet.Built) :
    (createResponseFromPacket packet).Built :=
  .mutablePacket (fun _ htarget => .mergeFrom h (.clear htarget)) .new

theorem createResponseFromPacket_view {packet : BehaviorPacket} (h : packet.Built) :
    (createResponseFromPacket packet).view = Grpc.createResponseFromPacket packet.view := by
  have hset : PacketField.hasPacket (createResponseFromPacket packet).toPacketField = true := by
    simp [createResponseFromPacket, SyncResponse.mutablePacket, PacketField.mutablePacket,
      PacketField.hasPacket]
  rw [SyncResponse.view, PacketField.view_of_hasPacket_eq_true hset rfl]
  exact congrArg (fun packet => Grpc.SyncResponse.mk (some packet)) (copyFrom_view .new h)

/-- No message that can be built makes the writer leave the memory that it is given, on
either kind of processor and whatever sizes were kept from before. -/
theorem messages_end_well {library : Libprotobuf} (hlibrary : library.Documented)
    (preferBsr : Bool) :
    (∀ request : SyncRequest, request.Built → EndsWell library preferBsr request) ∧
      (∀ packet : BehaviorPacket, packet.Built → EndsWell library preferBsr packet) ∧
      (∀ request : BehaviorRequest, request.Built → EndsWell library preferBsr request) ∧
      ∀ response : SyncResponse, response.Built → EndsWell library preferBsr response :=
  ⟨fun _ h => endsWell_of_built hlibrary h preferBsr,
    fun _ h => endsWell_of_built hlibrary h preferBsr,
    fun _ h => endsWell_of_built hlibrary h preferBsr,
    fun _ h => endsWell_of_built hlibrary h preferBsr⟩

/-- A request of which the size was computed before its packet was changed once more. -/
def changedRequest : BehaviorRequest :=
  let request := ((({} : BehaviorRequest).setGroupId (-1)).mutablePacket fun packet =>
    packet.setPayload [1, 2, 3])
  (request.byteSizeLong true).2.mutablePacket fun packet =>
    (packet.setBehaviorId 300).mutablePayload (7 :: ·)

theorem built_changedRequest : changedRequest.Built :=
  .mutablePacket (fun _ hpacket => .mutablePayload _ (.setBehaviorId _ hpacket))
    (.byteSizeLong _ (.mutablePacket (fun _ hpacket => .setPayload _ hpacket)
      (.setGroupId _ .new)))

theorem changedRequest_ends_well : EndsWell .reference false changedRequest :=
  (messages_end_well Libprotobuf.reference_documented false).2.2.1 changedRequest
    built_changedRequest

/-- The bytes of every message of the service are read as what its getters see. -/
theorem messages_round_trip {library : Libprotobuf} (hlibrary : library.Documented)
    {parser : Parser} (hparser : parser.Documented) (preferBsr : Bool) (bytes : List UInt8) :
    (∀ request : SyncRequest, request.Built →
        (genericSerialize library preferBsr request).1 = some (.ok bytes) →
        parser.parseFromZeroCopyStream bytes = some request.view) ∧
      (∀ packet : BehaviorPacket, packet.Built →
        (genericSerialize library preferBsr packet).1 = some (.ok bytes) →
        parser.parseFromZeroCopyStream bytes = some packet.view) ∧
      (∀ request : BehaviorRequest, request.Built →
        (genericSerialize library preferBsr request).1 = some (.ok bytes) →
        parser.parseFromZeroCopyStream bytes = some request.view) ∧
      ∀ response : SyncResponse, response.Built →
        (genericSerialize library preferBsr response).1 = some (.ok bytes) →
        parser.parseFromZeroCopyStream bytes = some response.view :=
  ⟨fun _ h => parse_of_genericSerialize hlibrary hparser h,
    fun _ h => parse_of_genericSerialize hlibrary hparser h,
    fun _ h => parse_of_genericSerialize hlibrary hparser h,
    fun _ h => parse_of_genericSerialize hlibrary hparser h⟩

theorem serialize_changedRequest :
    (genericSerialize .reference true changedRequest).1 =
      some (.ok (WireFormat.encode changedRequest.view.records)) := by
  have hsize : ¬ (MessageLite.byteSizeLong true changedRequest).1 > intMax := by decide
  rw [genericSerialize_eq Libprotobuf.reference_documented built_changedRequest, if_neg hsize]
  rfl

theorem changedRequest_round_trip :
    Parser.reference.parseFromZeroCopyStream (WireFormat.encode changedRequest.view.records) =
      some changedRequest.view :=
  (messages_round_trip Libprotobuf.reference_documented Parser.reference_documented true _).2.2.1
    changedRequest built_changedRequest serialize_changedRequest

/-- Reading two messages of the service, one behind the other, is the same as `MergeFrom`,
after which a field whose bit is not set still has its default value. -/
theorem messages_merge {library : Libprotobuf} (hlibrary : library.Documented)
    {parser : Parser} (hparser : parser.Documented) (preferBsr : Bool)
    (first second : List UInt8) (hsize : (first ++ second).length ≤ intMax) :
    (∀ request source : SyncRequest, request.Built → source.Built →
        (genericSerialize library preferBsr request).1 = some (.ok first) →
        (genericSerialize library preferBsr source).1 = some (.ok second) →
        (request.mergeFrom source).WellFormed ∧
          parser.parseFromZeroCopyStream (first ++ second) =
            some (request.mergeFrom source).view) ∧
      (∀ packet source : BehaviorPacket, packet.Built → source.Built →
        (genericSerialize library preferBsr packet).1 = some (.ok first) →
        (genericSerialize library preferBsr source).1 = some (.ok second) →
        (packet.mergeFrom source).WellFormed ∧
          parser.parseFromZeroCopyStream (first ++ second) =
            some (packet.mergeFrom source).view) ∧
      (∀ request source : BehaviorRequest, request.Built → source.Built →
        (genericSerialize library preferBsr request).1 = some (.ok first) →
        (genericSerialize library preferBsr source).1 = some (.ok second) →
        (request.mergeFrom source).WellFormed ∧
          parser.parseFromZeroCopyStream (first ++ second) =
            some (request.mergeFrom source).view) ∧
      ∀ response source : SyncResponse, response.Built → source.Built →
        (genericSerialize library preferBsr response).1 = some (.ok first) →
        (genericSerialize library preferBsr source).1 = some (.ok second) →
        (response.mergeFrom source).WellFormed ∧
          parser.parseFromZeroCopyStream (first ++ second) =
            some (response.mergeFrom source).view := by
  refine ⟨?_, ?_, ?_, ?_⟩
  · intro request source h hsource hfirst hsecond
    exact parse_append_of_genericSerialize hlibrary hparser h hsource hfirst hsecond hsize
  · intro packet source h hsource hfirst hsecond
    exact parse_append_of_genericSerialize hlibrary hparser h hsource hfirst hsecond hsize
  · intro request source h hsource hfirst hsecond
    exact parse_append_of_genericSerialize hlibrary hparser h hsource hfirst hsecond hsize
  · intro response source h hsource hfirst hsecond
    exact parse_append_of_genericSerialize hlibrary hparser h hsource hfirst hsecond hsize

theorem changedRequest_merge :
    (changedRequest.mergeFrom changedRequest).WellFormed ∧
      Parser.reference.parseFromZeroCopyStream (WireFormat.encode changedRequest.view.records ++
          WireFormat.encode changedRequest.view.records) =
        some (changedRequest.mergeFrom changedRequest).view := by
  have hlength : (WireFormat.encode changedRequest.view.records ++
      WireFormat.encode changedRequest.view.records).length ≤ intMax := by decide +kernel
  exact (messages_merge Libprotobuf.reference_documented Parser.reference_documented true _ _
    hlength).2.2.1 changedRequest changedRequest built_changedRequest built_changedRequest
      serialize_changedRequest serialize_changedRequest

/-- What a client posts and what a session writes arrive as they were handed over, the
group id cut to 32 bits. -/
theorem requests_arrive {library : Libprotobuf} (hlibrary : library.Documented)
    {parser : Parser} (hparser : parser.Documented) (preferBsr : Bool)
    (message : List UInt8) :
    (∀ groupId subjectId behaviorTypeId bytes,
        (genericSerialize library preferBsr
          (executeBehaviorRequest groupId subjectId behaviorTypeId bytes)).1 =
            some (.ok message) →
        parser.parseFromZeroCopyStream message =
          some (RpcServer.executeBehavior groupId subjectId behaviorTypeId bytes)) ∧
      (∀ playerId groupId,
        (genericSerialize library preferBsr (syncGroupRequest playerId groupId)).1 =
          some (.ok message) →
        parser.parseFromZeroCopyStream message =
          some (StreamCall.syncGroup playerId groupId).request) ∧
      ∀ packet : BehaviorPacket, packet.Built →
        (genericSerialize library preferBsr (createResponseFromPacket packet)).1 =
          some (.ok message) →
        parser.parseFromZeroCopyStream message =
          some (Grpc.createResponseFromPacket packet.view) := by
  refine ⟨?_, ?_, ?_⟩
  · intro groupId subjectId behaviorTypeId bytes h
    rw [← executeBehaviorRequest_view]
    exact parse_of_genericSerialize hlibrary hparser (built_executeBehaviorRequest ..) h
  · intro playerId groupId h
    rw [← syncGroupRequest_view]
    exact parse_of_genericSerialize hlibrary hparser (built_syncGroupRequest ..) h
  · intro packet hpacket h
    rw [← createResponseFromPacket_view hpacket]
    exact parse_of_genericSerialize hlibrary hparser (built_createResponseFromPacket hpacket) h

theorem syncGroup_arrives :
    Parser.reference.parseFromZeroCopyStream
        (WireFormat.encode (syncGroupRequest (-7) 5).view.records) =
      some (StreamCall.syncGroup (-7) 5).request := by
  have hsize : ¬ (MessageLite.byteSizeLong true (syncGroupRequest (-7) 5)).1 > intMax := by
    decide
  apply (requests_arrive Libprotobuf.reference_documented Parser.reference_documented
    true _).2.1 (-7) 5
  rw [genericSerialize_eq Libprotobuf.reference_documented (built_syncGroupRequest (-7) 5),
    if_neg hsize]
  rfl

end HktBase.Grpc.Generated
