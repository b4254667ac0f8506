import HktBase.Grpc.CodedStream
import HktBase.Grpc.Messages

/-!
# The generated messages

The classes of `hkt.pb.h` and `hkt.pb.cc`.  Next to its fields a message holds bits that
say which of them have been set and the size that it computed last.  A field is written
when its bit is set and its value is not the default one; a nested message is written
behind its last computed size, which is only right when nothing changed since.

A cleared message field keeps its object, so that the pointer says nothing about whether
the field is set.

Everything here is read off the generated code, function by function, with its tests of
several bits at once and the order in which it writes the fields.  A function that hands out
a pointer to a part of the message (`mutable_packet`, `mutable_payload`) takes what is then
done to that part.  What the generated code calls in the linked library is the parameter
`library` (`CodedStream.lean`); the unknown fields of a message are left out, because no
setter makes one.
-/

namespace HktBase.Grpc.Generated

/-! ## The bits of the set fields -/

/-- `_has_bits_[0]`. -/
abbrev HasBits := BitVec 32

/-- `(bits & mask) != 0`. -/
def HasBits.any (bits mask : HasBits) : Bool := bits &&& mask != 0

/-- `bits & ~mask`. -/
def HasBits.without (bits mask : HasBits) : HasBits := bits &&& ~~~mask

/-! ## Fields -/

/-- A field of type `int64` in `_InternalSerialize`. -/
def serializeInt64 (isSet : Bool) (fieldNumber : UInt32) (value : Int64) : List UInt8 :=
  if isSet then
    if value ≠ 0 then writeInt64ToArray fieldNumber value else []
  else []

/-- A field of type `int32` in `_InternalSerialize`. -/
def serializeInt32 (isSet : Bool) (fieldNumber : UInt32) (value : Int32) : List UInt8 :=
  if isSet then
    if value ≠ 0 then writeInt32ToArray fieldNumber value else []
  else []

/-- A field of type `bytes` in `_InternalSerialize`. -/
def serializeBytes (library : Libprotobuf) (isSet : Bool) (fieldNumber : UInt32)
    (value : List UInt8) : List UInt8 :=
  if isSet then
    if !value.isEmpty then writeBytesMaybeAliased library fieldNumber value else []
  else []

section

variable (preferBsr : Bool)

/-- A field of type `int64` in `ByteSizeLong`. -/
def sizeOfInt64 (isSet : Bool) (value : Int64) : ℕ :=
  if isSet then
    if value ≠ 0 then int64SizePlusOne preferBsr value else 0
  else 0

/-- A field of type `int32` in `ByteSizeLong`. -/
def sizeOfInt32 (isSet : Bool) (value : Int32) : ℕ :=
  if isSet then
    if value ≠ 0 then int32SizePlusOne preferBsr value else 0
  else 0

/-- A field of type `bytes` in `ByteSizeLong`. -/
def sizeOfBytes (isSet : Bool) (value : List UInt8) : ℕ :=
  if isSet then
    if !value.isEmpty then 1 + lengthDelimitedSize preferBsr value.length else 0
  else 0

end

/-- A scalar field in `MergeImpl`. -/
def mergeScalar {α : Type} [DecidableEq α] [Zero α] (isSet : Bool) (source target : α) : α :=
  if isSet then
    if source ≠ 0 then source else target
  else target

/-- What every message can do: `MessageLite`. -/
class MessageLite (M : Type) where
  /-- Computes the size and keeps it. -/
  byteSizeLong : Bool → M → ℕ × M
  internalSerialize : Libprotobuf → M → List UInt8

/-! ## `SyncRequest` -/

structure SyncRequest where
  hasBits : HasBits := 0
  cachedSize : Int32 := 0
  playerId : Int64 := 0
  groupId : Int32 := 0
  deriving DecidableEq

namespace SyncRequest

def setPlayerId (value : Int64) (request : SyncRequest) : SyncRequest :=
  { request with playerId := value, hasBits := request.hasBits ||| 0x1 }

def clearPlayerId (request : SyncRequest) : SyncRequest :=
  { request with playerId := 0, hasBits := request.hasBits.without 0x1 }

def setGroupId (value : Int32) (request : SyncRequest) : SyncRequest :=
  { request with groupId := value, hasBits := request.hasBits ||| 0x2 }

def clearGroupId (request : SyncRequest) : SyncRequest :=
  { request with groupId := 0, hasBits := request.hasBits.without 0x2 }

/-- `Clear`. -/
def clear (request : SyncRequest) : SyncRequest :=
  let request :=
    if request.hasBits.any 0x3 then { request with playerId := 0, groupId := 0 } else request
  { request with hasBits := 0 }

/-- `MergeImpl`. -/
def mergeFrom (request source : SyncRequest) : SyncRequest :=
  let cachedHasBits := source.hasBits
  let request :=
    if cachedHasBits.any 0x3 then
      { request with
        playerId := mergeScalar (cachedHasBits.any 0x1) source.playerId request.playerId
        groupId := mergeScalar (cachedHasBits.any 0x2) source.groupId request.groupId }
    else request
  { request with hasBits := request.hasBits ||| cachedHasBits }

/-- `CopyFrom`, from another message. -/
def copyFrom (request source : SyncRequest) : SyncRequest := request.clear.mergeFrom source

/-- `_InternalSerialize`. -/
def internalSerialize (request : SyncRequest) : List UInt8 :=
  serializeInt64 (request.hasBits.any 0x1) 1 request.playerId ++
    serializeInt32 (request.hasBits.any 0x2) 2 request.groupId

/-- `ByteSizeLong`. -/
def byteSizeLong (preferBsr : Bool) (request : SyncRequest) : ℕ × SyncRequest :=
  let cachedHasBits := request.hasBits
  let totalSize :=
    if cachedHasBits.any 0x3 then
      sizeOfInt64 preferBsr (cachedHasBits.any 0x1) request.playerId +
        sizeOfInt32 preferBsr (cachedHasBits.any 0x2) request.groupId
    else 0
  (totalSize, { request with cachedSize := Int32.ofNat totalSize })

instance : MessageLite SyncRequest where
  byteSizeLong := byteSizeLong
  internalSerialize _ := internalSerialize

end SyncRequest

/-! ## `BehaviorPacket` -/

structure BehaviorPacket where
  hasBits : HasBits := 0
  cachedSize : Int32 := 0
  payload : List UInt8 := []
  behaviorId : Int64 := 0
  ownerPlayerId : Int64 := 0
  behaviorTypeId : Int32 := 0
  deriving DecidableEq

namespace BehaviorPacket

def setBehaviorId (value : Int64) (packet : BehaviorPacket) : BehaviorPacket :=
  { packet with behaviorId := value, hasBits := packet.hasBits ||| 0x2 }

def clearBehaviorId (packet : BehaviorPacket) : BehaviorPacket :=
  { packet with behaviorId := 0, hasBits := packet.hasBits.without 0x2 }

def setOwnerPlayerId (value : Int64) (packet : BehaviorPacket) : BehaviorPacket :=
  { packet with ownerPlayerId := value, hasBits := packet.hasBits ||| 0x4 }

def clearOwnerPlayerId (packet : BehaviorPacket) : BehaviorPacket :=
  { packet with ownerPlayerId := 0, hasBits := packet.hasBits.without 0x4 }

def setBehaviorTypeId (value : Int32) (packet : BehaviorPacket) : BehaviorPacket :=
  { packet with behaviorTypeId := value, hasBits := packet.hasBits ||| 0x8 }

def clearBehaviorTypeId (packet : BehaviorPacket) : BehaviorPacket :=
  { packet with behaviorTypeId := 0, hasBits := packet.hasBits.without 0x8 }

def setPayload (value : List UInt8) (packet : BehaviorPacket) : BehaviorPacket :=
  { packet with payload := value, hasBits := packet.hasBits ||| 0x1 }

def clearPayload (packet : BehaviorPacket) : BehaviorPacket :=
  { packet with payload := [], hasBits := packet.hasBits.without 0x1 }

/-- `mutable_payload`, and what is then done to the string. -/
def mutablePayload (update : List UInt8 → List UInt8) (packet : BehaviorPacket) :
    BehaviorPacket :=
  { packet with payload := update packet.payload, hasBits := packet.hasBits ||| 0x1 }

/-- `release_payload`, with the string that is given away. -/
def releasePayload (packet : BehaviorPacket) : Option (List UInt8) × BehaviorPacket :=
  if packet.hasBits.any 0x1 then
    (some packet.payload,
      { packet with payload := [], hasBits := packet.hasBits.without 0x1 })
  else (none, packet)

/-- `set_allocated_payload`. -/
def setAllocatedPayload (value : Option (List UInt8)) (packet : BehaviorPacket) :
    BehaviorPacket :=
  { packet with
    payload := value.getD []
    hasBits :=
      if value.isSome then packet.hasBits ||| 0x1 else packet.hasBits.without 0x1 }

/-- `Clear`. -/
def clear (packet : BehaviorPacket) : BehaviorPacket :=
  let cachedHasBits := packet.hasBits
  let packet := if cachedHasBits.any 0x1 then { packet with payload := [] } else packet
  let packet :=
    if cachedHasBits.any 0xe then
      { packet with behaviorId := 0, ownerPlayerId := 0, behaviorTypeId := 0 }
    else packet
  { packet with hasBits := 0 }

/-- `MergeImpl`. -/
def mergeFrom (packet source : BehaviorPacket) : BehaviorPacket :=
  let cachedHasBits := source.hasBits
  let packet :=
    if cachedHasBits.any 0xf then
      let packet :=
        if cachedHasBits.any 0x1 then
          -- an empty payload only replaces one that was never set
          if !source.payload.isEmpty then packet.setPayload source.payload
          else if packet.payload.isEmpty then packet.setPayload [] else packet
        else packet
      { packet with
        behaviorId := mergeScalar (cachedHasBits.any 0x2) source.behaviorId packet.behaviorId
        ownerPlayerId :=
          mergeScalar (cachedHasBits.any 0x4) source.ownerPlayerId packet.ownerPlayerId
        behaviorTypeId :=
          mergeScalar (cachedHasBits.any 0x8) source.behaviorTypeId packet.behaviorTypeId }
    else packet
  { packet with hasBits := packet.hasBits ||| cachedHasBits }

/-- `CopyFrom`, from another message. -/
def copyFrom (packet source : BehaviorPacket) : BehaviorPacket := packet.clear.mergeFrom source

/-- `Message::CopyConstruct`. -/
def copyConstruct (source : BehaviorPacket) : BehaviorPacket := { source with cachedSize := 0 }

/-- `_InternalSerialize`. -/
def internalSerialize (library : Libprotobuf) (packet : BehaviorPacket) : List UInt8 :=
  serializeInt64 (packet.hasBits.any 0x2) 1 packet.behaviorId ++
    serializeInt64 (packet.hasBits.any 0x4) 2 packet.ownerPlayerId ++
    serializeInt32 (packet.hasBits.any 0x8) 3 packet.behaviorTypeId ++
    serializeBytes library (packet.hasBits.any 0x1) 4 packet.payload

/-- `ByteSizeLong`. -/
def byteSizeLong (preferBsr : Bool) (packet : BehaviorPacket) : ℕ × BehaviorPacket :=
  let cachedHasBits := packet.hasBits
  let totalSize :=
    if cachedHasBits.any 0xf then
      sizeOfBytes preferBsr (cachedHasBits.any 0x1) packet.payload +
        sizeOfInt64 preferBsr (cachedHasBits.any 0x2) packet.behaviorId +
        sizeOfInt64 preferBsr (cachedHasBits.any 0x4) packet.ownerPlayerId +
        sizeOfInt32 preferBsr (cachedHasBits.any 0x8) packet.behaviorTypeId
    else 0
  (totalSize, { packet with cachedSize := Int32.ofNat totalSize })

instance : MessageLite BehaviorPacket where
  byteSizeLong := byteSizeLong
  internalSerialize := internalSerialize

end BehaviorPacket

/-! ## A field of type `BehaviorPacket` -/

/-- What `BehaviorRequest` and `SyncResponse` share: bits, of which the first is that of
the field `packet`, and the pointer to the packet. -/
structure PacketField where
  hasBits : HasBits := 0
  packet : Option BehaviorPacket := none
  deriving DecidableEq

namespace PacketField

/-- `has_packet`. -/
def hasPacket (field : PacketField) : Bool := field.hasBits.any 0x1

/-- `mutable_packet`, and what is then done to the packet behind the pointer. -/
def mutablePacket (update : BehaviorPacket → BehaviorPacket) (field : PacketField) :
    PacketField :=
  { hasBits := field.hasBits ||| 0x1
    packet := some (update (field.packet.getD {})) }

/-- `clear_packet`. -/
def clearPacket (field : PacketField) : PacketField :=
  { hasBits := field.hasBits.without 0x1
    packet := field.packet.map BehaviorPacket.clear }

/-- `set_allocated_packet`. -/
def setAllocatedPacket (value : Option BehaviorPacket) (field : PacketField) : PacketField :=
  { hasBits := if value.isSome then field.hasBits ||| 0x1 else field.hasBits.without 0x1
    packet := value }

/-- `release_packet`, with the packet that is given away. -/
def releasePacket (field : PacketField) : Option BehaviorPacket × PacketField :=
  (field.packet, { hasBits := field.hasBits.without 0x1, packet := none })

/-- The field in `Clear`. -/
def clear (field : PacketField) : PacketField :=
  { hasBits := 0
    packet :=
      if field.hasBits.any 0x1 then field.packet.map BehaviorPacket.clear else field.packet }

/-- The field in `MergeImpl`. -/
def mergeFrom (field source : PacketField) : PacketField :=
  { hasBits := field.hasBits ||| source.hasBits
    packet :=
      if source.hasBits.any 0x1 then
        match source.packet, field.packet with
        | none, packet => packet
        | some packet, none => some packet.copyConstruct
        | some source, some packet => some (packet.mergeFrom source)
      else field.packet }

/-- The field in `_InternalSerialize`. -/
def serializeMessage (library : Libprotobuf) (fieldNumber : UInt32) (field : PacketField) :
    List UInt8 :=
  if field.hasBits.any 0x1 then
    match field.packet with
    | none => []
    | some packet =>
        library.internalWriteMessage fieldNumber (packet.internalSerialize library)
          packet.cachedSize
  else []

/-- The field in `ByteSizeLong`. -/
def sizeOfMessage (preferBsr : Bool) (field : PacketField) : ℕ × PacketField :=
  if field.hasBits.any 0x1 then
    match field.packet with
    | none => (0, field)
    | some packet =>
        let (size, packet) := packet.byteSizeLong preferBsr
        (1 + lengthDelimitedSize preferBsr size, { field with packet := some packet })
  else (0, field)

end PacketField

/-! ## `BehaviorRequest` -/

structure BehaviorRequest extends PacketField where
  cachedSize : Int32 := 0
  groupId : Int32 := 0
  deriving DecidableEq

namespace BehaviorRequest

def setGroupId (value : Int32) (request : BehaviorRequest) : BehaviorRequest :=
  { request with groupId := value, hasBits := request.hasBits ||| 0x2 }

def clearGroupId (request : BehaviorRequest) : BehaviorRequest :=
  { request with groupId := 0, hasBits := request.hasBits.without 0x2 }

def mutablePacket (update : BehaviorPacket → BehaviorPacket) (request : BehaviorRequest) :
    BehaviorRequest :=
  { request with toPacketField := request.toPacketField.mutablePacket update }

def clearPacket (request : BehaviorRequest) : BehaviorRequest :=
  { request with toPacketField := request.toPacketField.clearPacket }

def setAllocatedPacket (value : Option BehaviorPacket) (request : BehaviorRequest) :
    BehaviorRequest :=
  { request with toPacketField := request.toPacketField.setAllocatedPacket value }

def releasePacket (request : BehaviorRequest) : Option BehaviorPacket × BehaviorRequest :=
  let (packet, field) := request.toPacketField.releasePacket
  (packet, { request with toPacketField := field })

/-- `Clear`. -/
def clear (request : BehaviorRequest) : BehaviorRequest :=
  { request with toPacketField := request.toPacketField.clear, groupId := 0 }

/-- `MergeImpl`. -/
def mergeFrom (request source : BehaviorRequest) : BehaviorRequest :=
  let cachedHasBits := source.hasBits
  if cachedHasBits.any 0x3 then
    { request with
      toPacketField := request.toPacketField.mergeFrom source.toPacketField
      groupId := mergeScalar (cachedHasBits.any 0x2) source.groupId request.groupId }
  else { request with hasBits := request.hasBits ||| cachedHasBits }

/-- `CopyFrom`, from another message. -/
def copyFrom (request source : BehaviorRequest) : BehaviorRequest :=
  request.clear.mergeFrom source

/-- `_InternalSerialize`. -/
def internalSerialize (library : Libprotobuf) (request : BehaviorRequest) : List UInt8 :=
  serializeInt32 (request.hasBits.any 0x2) 1 request.groupId ++
    request.toPacketField.serializeMessage library 2

/-- `ByteSizeLong`. -/
def byteSizeLong (preferBsr : Bool) (request : BehaviorRequest) : ℕ × BehaviorRequest :=
  let cachedHasBits := request.hasBits
  if cachedHasBits.any 0x3 then
    let (size, field) := request.toPacketField.sizeOfMessage preferBsr
    let totalSize := size + sizeOfInt32 preferBsr (cachedHasBits.any 0x2) request.groupId
    (totalSize,
      { request with toPacketField := field, cachedSize := Int32.ofNat totalSize })
  else (0, { request with cachedSize := 0 })

instance : MessageLite BehaviorRequest where
  byteSizeLong := byteSizeLong
  internalSerialize := internalSerialize

end BehaviorRequest

/-! ## `SyncResponse` -/

structure SyncResponse extends PacketField where
  cachedSize : Int32 := 0
  deriving DecidableEq

namespace SyncResponse

def mutablePacket (update : BehaviorPacket → BehaviorPacket) (response : SyncResponse) :
    SyncResponse :=
  { response with toPacketField := response.toPacketField.mutablePacket update }

def clearPacket (response : SyncResponse) : SyncResponse :=
  { response with toPacketField := response.toPacketField.clearPacket }

def setAllocatedPacket (value : Option BehaviorPacket) (response : SyncResponse) :
    SyncResponse :=
  { response with toPacketField := response.toPacketField.setAllocatedPacket value }

def releasePacket (response : SyncResponse) : Option BehaviorPacket × SyncResponse :=
  let (packet, field) := response.toPacketField.releasePacket
  (packet, { response with toPacketField := field })

/-- `Clear`. -/
def clear (response : SyncResponse) : SyncResponse :=
  { response with toPacketField := response.toPacketField.clear }

/-- `MergeImpl`. -/
def mergeFrom (response source : SyncResponse) : SyncResponse :=
  { response with toPacketField := response.toPacketField.mergeFrom source.toPacketField }

/-- `CopyFrom`, from another message. -/
def copyFrom (response source : SyncResponse) : SyncResponse := response.clear.mergeFrom source

/-- `_InternalSerialize`. -/
def internalSerialize (library : Libprotobuf) (response : SyncResponse) : List UInt8 :=
  response.toPacketField.serializeMessage library 1

/-- `ByteSizeLong`. -/
def byteSizeLong (preferBsr : Bool) (response : SyncResponse) : ℕ × SyncResponse :=
  let (totalSize, field) := response.toPacketField.sizeOfMessage preferBsr
  (totalSize, { toPacketField := field, cachedSize := Int32.ofNat totalSize })

instance : MessageLite SyncResponse where
  byteSizeLong := byteSizeLong
  internalSerialize := internalSerialize

end SyncResponse

/-! ## `GenericSerialize` -/

/-- The code, the message and the details of a `Status` that is not `OK`. -/
structure SerializeError where
  code : String
  message : String
  details : String
  deriving DecidableEq

/-- `GRPC_SLICE_INLINED_SIZE`, where a pointer has eight bytes. -/
def sliceInlinedSize : ℕ := 8 + 8 - 1 + 8

/-- `GenericSerialize`, with the message as its size computation leaves it; `none` where a
check aborts the program.  A short message must fill the slice that was allocated for it, a
long one is given no more memory than its size. -/
def genericSerialize {M : Type} [MessageLite M] (library : Libprotobuf) (preferBsr : Bool)
    (msg : M) : Option (Except SerializeError (List UInt8)) × M :=
  let (byteSize, msg) := MessageLite.byteSizeLong preferBsr msg
  let bytes := MessageLite.internalSerialize library msg
  if byteSize > intMax then
    (some (.error
      { code := "INTERNAL"
        message := "Protobuf is too large to be serialized"
        details := toString byteSize ++ " bytes is beyond the limit 2^31-1" }), msg)
  else if byteSize ≤ sliceInlinedSize then
    let bytes := library.serializeWithCachedSizesToArray bytes
    (if bytes.length = byteSize then some (.ok bytes) else none, msg)
  else (if bytes.length ≤ byteSize then some (.ok bytes) else none, msg)

end HktBase.Grpc.Generated
