import Mathlib.Data.Rat.Defs
import HktBase.Library.LittleEndian
import HktBase.Library.SparseMap

/-!
# Packets of the reliable UDP layer

`HktReliableUdpHeader.h`: the packet types, the packed 13-byte header that starts
every datagram, and the payload of the group requests.  The type prefixes of the
engine (`F`, `E`, `T`) are dropped and names start in lower case where they name
a value; otherwise the words are those of the source.

`TMap` and `TSet` are sparse arrays with a free list, the layout of the engine's
own containers.  Clock readings are exact rational numbers.
-/

namespace HktBase.CustomNet

abbrev Bytes := List UInt8

/-- A reading of `FPlatformTime::Seconds()`. -/
abbrev Time := ℚ

abbrev TMap (K V : Type) := SparseMap K V

abbrev TSet (K : Type) := SparseMap K Unit

/-- What the code takes from the engine and the machine: addresses with their
printed form and their comparison, and the value of an undefined shift. -/
class Platform (Addr : Type) where
  /-- `FInternetAddr::ToString(true)`. -/
  toString : Addr → String
  /-- `FInternetAddr::CompareEndpoints`. -/
  compareEndpoints : Addr → Addr → Bool
  /-- What `1 << n` gives for an `n` of 32 or more, where C++ leaves it undefined. -/
  undefinedShift : UInt32 → UInt32

/-- Ports of the local host, the addresses of the repository's tests, on a machine
that takes shift amounts modulo 32. -/
structure LoopbackAddr where
  port : UInt16
  deriving DecidableEq

instance : Platform LoopbackAddr where
  toString address := "127.0.0.1:" ++ ToString.toString address.port
  compareEndpoints first second := first == second
  undefinedShift amount := 1 <<< amount

/-! ## Packet types -/

/-- `EPacketType`.  The enumeration has the underlying type `uint8`, and a header
is copied from the wire unchecked, so a byte without an enumerator is a value too. -/
inductive PacketType
  | data
  | ack
  | connect
  | disconnect
  | ping
  | pong
  | joinGroup
  | leaveGroup
  | unnamed (value : {byte : UInt8 // 8 ≤ byte})
  deriving DecidableEq

namespace PacketType

def toByte : PacketType → UInt8
  | data => 0
  | ack => 1
  | connect => 2
  | disconnect => 3
  | ping => 4
  | pong => 5
  | joinGroup => 6
  | leaveGroup => 7
  | unnamed value => value

def ofByte (byte : UInt8) : PacketType :=
  if h : 8 ≤ byte then unnamed ⟨byte, h⟩
  else
    match byte.toNat with
    | 0 => data
    | 1 => ack
    | 2 => connect
    | 3 => disconnect
    | 4 => ping
    | 5 => pong
    | 6 => joinGroup
    | _ => leaveGroup

@[simp] theorem ofByte_toByte (type : PacketType) : ofByte type.toByte = type := by
  cases type with
  | unnamed value => simp [toByte, ofByte, value.property]
  | _ => rfl

end PacketType

/-! ## Headers -/

/-- `FPacketHeader` with the values its constructor sets. -/
structure PacketHeader where
  type : PacketType := .data
  sequence : UInt32 := 0
  lastAckedSequence : UInt32 := 0
  ackBitfield : UInt32 := 0
  deriving DecidableEq

/-- `sizeof(FPacketHeader)` under `#pragma pack(push, 1)`. -/
def sizeofPacketHeader : ℕ := 13

namespace PacketHeader

/-- The memory image of a header. -/
def toBytes (header : PacketHeader) : Bytes :=
  header.type.toByte :: (writeUInt32 header.sequence ++
    (writeUInt32 header.lastAckedSequence ++ writeUInt32 header.ackBitfield))

/-- `FMemory::Memcpy(&Header, Data, sizeof(FPacketHeader))`. -/
def ofBytes (data : Bytes) : PacketHeader where
  type := PacketType.ofByte (data.getD 0 0)
  sequence := readUInt32 data 1
  lastAckedSequence := readUInt32 data 5
  ackBitfield := readUInt32 data 9

@[simp] theorem length_toBytes (header : PacketHeader) :
    header.toBytes.length = sizeofPacketHeader := rfl

/-- A header followed by any payload reads back. -/
@[simp] theorem ofBytes_toBytes_append (header : PacketHeader) (payload : Bytes) :
    ofBytes (header.toBytes ++ payload) = header := by
  obtain ⟨type, sequence, lastAckedSequence, ackBitfield⟩ := header
  -- each field starts where the fields before it end: at 1, 5 and 9
  have hsequence : readUInt32 (toBytes ⟨type, sequence, lastAckedSequence, ackBitfield⟩ ++ payload)
      1 = sequence := by
    simpa [toBytes] using readUInt32_write [type.toByte]
      (writeUInt32 lastAckedSequence ++ writeUInt32 ackBitfield ++ payload) sequence rfl
  have hacked : readUInt32 (toBytes ⟨type, sequence, lastAckedSequence, ackBitfield⟩ ++ payload)
      5 = lastAckedSequence := by
    simpa [toBytes] using readUInt32_write (type.toByte :: writeUInt32 sequence)
      (writeUInt32 ackBitfield ++ payload) lastAckedSequence rfl
  have hbitfield : readUInt32 (toBytes ⟨type, sequence, lastAckedSequence, ackBitfield⟩ ++ payload)
      9 = ackBitfield := by
    simpa [toBytes] using readUInt32_write
      (type.toByte :: (writeUInt32 sequence ++ writeUInt32 lastAckedSequence)) payload
      ackBitfield rfl
  rw [ofBytes, hsequence, hacked, hbitfield]
  simp [toBytes]

@[simp] theorem ofBytes_toBytes (header : PacketHeader) : ofBytes header.toBytes = header := by
  simpa using ofBytes_toBytes_append header []

end PacketHeader

/-- What follows the header in a datagram. -/
def payloadOf (data : Bytes) : Bytes :=
  data.drop sizeofPacketHeader

@[simp] theorem payloadOf_toBytes_append (header : PacketHeader) (payload : Bytes) :
    payloadOf (header.toBytes ++ payload) = payload := by
  rw [payloadOf, ← header.length_toBytes, List.drop_left]

/-- A datagram that carries a Data packet with this sequence number. -/
def IsDataPacket (sequence : UInt32) (packetData : Bytes) : Prop :=
  sizeofPacketHeader ≤ packetData.length ∧ (PacketHeader.ofBytes packetData).type = .data ∧
    (PacketHeader.ofBytes packetData).sequence = sequence

instance (sequence : UInt32) (packetData : Bytes) : Decidable (IsDataPacket sequence packetData) :=
  inferInstanceAs (Decidable (_ ∧ _ ∧ _))

theorem isDataPacket_toBytes_append {header : PacketHeader} (htype : header.type = .data)
    (data : Bytes) : IsDataPacket header.sequence (header.toBytes ++ data) := by
  refine ⟨?_, ?_, ?_⟩
  · rw [List.length_append, PacketHeader.length_toBytes]
    exact Nat.le_add_right _ _
  · rw [PacketHeader.ofBytes_toBytes_append, htype]
  · rw [PacketHeader.ofBytes_toBytes_append]

/-- The payload of a datagram that carries a Data packet. -/
def dataPayload (packetData : Bytes) : Option Bytes :=
  if IsDataPacket (PacketHeader.ofBytes packetData).sequence packetData then
    some (payloadOf packetData)
  else none

theorem dataPayload_of_isDataPacket {sequence : UInt32} {packetData : Bytes}
    (h : IsDataPacket sequence packetData) : dataPayload packetData = some (payloadOf packetData) :=
  if_pos ⟨h.1, h.2.1, rfl⟩

theorem dataPayload_eq_none {packetData : Bytes}
    (h : ∀ sequence, ¬ IsDataPacket sequence packetData) : dataPayload packetData = none :=
  if_neg (h _)

/-- A datagram that an unconnected client takes as the end of its handshake: an Ack
with `LastAckedSequence` 0. -/
def CompletesHandshake (packetData : Bytes) : Prop :=
  sizeofPacketHeader ≤ packetData.length ∧ (PacketHeader.ofBytes packetData).type = .ack ∧
    (PacketHeader.ofBytes packetData).lastAckedSequence = 0

instance (packetData : Bytes) : Decidable (CompletesHandshake packetData) :=
  inferInstanceAs (Decidable (_ ∧ _ ∧ _))

/-! ## Group ids -/

/-- `sizeof(int32)`. -/
def sizeofInt32 : ℕ := 4

/-- `FMemory::Memcpy(Payload.GetData(), &GroupId, sizeof(int32))`. -/
def writeInt32 (groupId : Int32) : Bytes :=
  writeUInt32 groupId.toUInt32

/-- `FMemory::Memcpy(&GroupId, Data + sizeof(FPacketHeader), sizeof(int32))`. -/
def readInt32 (data : Bytes) (offset : ℕ) : Int32 :=
  (readUInt32 data offset).toInt32

@[simp] theorem length_writeInt32 (groupId : Int32) : (writeInt32 groupId).length = sizeofInt32 :=
  rfl

@[simp] theorem readInt32_write (header : PacketHeader) (groupId : Int32) :
    readInt32 (header.toBytes ++ writeInt32 groupId) sizeofPacketHeader = groupId := by
  have hread := readUInt32_write header.toBytes [] groupId.toUInt32 header.length_toBytes
  rw [List.append_nil] at hread
  rw [readInt32, writeInt32, hread]
  simp

end HktBase.CustomNet
