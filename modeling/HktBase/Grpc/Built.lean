import HktBase.Grpc.Generated
import HktBase.Grpc.WireMessages

/-!
# Messages that can be built

A message that was built through the generated functions never has a value in a field
whose bit is not set, so that the bits lose nothing: `view` is what the getters see.  A
packet that is kept behind a pointer though its bit is not set has been cleared, and
merging into it is the same as merging into a new one.

## Strategy

* **Bits.**  Setting and clearing bits is followed by testing one: `or_any`, `any_without` and
  `any_without_self` say what the test then finds, for any masks.
* **Tests of several bits.**  Those in `Clear`, `MergeImpl` and `ByteSizeLong` only save time:
  each of these functions is shown equal to what it would be without them (`mergeFrom_eq`,
  `clear_eq`, `byteSizeLong_eq`), and nothing later unfolds the function itself.
* **What can be built.**  `Built` is an inductive predicate with one constructor for each
  function that changes a message, so that a property of all messages is an induction with
  one case for each function.  The invariant of that induction is `WellFormed`: a field whose
  bit is not set has its default value, and the packet of a message is behind its pointer
  where its bit is set.
* **Merging.**  `mergeFrom_view`: on what the getters see, `MergeFrom` is the merge of the
  wire format, in which a default value does not replace another.
-/

namespace HktBase.Grpc.Generated

/-! ## The bits of the set fields -/

namespace HasBits

theorem any_or (bits mask other : HasBits) :
    bits.any (mask ||| other) = (bits.any mask || bits.any other) := by
  rw [any, any, any, BitVec.and_or_distrib_left, Bool.eq_iff_iff]
  simp only [bne_iff_ne, ne_eq, Bool.or_eq_true, ← not_and_or, BitVec.ofNat_eq_ofNat,
    BitVec.or_eq_zero_iff]

@[simp] theorem or_any (bits other mask : HasBits) :
    any (bits ||| other) mask = (bits.any mask || other.any mask) := by
  rw [any, BitVec.and_comm]
  refine (any_or mask bits other).trans ?_
  rw [any, any, any, any, BitVec.and_comm bits, BitVec.and_comm other]

@[simp] theorem any_ofNat (bits mask : ℕ) :
    any (BitVec.ofNat 32 bits) (BitVec.ofNat 32 mask) =
      (BitVec.ofNat 32 bits &&& BitVec.ofNat 32 mask != 0#32) :=
  rfl

@[simp] theorem any_without_self (bits mask : HasBits) :
    (bits.without mask).any mask = false := by
  rw [any, without, BitVec.and_assoc, BitVec.and_comm (~~~mask), BitVec.and_not_self]
  simp

@[simp] theorem any_without {mask cleared : HasBits} (h : mask &&& cleared = 0#32)
    (bits : HasBits) : (bits.without cleared).any mask = bits.any mask := by
  have hmask : ~~~cleared &&& mask = mask := by
    apply BitVec.eq_of_getLsbD_eq
    intro i hi
    have hbit : (mask &&& cleared).getLsbD i = false := by
      rw [h, BitVec.getLsbD_zero]
    rw [BitVec.getLsbD_and] at hbit
    rw [BitVec.getLsbD_and, BitVec.getLsbD_not]
    cases hmask : mask.getLsbD i with
    | true =>
        rw [hmask, Bool.true_and] at hbit
        rw [decide_eq_true hi, hbit]
        rfl
    | false => rw [Bool.and_false]
  rw [any, without, BitVec.and_assoc, hmask, any]

@[simp] theorem any_three (bits : HasBits) : bits.any 3#32 = (bits.any 1#32 || bits.any 2#32) :=
  any_or bits 1#32 2#32

@[simp] theorem any_fourteen (bits : HasBits) :
    bits.any 14#32 = (bits.any 2#32 || bits.any 4#32 || bits.any 8#32) := by
  rw [← any_or, ← any_or]
  rfl

@[simp] theorem any_fifteen (bits : HasBits) :
    bits.any 15#32 = (bits.any 1#32 || bits.any 14#32) :=
  any_or bits 1#32 14#32

/-- A bit that is set already is not changed by setting it. -/
theorem or_one_or {source : HasBits} (h : source.any 0x1 = true) (bits : HasBits) :
    bits ||| 0x1 ||| source = bits ||| source := by
  have hsource : 0x1 ||| source = source := by
    ext i hi
    by_cases hzero : i = 0
    · subst hzero
      cases hbit : source.getLsbD 0 with
      | true => simpa using hbit
      | false =>
          rw [any, show (0x1 : HasBits) = BitVec.twoPow 32 0 from rfl, BitVec.and_twoPow, hbit]
            at h
          cases h
    · simp [hzero]
  rw [BitVec.or_assoc, hsource]

end HasBits

/-! ## Fields -/

theorem isSet_of_ne {α : Type} {isSet : Bool} {value default : α}
    (hvalue : isSet = false → value = default)
    (h : value ≠ default) : isSet = true := by
  cases isSet with
  | true => rfl
  | false => exact absurd (hvalue rfl) h

theorem mergeScalar_eq {α : Type} [DecidableEq α] [Zero α] {isSet : Bool} {source : α}
    (hsource : isSet = false → source = 0) (target : α) :
    mergeScalar isSet source target = mergeField (source == 0) target source := by
  by_cases hzero : source = 0
  · cases isSet <;> simp [mergeScalar, mergeField, hzero]
  · simp [mergeScalar, mergeField, hzero, isSet_of_ne hsource hzero]

/-! ## Messages that can be built -/

/-- A scalar whose bit is not set has its default value. -/
structure SyncRequest.WellFormed (request : SyncRequest) : Prop where
  playerId : request.hasBits.any 0x1 = false → request.playerId = 0
  groupId : request.hasBits.any 0x2 = false → request.groupId = 0

/-- A field whose bit is not set has its default value. -/
structure BehaviorPacket.WellFormed (packet : BehaviorPacket) : Prop where
  payload : packet.hasBits.any 0x1 = false → packet.payload = []
  behaviorId : packet.hasBits.any 0x2 = false → packet.behaviorId = 0
  ownerPlayerId : packet.hasBits.any 0x4 = false → packet.ownerPlayerId = 0
  behaviorTypeId : packet.hasBits.any 0x8 = false → packet.behaviorTypeId = 0

/-- The requests to synchronize that the generated functions build. -/
inductive SyncRequest.Built : SyncRequest → Prop
  | new : Built {}
  | setPlayerId {request} (value : Int64) : Built request → Built (request.setPlayerId value)
  | clearPlayerId {request} : Built request → Built request.clearPlayerId
  | setGroupId {request} (value : Int32) : Built request → Built (request.setGroupId value)
  | clearGroupId {request} : Built request → Built request.clearGroupId
  | clear {request} : Built request → Built request.clear
  | mergeFrom {source request} : Built source → Built request → Built (request.mergeFrom source)
  | byteSizeLong {request} (preferBsr : Bool) :
      Built request → Built (request.byteSizeLong preferBsr).2

/-- The packets that the generated functions build. -/
inductive BehaviorPacket.Built : BehaviorPacket → Prop
  | new : Built {}
  | setBehaviorId {packet} (value : Int64) : Built packet → Built (packet.setBehaviorId value)
  | clearBehaviorId {packet} : Built packet → Built packet.clearBehaviorId
  | setOwnerPlayerId {packet} (value : Int64) :
      Built packet → Built (packet.setOwnerPlayerId value)
  | clearOwnerPlayerId {packet} : Built packet → Built packet.clearOwnerPlayerId
  | setBehaviorTypeId {packet} (value : Int32) :
      Built packet → Built (packet.setBehaviorTypeId value)
  | clearBehaviorTypeId {packet} : Built packet → Built packet.clearBehaviorTypeId
  | setPayload {packet} (value : List UInt8) : Built packet → Built (packet.setPayload value)
  | clearPayload {packet} : Built packet → Built packet.clearPayload
  | mutablePayload {packet} (update : List UInt8 → List UInt8) :
      Built packet → Built (packet.mutablePayload update)
  | releasePayload {packet} : Built packet → Built packet.releasePayload.2
  | setAllocatedPayload {packet} (value : Option (List UInt8)) :
      Built packet → Built (packet.setAllocatedPayload value)
  | clear {packet} : Built packet → Built packet.clear
  | mergeFrom {source packet} : Built source → Built packet → Built (packet.mergeFrom source)
  | copyConstruct {source} : Built source → Built source.copyConstruct
  | byteSizeLong {packet} (preferBsr : Bool) :
      Built packet → Built (packet.byteSizeLong preferBsr).2

/-! ## What the getters see -/

def SyncRequest.view (request : SyncRequest) : Grpc.SyncRequest where
  playerId := request.playerId
  groupId := request.groupId

def BehaviorPacket.view (packet : BehaviorPacket) : Grpc.BehaviorPacket where
  behaviorId := packet.behaviorId
  ownerPlayerId := packet.ownerPlayerId
  behaviorTypeId := packet.behaviorTypeId
  payload := packet.payload

def PacketField.view (field : PacketField) : Option Grpc.BehaviorPacket :=
  if field.hasPacket then field.packet.map BehaviorPacket.view else none

def BehaviorRequest.view (request : BehaviorRequest) : Grpc.BehaviorRequest where
  groupId := request.groupId
  packetField := request.toPacketField.view

def SyncResponse.view (response : SyncResponse) : Grpc.SyncResponse where
  packetField := response.toPacketField.view

/-! ## `SyncRequest` -/

namespace SyncRequest

/-- The common test of both bits only saves time. -/
theorem mergeFrom_eq (request source : SyncRequest) :
    request.mergeFrom source =
      { request with
        hasBits := request.hasBits ||| source.hasBits
        playerId := mergeScalar (source.hasBits.any 0x1) source.playerId request.playerId
        groupId := mergeScalar (source.hasBits.any 0x2) source.groupId request.groupId } := by
  unfold mergeFrom
  by_cases h : source.hasBits.any 0x3 = true
  · simp only [h, if_true]
  · obtain ⟨hplayer, hgroup⟩ : source.hasBits.any 0x1 = false ∧ source.hasBits.any 0x2 = false := by
      simpa using h
    simp only [h, hplayer, hgroup, mergeScalar, if_false, Bool.false_eq_true]

theorem mergeFrom_view {source : SyncRequest} (hsource : source.WellFormed)
    (request : SyncRequest) :
    (request.mergeFrom source).view = request.view.merge source.view := by
  rw [mergeFrom_eq, mergeScalar_eq hsource.playerId, mergeScalar_eq hsource.groupId]
  rfl

theorem clear_eq {request : SyncRequest} (h : request.WellFormed) :
    request.clear = { cachedSize := request.cachedSize } := by
  unfold clear
  by_cases hany : request.hasBits.any 0x3 = true
  · simp only [hany, if_true]
  · obtain ⟨hplayer, hgroup⟩ :
        request.hasBits.any 0x1 = false ∧ request.hasBits.any 0x2 = false := by
      simpa using hany
    simp only [hany, if_false, Bool.false_eq_true, h.playerId hplayer, h.groupId hgroup]

theorem wellFormed_of_built {request : SyncRequest} (h : request.Built) : request.WellFormed := by
  induction h with
  | new => exact ⟨fun _ => rfl, fun _ => rfl⟩
  | setPlayerId value _ ih =>
      refine ⟨?_, ?_⟩
      · simp [setPlayerId]
      · simpa [setPlayerId] using ih.groupId
  | clearPlayerId _ ih =>
      refine ⟨fun _ => rfl, ?_⟩
      simpa [clearPlayerId] using ih.groupId
  | setGroupId value _ ih =>
      refine ⟨?_, ?_⟩
      · simpa [setGroupId] using ih.playerId
      · simp [setGroupId]
  | clearGroupId _ ih =>
      refine ⟨?_, fun _ => rfl⟩
      simpa [clearGroupId] using ih.playerId
  | clear _ ih =>
      rw [clear_eq ih]
      exact ⟨fun _ => rfl, fun _ => rfl⟩
  | mergeFrom _ _ ihsource ih =>
      rw [mergeFrom_eq]
      refine ⟨?_, ?_⟩
      · simp +contextual [mergeScalar, ih.playerId]
      · simp +contextual [mergeScalar, ih.groupId]
  | byteSizeLong preferBsr _ ih => exact ⟨ih.playerId, ih.groupId⟩

end SyncRequest

/-! ## `BehaviorPacket` -/

namespace BehaviorPacket

/-- Without the tests of several bits, which only save time. -/
theorem mergeFrom_eq (packet source : BehaviorPacket) :
    packet.mergeFrom source =
      { packet with
        hasBits := packet.hasBits ||| source.hasBits
        payload :=
          if source.hasBits.any 0x1 && !source.payload.isEmpty then source.payload
          else packet.payload
        behaviorId := mergeScalar (source.hasBits.any 0x2) source.behaviorId packet.behaviorId
        ownerPlayerId :=
          mergeScalar (source.hasBits.any 0x4) source.ownerPlayerId packet.ownerPlayerId
        behaviorTypeId :=
          mergeScalar (source.hasBits.any 0x8) source.behaviorTypeId packet.behaviorTypeId } := by
  unfold mergeFrom
  by_cases h : source.hasBits.any 0xf = true
  · by_cases hpayload : source.hasBits.any 0x1 = true
    · have hbits := HasBits.or_one_or hpayload packet.hasBits
      cases hempty : source.payload.isEmpty with
      | true =>
          cases hdefault : packet.payload.isEmpty with
          | true =>
              have hnil : packet.payload = [] := List.isEmpty_iff.mp hdefault
              simp only [h, hpayload, setPayload, hnil, hbits, if_true, Bool.not_true,
                Bool.and_false, Bool.false_eq_true, if_false]
          | false =>
              simp only [h, hpayload, if_true, Bool.not_true, Bool.and_false, Bool.false_eq_true,
                if_false]
      | false =>
          simp only [h, hpayload, setPayload, hbits, if_true, Bool.not_false, Bool.and_true]
    · simp only [h, hpayload, if_true, Bool.false_and, Bool.false_eq_true, if_false]
  -- nothing of the source is set, and every field is kept
  · obtain ⟨hpayload, ⟨hbehavior, howner⟩, htype⟩ :
        source.hasBits.any 0x1 = false ∧
          (source.hasBits.any 0x2 = false ∧ source.hasBits.any 0x4 = false) ∧
            source.hasBits.any 0x8 = false := by
      simpa using h
    simp only [h, hpayload, hbehavior, howner, htype, mergeScalar, if_false, Bool.false_eq_true,
      Bool.false_and]

theorem mergeFrom_view {source : BehaviorPacket} (hsource : source.WellFormed)
    (packet : BehaviorPacket) :
    (packet.mergeFrom source).view = packet.view.merge source.view := by
  have hpayload :
      (if source.hasBits.any 0x1 && !source.payload.isEmpty then source.payload
        else packet.payload) =
        mergeField (source.payload == []) packet.payload source.payload := by
    -- an empty payload counts as unset, whatever its bit
    by_cases hempty : source.payload = []
    · simp [hempty, mergeField]
    · have hset := isSet_of_ne hsource.payload hempty
      have hne : source.payload.isEmpty = false := by simpa using hempty
      simp only [hset, hne, mergeField, Bool.not_false, Bool.and_true, if_true]
      rw [if_neg (by simpa using hempty)]
  rw [mergeFrom_eq, mergeScalar_eq hsource.behaviorId, mergeScalar_eq hsource.ownerPlayerId,
    mergeScalar_eq hsource.behaviorTypeId, hpayload]
  rfl

theorem clear_eq {packet : BehaviorPacket} (h : packet.WellFormed) :
    packet.clear = { cachedSize := packet.cachedSize } := by
  have hpayload :
      (if packet.hasBits.any 0x1 then { packet with payload := [] } else packet) =
        { packet with payload := [] } := by
    by_cases hset : packet.hasBits.any 0x1 = true
    · rw [if_pos hset]
    · rw [if_neg hset, ← h.payload (by simpa using hset)]
  unfold clear
  dsimp only
  rw [hpayload]
  by_cases hany : packet.hasBits.any 0xe = true
  · simp only [hany, if_true]
  · obtain ⟨⟨hbehavior, howner⟩, htype⟩ :
        (packet.hasBits.any 0x2 = false ∧ packet.hasBits.any 0x4 = false) ∧
          packet.hasBits.any 0x8 = false := by
      simpa using hany
    simp only [hany, if_false, Bool.false_eq_true, h.behaviorId hbehavior,
      h.ownerPlayerId howner, h.behaviorTypeId htype]

theorem wellFormed_new (cachedSize : Int32) :
    WellFormed { cachedSize := cachedSize } :=
  ⟨fun _ => rfl, fun _ => rfl, fun _ => rfl, fun _ => rfl⟩

theorem wellFormed_of_built {packet : BehaviorPacket} (h : packet.Built) :
    packet.WellFormed := by
  -- a setter sets its bit and touches no other, and clearing empties the field with the bit
  induction h with
  | new => exact wellFormed_new 0
  | setBehaviorId value _ ih =>
      refine ⟨?_, ?_, ?_, ?_⟩
      · simpa [setBehaviorId] using ih.payload
      · simp [setBehaviorId]
      · simpa [setBehaviorId] using ih.ownerPlayerId
      · simpa [setBehaviorId] using ih.behaviorTypeId
  | clearBehaviorId _ ih =>
      refine ⟨?_, fun _ => rfl, ?_, ?_⟩
      · simpa [clearBehaviorId] using ih.payload
      · simpa [clearBehaviorId] using ih.ownerPlayerId
      · simpa [clearBehaviorId] using ih.behaviorTypeId
  | setOwnerPlayerId value _ ih =>
      refine ⟨?_, ?_, ?_, ?_⟩
      · simpa [setOwnerPlayerId] using ih.payload
      · simpa [setOwnerPlayerId] using ih.behaviorId
      · simp [setOwnerPlayerId]
      · simpa [setOwnerPlayerId] using ih.behaviorTypeId
  | clearOwnerPlayerId _ ih =>
      refine ⟨?_, ?_, fun _ => rfl, ?_⟩
      · simpa [clearOwnerPlayerId] using ih.payload
      · simpa [clearOwnerPlayerId] using ih.behaviorId
      · simpa [clearOwnerPlayerId] using ih.behaviorTypeId
  | setBehaviorTypeId value _ ih =>
      refine ⟨?_, ?_, ?_, ?_⟩
      · simpa [setBehaviorTypeId] using ih.payload
      · simpa [setBehaviorTypeId] using ih.behaviorId
      · simpa [setBehaviorTypeId] using ih.ownerPlayerId
      · simp [setBehaviorTypeId]
  | clearBehaviorTypeId _ ih =>
      refine ⟨?_, ?_, ?_, fun _ => rfl⟩
      · simpa [clearBehaviorTypeId] using ih.payload
      · simpa [clearBehaviorTypeId] using ih.behaviorId
      · simpa [clearBehaviorTypeId] using ih.ownerPlayerId
  | setPayload value _ ih =>
      refine ⟨?_, ?_, ?_, ?_⟩
      · simp [setPayload]
      · simpa [setPayload] using ih.behaviorId
      · simpa [setPayload] using ih.ownerPlayerId
      · simpa [setPayload] using ih.behaviorTypeId
  | clearPayload _ ih =>
      refine ⟨fun _ => rfl, ?_, ?_, ?_⟩
      · simpa [clearPayload] using ih.behaviorId
      · simpa [clearPayload] using ih.ownerPlayerId
      · simpa [clearPayload] using ih.behaviorTypeId
  | mutablePayload update _ ih =>
      refine ⟨?_, ?_, ?_, ?_⟩
      · simp [mutablePayload]
      · simpa [mutablePayload] using ih.behaviorId
      · simpa [mutablePayload] using ih.ownerPlayerId
      · simpa [mutablePayload] using ih.behaviorTypeId
  | releasePayload _ ih =>
      unfold releasePayload
      split
      · refine ⟨fun _ => rfl, ?_, ?_, ?_⟩
        · simpa using ih.behaviorId
        · simpa using ih.ownerPlayerId
        · simpa using ih.behaviorTypeId
      · exact ih
  | setAllocatedPayload value _ ih =>
      cases value with
      | none =>
          refine ⟨fun _ => rfl, ?_, ?_, ?_⟩
          · simpa [setAllocatedPayload] using ih.behaviorId
          · simpa [setAllocatedPayload] using ih.ownerPlayerId
          · simpa [setAllocatedPayload] using ih.behaviorTypeId
      | some value =>
          refine ⟨?_, ?_, ?_, ?_⟩
          · simp [setAllocatedPayload]
          · simpa [setAllocatedPayload] using ih.behaviorId
          · simpa [setAllocatedPayload] using ih.ownerPlayerId
          · simpa [setAllocatedPayload] using ih.behaviorTypeId
  | clear _ ih =>
      rw [clear_eq ih]
      exact wellFormed_new _
  | mergeFrom _ _ ihsource ih =>
      rw [mergeFrom_eq]
      refine ⟨?_, ?_, ?_, ?_⟩
      · simp +contextual [ih.payload]
      · simp +contextual [mergeScalar, ih.behaviorId]
      · simp +contextual [mergeScalar, ih.ownerPlayerId]
      · simp +contextual [mergeScalar, ih.behaviorTypeId]
  | copyConstruct _ ih => exact ⟨ih.payload, ih.behaviorId, ih.ownerPlayerId, ih.behaviorTypeId⟩
  | byteSizeLong preferBsr _ ih =>
      exact ⟨ih.payload, ih.behaviorId, ih.ownerPlayerId, ih.behaviorTypeId⟩

end BehaviorPacket

/-! ## A field of type `BehaviorPacket` -/

/-- The pointer to the packet is not null where the bit is set, and a packet that is kept
where it is not set has been cleared. -/
structure PacketField.WellFormed (field : PacketField) : Prop where
  built : ∀ packet ∈ field.packet, packet.Built
  isSome : field.hasPacket = true → field.packet.isSome
  cleared : field.hasPacket = false → ∀ packet ∈ field.packet, packet.view = {}

namespace PacketField

theorem WellFormed.of_hasPacket {field : PacketField} (h : field.WellFormed) {bits : HasBits}
    (hbits : bits.any 0x1 = field.hasPacket) : WellFormed { field with hasBits := bits } where
  built := h.built
  isSome hset := h.isSome (hbits.symm.trans hset)
  cleared hset := h.cleared (hbits.symm.trans hset)

theorem wellFormed_new : WellFormed {} where
  built packet hpacket := by cases hpacket
  isSome hset := absurd hset (by decide)
  cleared _ packet hpacket := by cases hpacket

theorem wellFormed_mutablePacket {field : PacketField} (h : field.WellFormed)
    {update : BehaviorPacket → BehaviorPacket}
    (hupdate : ∀ packet : BehaviorPacket, packet.Built → (update packet).Built) :
    (field.mutablePacket update).WellFormed where
  built packet hpacket := by
    obtain rfl := Option.some.inj hpacket
    apply hupdate
    cases hold : field.packet with
    | none => exact .new
    | some packet => exact h.built packet hold
  isSome _ := rfl
  cleared hset := by simp [hasPacket, mutablePacket] at hset

theorem view_clear {packet : BehaviorPacket} (h : packet.Built) : packet.clear.view = {} := by
  rw [BehaviorPacket.clear_eq (BehaviorPacket.wellFormed_of_built h)]
  rfl

theorem wellFormed_clearPacket {field : PacketField} (h : field.WellFormed) :
    field.clearPacket.WellFormed where
  built packet hpacket := by
    obtain ⟨old, hold, rfl⟩ := Option.map_eq_some_iff.mp hpacket
    exact .clear (h.built old hold)
  isSome hset := by simp [hasPacket, clearPacket] at hset
  cleared _ packet hpacket := by
    obtain ⟨old, hold, rfl⟩ := Option.map_eq_some_iff.mp hpacket
    exact view_clear (h.built old hold)

theorem wellFormed_setAllocatedPacket (field : PacketField) {value : Option BehaviorPacket}
    (hvalue : ∀ packet ∈ value, packet.Built) : (field.setAllocatedPacket value).WellFormed where
  built := hvalue
  isSome hset := by
    cases value with
    | none => simp [hasPacket, setAllocatedPacket] at hset
    | some packet => rfl
  cleared hset packet hpacket := by
    obtain rfl : value = some packet := hpacket
    simp [hasPacket, setAllocatedPacket] at hset

theorem wellFormed_releasePacket (field : PacketField) : field.releasePacket.2.WellFormed where
  built packet hpacket := by cases hpacket
  isSome hset := by simp [hasPacket, releasePacket] at hset
  cleared _ packet hpacket := by cases hpacket

theorem wellFormed_clear {field : PacketField} (h : field.WellFormed) :
    field.clear.WellFormed where
  built packet hpacket := by
    unfold clear at hpacket
    dsimp only at hpacket
    split at hpacket
    · obtain ⟨old, hold, rfl⟩ := Option.map_eq_some_iff.mp hpacket
      exact .clear (h.built old hold)
    · exact h.built packet hpacket
  isSome hset := absurd hset (by simp [hasPacket, clear])
  cleared _ packet hpacket := by
    unfold clear at hpacket
    dsimp only at hpacket
    split at hpacket
    · obtain ⟨old, hold, rfl⟩ := Option.map_eq_some_iff.mp hpacket
      exact view_clear (h.built old hold)
    · rename_i hset
      exact h.cleared (by simpa [hasPacket] using hset) packet hpacket

/-- The packet after a merge with a message that has one. -/
theorem mergeFrom_packet (field : PacketField) {source : PacketField} {packet : BehaviorPacket}
    (hset : source.hasPacket = true) (hpacket : source.packet = some packet) :
    (field.mergeFrom source).packet =
      some (match field.packet with
        | none => packet.copyConstruct
        | some old => old.mergeFrom packet) := by
  unfold mergeFrom
  rw [show source.hasBits.any 0x1 = true from hset, if_pos rfl, hpacket]
  cases field.packet with
  | none => rfl
  | some old => rfl

theorem mergeFrom_packet_of_not (field : PacketField) {source : PacketField}
    (hset : source.hasPacket = false) :
    (field.mergeFrom source).packet = field.packet := by
  unfold mergeFrom
  rw [show source.hasBits.any 0x1 = false from hset, if_neg Bool.false_ne_true]

theorem hasPacket_mergeFrom (field source : PacketField) :
    (field.mergeFrom source).hasPacket = (field.hasPacket || source.hasPacket) := by
  simp [hasPacket, mergeFrom]

theorem wellFormed_mergeFrom {field source : PacketField} (h : field.WellFormed)
    (hsource : source.WellFormed) : (field.mergeFrom source).WellFormed := by
  cases hset : source.hasPacket with
  | true =>
      obtain ⟨packet, hpacket⟩ := Option.isSome_iff_exists.mp (hsource.isSome hset)
      have hmerged := mergeFrom_packet field hset hpacket
      have hbuilt := hsource.built packet hpacket
      refine ⟨?_, fun _ => by rw [hmerged]; rfl, ?_⟩
      · intro result hresult
        rw [hmerged] at hresult
        obtain rfl := Option.some.inj hresult
        cases hold : field.packet with
        | none => exact .copyConstruct hbuilt
        | some old => exact .mergeFrom hbuilt (h.built old hold)
      · intro hnone
        rw [hasPacket_mergeFrom, hset, Bool.or_true] at hnone
        cases hnone
  | false =>
      have hmerged := mergeFrom_packet_of_not field hset
      have hfield : (field.mergeFrom source).hasPacket = field.hasPacket := by
        rw [hasPacket_mergeFrom, hset, Bool.or_false]
      refine ⟨?_, ?_, ?_⟩
      · rw [hmerged]
        exact h.built
      · rw [hmerged, hfield]
        exact h.isSome
      · rw [hmerged, hfield]
        exact h.cleared

theorem view_of_hasPacket_eq_true {field : PacketField} {packet : BehaviorPacket}
    (hset : field.hasPacket = true) (hpacket : field.packet = some packet) :
    field.view = some packet.view := by
  rw [view, if_pos hset, hpacket]
  rfl

theorem view_of_hasPacket_eq_false {field : PacketField} (hset : field.hasPacket = false) :
    field.view = none := by
  rw [view, if_neg (by simp [hset])]

/-- A packet that is kept though it is not set merges like a new one. -/
theorem getD_view {field : PacketField} (h : field.WellFormed) {packet : BehaviorPacket}
    (hpacket : field.packet = some packet) : field.view.getD {} = packet.view := by
  cases hset : field.hasPacket with
  | true => rw [view_of_hasPacket_eq_true hset hpacket, Option.getD_some]
  | false =>
      rw [view_of_hasPacket_eq_false hset, Option.getD_none, h.cleared hset packet hpacket]

theorem mergeFrom_view {field source : PacketField} (h : field.WellFormed)
    (hsource : source.WellFormed) :
    (field.mergeFrom source).view = mergePacket field.view source.view := by
  cases hset : source.hasPacket with
  | true =>
      obtain ⟨packet, hpacket⟩ := Option.isSome_iff_exists.mp (hsource.isSome hset)
      have hbuilt := BehaviorPacket.wellFormed_of_built (hsource.built packet hpacket)
      have hmerged : (field.mergeFrom source).hasPacket = true := by
        rw [hasPacket_mergeFrom, hset, Bool.or_true]
      rw [view_of_hasPacket_eq_true hmerged (mergeFrom_packet field hset hpacket),
        view_of_hasPacket_eq_true hset hpacket, mergePacket]
      cases hold : field.packet with
      | none =>
          have hnone : field.view = none := by
            rw [view, hold]
            simp
          rw [hnone, Option.getD_none, Grpc.BehaviorPacket.merge_default]
          rfl
      | some old => rw [getD_view h hold, ← BehaviorPacket.mergeFrom_view hbuilt]
  | false =>
      have hfield : (field.mergeFrom source).hasPacket = field.hasPacket := by
        rw [hasPacket_mergeFrom, hset, Bool.or_false]
      rw [view_of_hasPacket_eq_false hset, mergePacket, view, view, hfield,
        mergeFrom_packet_of_not field hset]

/-! ### Computing the size -/

section

variable (preferBsr : Bool) {field : PacketField}

theorem sizeOfMessage_of_hasPacket {packet : BehaviorPacket} (hset : field.hasPacket = true)
    (hpacket : field.packet = some packet) :
    field.sizeOfMessage preferBsr =
      (1 + lengthDelimitedSize preferBsr (packet.byteSizeLong preferBsr).1,
        { field with packet := some (packet.byteSizeLong preferBsr).2 }) := by
  rw [sizeOfMessage, show field.hasBits.any 0x1 = true from hset, if_pos rfl, hpacket]

theorem sizeOfMessage_of_not (hset : field.hasPacket = false) :
    field.sizeOfMessage preferBsr = (0, field) := by
  rw [sizeOfMessage, show field.hasBits.any 0x1 = false from hset, if_neg Bool.false_ne_true]

theorem hasBits_sizeOfMessage (field : PacketField) :
    (field.sizeOfMessage preferBsr).2.hasBits = field.hasBits := by
  unfold sizeOfMessage
  split
  · split <;> rfl
  · rfl

theorem wellFormed_sizeOfMessage (h : field.WellFormed) :
    (field.sizeOfMessage preferBsr).2.WellFormed := by
  cases hset : field.hasPacket with
  | true =>
      obtain ⟨packet, hpacket⟩ := Option.isSome_iff_exists.mp (h.isSome hset)
      rw [sizeOfMessage_of_hasPacket preferBsr hset hpacket]
      refine ⟨?_, fun _ => rfl, fun hunset => ?_⟩
      · intro result hresult
        obtain rfl := Option.some.inj hresult
        exact .byteSizeLong preferBsr (h.built packet hpacket)
      · exact absurd (hset.symm.trans hunset) Bool.noConfusion
  | false =>
      rw [sizeOfMessage_of_not preferBsr hset]
      exact h

end

end PacketField

/-! ## `BehaviorRequest` -/

/-- The requests that the generated functions build. -/
inductive BehaviorRequest.Built : BehaviorRequest → Prop
  | new : Built {}
  | setGroupId {request} (value : Int32) : Built request → Built (request.setGroupId value)
  | clearGroupId {request} : Built request → Built request.clearGroupId
  | mutablePacket {request} {update : BehaviorPacket → BehaviorPacket}
      (hupdate : ∀ packet : BehaviorPacket, packet.Built → (update packet).Built) :
      Built request → Built (request.mutablePacket update)
  | clearPacket {request} : Built request → Built request.clearPacket
  | setAllocatedPacket {request} {value : Option BehaviorPacket}
      (hvalue : ∀ packet ∈ value, packet.Built) :
      Built request → Built (request.setAllocatedPacket value)
  | releasePacket {request} : Built request → Built request.releasePacket.2
  | clear {request} : Built request → Built request.clear
  | mergeFrom {source request} : Built source → Built request → Built (request.mergeFrom source)
  | byteSizeLong {request} (preferBsr : Bool) :
      Built request → Built (request.byteSizeLong preferBsr).2

structure BehaviorRequest.WellFormed (request : BehaviorRequest) : Prop where
  packet : request.toPacketField.WellFormed
  groupId : request.hasBits.any 0x2 = false → request.groupId = 0

namespace BehaviorRequest

theorem mergeFrom_eq (request source : BehaviorRequest) :
    request.mergeFrom source =
      { request with
        toPacketField := request.toPacketField.mergeFrom source.toPacketField
        groupId := mergeScalar (source.hasBits.any 0x2) source.groupId request.groupId } := by
  unfold mergeFrom
  by_cases h : source.hasBits.any 0x3 = true
  · simp only [h, if_true]
  · obtain ⟨hpacket, hgroup⟩ : source.hasBits.any 0x1 = false ∧ source.hasBits.any 0x2 = false := by
      simpa using h
    simp only [h, hpacket, hgroup, mergeScalar, PacketField.mergeFrom, if_false,
      Bool.false_eq_true]

theorem mergeFrom_view {request source : BehaviorRequest} (h : request.WellFormed)
    (hsource : source.WellFormed) :
    (request.mergeFrom source).view = request.view.merge source.view := by
  rw [mergeFrom_eq, mergeScalar_eq hsource.groupId, view,
    PacketField.mergeFrom_view h.packet hsource.packet]
  rfl

theorem byteSizeLong_eq (preferBsr : Bool) (request : BehaviorRequest) :
    request.byteSizeLong preferBsr =
      ((request.sizeOfMessage preferBsr).1 +
          sizeOfInt32 preferBsr (request.hasBits.any 0x2) request.groupId,
        { request with
          toPacketField := (request.sizeOfMessage preferBsr).2
          cachedSize := Int32.ofNat ((request.sizeOfMessage preferBsr).1 +
            sizeOfInt32 preferBsr (request.hasBits.any 0x2) request.groupId) }) := by
  unfold byteSizeLong
  by_cases h : request.hasBits.any 0x3 = true
  · simp only [h, if_true]
  · obtain ⟨hpacket, hgroup⟩ :
        request.hasBits.any 0x1 = false ∧ request.hasBits.any 0x2 = false := by
      simpa using h
    simp only [h, hgroup, sizeOfInt32, if_false, Bool.false_eq_true,
      PacketField.sizeOfMessage_of_not preferBsr hpacket]
    rfl

theorem wellFormed_of_built {request : BehaviorRequest} (h : request.Built) :
    request.WellFormed := by
  induction h with
  | new => exact ⟨PacketField.wellFormed_new, fun _ => rfl⟩
  | setGroupId value _ ih =>
      refine ⟨ih.packet.of_hasPacket ?_, ?_⟩
      · simp [PacketField.hasPacket]
      · simp [setGroupId]
  | clearGroupId _ ih =>
      refine ⟨ih.packet.of_hasPacket ?_, fun _ => rfl⟩
      simp [PacketField.hasPacket]
  | mutablePacket hupdate _ ih =>
      refine ⟨PacketField.wellFormed_mutablePacket ih.packet hupdate, ?_⟩
      simpa [mutablePacket, PacketField.mutablePacket] using ih.groupId
  | clearPacket _ ih =>
      refine ⟨PacketField.wellFormed_clearPacket ih.packet, ?_⟩
      simpa [clearPacket, PacketField.clearPacket] using ih.groupId
  | setAllocatedPacket hvalue _ ih =>
      refine ⟨PacketField.wellFormed_setAllocatedPacket _ hvalue, ?_⟩
      intro hunset
      apply ih.groupId
      unfold setAllocatedPacket PacketField.setAllocatedPacket at hunset
      dsimp only at hunset
      -- the bit of the packet is the only one that changes, whether the packet is null or not
      split at hunset
      · simpa using hunset
      · simpa  using hunset
  | releasePacket _ ih =>
      refine ⟨PacketField.wellFormed_releasePacket _, ?_⟩
      simpa [releasePacket, PacketField.releasePacket] using ih.groupId
  | clear _ ih => exact ⟨PacketField.wellFormed_clear ih.packet, fun _ => rfl⟩
  | mergeFrom _ _ ihsource ih =>
      rw [mergeFrom_eq]
      refine ⟨PacketField.wellFormed_mergeFrom ih.packet ihsource.packet, ?_⟩
      simp +contextual [PacketField.mergeFrom, mergeScalar, ih.groupId]
  | byteSizeLong preferBsr _ ih =>
      rw [byteSizeLong_eq]
      refine ⟨PacketField.wellFormed_sizeOfMessage preferBsr ih.packet, ?_⟩
      rw [PacketField.hasBits_sizeOfMessage]
      exact ih.groupId

end BehaviorRequest

/-! ## `SyncResponse` -/

/-- The responses that the generated functions build. -/
inductive SyncResponse.Built : SyncResponse → Prop
  | new : Built {}
  | mutablePacket {response} {update : BehaviorPacket → BehaviorPacket}
      (hupdate : ∀ packet : BehaviorPacket, packet.Built → (update packet).Built) :
      Built response → Built (response.mutablePacket update)
  | clearPacket {response} : Built response → Built response.clearPacket
  | setAllocatedPacket {response} {value : Option BehaviorPacket}
      (hvalue : ∀ packet ∈ value, packet.Built) :
      Built response → Built (response.setAllocatedPacket value)
  | releasePacket {response} : Built response → Built response.releasePacket.2
  | clear {response} : Built response → Built response.clear
  | mergeFrom {source response} :
      Built source → Built response → Built (response.mergeFrom source)
  | byteSizeLong {response} (preferBsr : Bool) :
      Built response → Built (response.byteSizeLong preferBsr).2

/-- A response has no field but the packet. -/
def SyncResponse.WellFormed (response : SyncResponse) : Prop :=
  response.toPacketField.WellFormed

namespace SyncResponse

theorem wellFormed_of_built {response : SyncResponse} (h : response.Built) :
    response.WellFormed := by
  induction h with
  | new => exact PacketField.wellFormed_new
  | mutablePacket hupdate _ ih => exact PacketField.wellFormed_mutablePacket ih hupdate
  | clearPacket _ ih => exact PacketField.wellFormed_clearPacket ih
  | setAllocatedPacket hvalue _ ih => exact PacketField.wellFormed_setAllocatedPacket _ hvalue
  | releasePacket _ ih => exact PacketField.wellFormed_releasePacket _
  | clear _ ih => exact PacketField.wellFormed_clear ih
  | mergeFrom _ _ ihsource ih => exact PacketField.wellFormed_mergeFrom ih ihsource
  | byteSizeLong preferBsr _ ih => exact PacketField.wellFormed_sizeOfMessage preferBsr ih

theorem mergeFrom_view {response source : SyncResponse} (h : response.Built)
    (hsource : source.Built) :
    (response.mergeFrom source).view = response.view.merge source.view :=
  congrArg Grpc.SyncResponse.mk
    (PacketField.mergeFrom_view (wellFormed_of_built h) (wellFormed_of_built hsource))

end SyncResponse

end HktBase.Grpc.Generated
