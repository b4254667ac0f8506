import Mathlib.Data.List.Range
import HktBase.Library.Lookback
import HktBase.CustomNet.Header

/-!
# Acknowledgement and retransmission

The three mechanisms that `FHktReliableUdpServer` and `FHktReliableUdpClient`
implement with the same code, each endpoint on its own fields: the receive window
(`UpdateReceivedState`), the removal of acknowledged packets (`ProcessAck`) and the
inner loop of `CheckForResends`.

The window is encoded by one endpoint and decoded by the other.  `ackedBy` is what
the decoder reads, and `find_processAck` says that it removes exactly these numbers.
-/

namespace HktBase.CustomNet

/-! ## The receive window -/

/-- `1 << Amount` on 32 bits.  Amounts of 32 and more are undefined in C++, and
`undefinedShift` is what the machine makes of them. -/
def shiftOne (undefinedShift : UInt32 → UInt32) (amount : UInt32) : UInt32 :=
  if amount < 32 then 1 <<< amount else undefinedShift amount

/-- `ReceivedSequence` and `ReceivedAckBitfield`, which both endpoints keep. -/
structure ReceiveWindow where
  receivedSequence : UInt32 := 0
  receivedAckBitfield : UInt32 := 0
  deriving DecidableEq

namespace ReceiveWindow

/-- `IncomingSequence <= ReceivedSequence - 32` in `uint32` arithmetic. -/
def Stale (window : ReceiveWindow) (incomingSequence : UInt32) : Prop :=
  incomingSequence ≤ window.receivedSequence - 32

instance (window : ReceiveWindow) (incomingSequence : UInt32) :
    Decidable (window.Stale incomingSequence) :=
  inferInstanceAs (Decidable (incomingSequence ≤ window.receivedSequence - 32))

/-- `UpdateReceivedState`. -/
def updateReceivedState (undefinedShift : UInt32 → UInt32) (window : ReceiveWindow)
    (incomingSequence : UInt32) : ReceiveWindow :=
  if window.Stale incomingSequence then window
  else if incomingSequence > window.receivedSequence then
    let diff := incomingSequence - window.receivedSequence
    { receivedSequence := incomingSequence
      -- bit 0 is set along with the head, though `ProcessAck` reads it as the number before
      receivedAckBitfield :=
        if diff ≥ 32 then 1 else (window.receivedAckBitfield <<< diff) ||| 1 }
  else
    let diff := window.receivedSequence - incomingSequence
    -- for a repeated head `diff - 1` wraps to 2^32 - 1
    { window with
      receivedAckBitfield :=
        window.receivedAckBitfield ||| shiftOne undefinedShift (diff - 1) }

end ReceiveWindow

/-! ## Reading acknowledgements -/

/-- The numbers that `ProcessAck` takes as acknowledged from a header that carries
`lastAckedSequence` and `ackBitfield`. -/
def ackedBy (lastAckedSequence ackBitfield : UInt32) : Set UInt32 :=
  insert lastAckedSequence (lookback lastAckedSequence ackBitfield)

instance (lastAckedSequence ackBitfield s : UInt32) :
    Decidable (s ∈ ackedBy lastAckedSequence ackBitfield) :=
  inferInstanceAs (Decidable (s = lastAckedSequence ∨ s ∈ lookback lastAckedSequence ackBitfield))

/-- The numbers that a window acknowledges when it is sent. -/
def ReceiveWindow.acked (window : ReceiveWindow) : Set UInt32 :=
  ackedBy window.receivedSequence window.receivedAckBitfield

/-- The numbers that a header acknowledges. -/
def PacketHeader.acks (header : PacketHeader) : Set UInt32 :=
  ackedBy header.lastAckedSequence header.ackBitfield

instance (header : PacketHeader) (s : UInt32) : Decidable (s ∈ header.acks) :=
  inferInstanceAs (Decidable (s ∈ ackedBy header.lastAckedSequence header.ackBitfield))

/-- `FPendingPacket`. -/
structure PendingPacket where
  packetData : Bytes
  sentTime : Time
  retries : ℕ := 0
  deriving DecidableEq

/-- `if (Contains(Sequence)) Remove(Sequence)`. -/
def removeAcked (pending : TMap UInt32 PendingPacket) (sequence : UInt32) :
    TMap UInt32 PendingPacket :=
  if pending.contains sequence then pending.remove sequence else pending

/-- `ProcessAck` on a pending map. -/
def processAck (header : PacketHeader) (pending : TMap UInt32 PendingPacket) :
    TMap UInt32 PendingPacket :=
  (List.range 32).foldl
    (fun pending i =>
      if (header.ackBitfield >>> UInt32.ofNat i) &&& 1 ≠ 0 then
        removeAcked pending (header.lastAckedSequence - UInt32.ofNat (i + 1))
      else pending)
    (removeAcked pending header.lastAckedSequence)

/-! ## Retransmission -/

/-- `0.2f`, the `float` nearest to 200 ms. -/
def resendTimeout : Time := 13421773 / 67108864

def maxRetries : ℕ := 10

/-- The loop of `CheckForResends` over one pending map: the map so far, the packets
sent again, and whether the loop has met a packet that is out of retries. -/
structure ResendSweep where
  pending : TMap UInt32 PendingPacket
  resent : List (UInt32 × Bytes) := []
  limitExceeded : Bool := false

/-- A packet is due for another transmission. -/
def PendingPacket.Overdue (packet : PendingPacket) (currentTime : Time) : Prop :=
  currentTime - packet.sentTime > resendTimeout

instance (packet : PendingPacket) (currentTime : Time) : Decidable (packet.Overdue currentTime) :=
  inferInstanceAs (Decidable (currentTime - packet.sentTime > resendTimeout))

/-- The body of the loop for one entry. -/
def ResendSweep.visit (currentTime : Time) (sweep : ResendSweep) (sequence : UInt32) :
    ResendSweep :=
  -- the limit ends the loop: `break` on the server, `return` on the client
  if sweep.limitExceeded then sweep
  else
    match sweep.pending.find sequence with
    | none => sweep
    | some packet =>
        if packet.Overdue currentTime then
          -- the packet keeps its clock, so it is overdue at the next pass too
          if packet.retries ≥ maxRetries then { sweep with limitExceeded := true }
          else
            { sweep with
              pending := sweep.pending.add sequence
                { packet with sentTime := currentTime, retries := packet.retries + 1 }
              resent := sweep.resent ++ [(sequence, packet.packetData)] }
        else sweep

def resendPending (currentTime : Time) (pending : TMap UInt32 PendingPacket) : ResendSweep :=
  pending.keys.foldl (ResendSweep.visit currentTime) { pending := pending }

/-! ## What `ProcessAck` removes -/

theorem find_removeAcked (pending : TMap UInt32 PendingPacket) (sequence s : UInt32) :
    (removeAcked pending sequence).find s = if s = sequence then none else pending.find s := by
  unfold removeAcked
  split
  · exact pending.find_remove sequence s
  · next habsent =>
      split
      · next h =>
          subst h
          simpa [SparseMap.contains] using habsent
      · rfl

theorem find_foldl_removeAcked (header : PacketHeader) (s : UInt32) (bits : List ℕ)
    (hbits : ∀ i ∈ bits, i < 32) (pending : TMap UInt32 PendingPacket) :
    (bits.foldl
      (fun pending i =>
        if (header.ackBitfield >>> UInt32.ofNat i) &&& 1 ≠ 0 then
          removeAcked pending (header.lastAckedSequence - UInt32.ofNat (i + 1))
        else pending) pending).find s =
      if ∃ i ∈ bits, header.ackBitfield.toNat.testBit i = true ∧
          s = header.lastAckedSequence - UInt32.ofNat (i + 1)
      then none else pending.find s := by
  induction bits generalizing pending with
  | nil => simp
  | cons i rest ih =>
      have hi : i < 32 := hbits i (List.mem_cons_self ..)
      rw [List.foldl_cons, ih fun j hj => hbits j (List.mem_cons_of_mem _ hj)]
      simp only [UInt32.shiftRight_and_one_ne_zero_iff hi, List.exists_mem_cons_iff]
      by_cases hrest : ∃ j ∈ rest, header.ackBitfield.toNat.testBit j = true ∧
          s = header.lastAckedSequence - UInt32.ofNat (j + 1)
      · rw [if_pos hrest, if_pos (Or.inr hrest)]
      · rw [if_neg hrest, if_congr (or_iff_left hrest) rfl rfl]
        by_cases hbit : header.ackBitfield.toNat.testBit i = true
        · rw [if_pos hbit, find_removeAcked]
          exact if_congr (and_iff_right hbit).symm rfl rfl
        · rw [if_neg hbit, if_neg fun h => hbit h.1]

/-- `ProcessAck` removes exactly the entries that the header acknowledges. -/
theorem find_processAck (header : PacketHeader) (pending : TMap UInt32 PendingPacket)
    (s : UInt32) :
    (processAck header pending).find s = if s ∈ header.acks then none else pending.find s := by
  rw [processAck, find_foldl_removeAcked header s _ (fun i hi => List.mem_range.mp hi),
    find_removeAcked]
  have hacks : s ∈ header.acks ↔ s = header.lastAckedSequence ∨
      ∃ i ∈ List.range 32, header.ackBitfield.toNat.testBit i = true ∧
        s = header.lastAckedSequence - UInt32.ofNat (i + 1) := by
    simp [PacketHeader.acks, ackedBy, mem_lookback]
  by_cases hlast : s = header.lastAckedSequence
  · rw [if_pos hlast, if_pos (hacks.mpr (Or.inl hlast)), ite_self]
  · rw [if_neg hlast]
    refine if_congr ?_ rfl rfl
    rw [hacks, or_iff_right hlast]

end HktBase.CustomNet
