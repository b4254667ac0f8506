import HktBase.CustomNet.Client
import HktBase.CustomNet.Handshake

/-!
# The window that never opens

A receive window starts at `ReceivedSequence = 0`, where the cut-off
`ReceivedSequence - 32` of `UpdateReceivedState` wraps to 2^32 - 32.  Every sequence
number up to there is then too old, so the window stays as it is, and the Ack that
answers a packet names no packet at all.

`HasFreshWindow` is the state that a connection cannot leave: `updateReceivedState_fresh` is
the arithmetic of the cut-off, `HasFreshWindow.processReceivedPacket` the step and
`HasFreshWindow.processDatagrams` the run.  What such a window acknowledges is 0 and no
other number (`mem_acked_fresh`), and no packet is numbered 0.
-/

namespace HktBase.CustomNet

open Transition HktReliableUdpServer

/-! ## The fresh window -/

theorem ReceiveWindow.stale_fresh_iff (sequence : UInt32) :
    ({} : ReceiveWindow).Stale sequence ↔ sequence.toNat ≤ 2 ^ 32 - 32 := by
  unfold ReceiveWindow.Stale
  rw [UInt32.le_iff_toNat_le]
  rfl

/-- A fresh window ignores every number up to 2^32 - 32. -/
theorem ReceiveWindow.updateReceivedState_fresh (undefinedShift : UInt32 → UInt32)
    {sequence : UInt32} (h : sequence.toNat ≤ 2 ^ 32 - 32) :
    ({} : ReceiveWindow).updateReceivedState undefinedShift sequence = {} := by
  rw [ReceiveWindow.updateReceivedState, if_pos ((stale_fresh_iff sequence).mpr h)]

theorem ReceiveWindow.mem_acked_fresh {s : UInt32} : s ∈ ({} : ReceiveWindow).acked ↔ s = 0 := by
  simp [ReceiveWindow.acked, ackedBy, lookback_zero]

/-! ## A server that processes Data packets -/

variable {Addr : Type} [Platform Addr] {server : HktReliableUdpServer Addr} {peerAddress : Addr}
  {connection : ClientConnection Addr}

/-- The connection is registered, its window is fresh and it sends to `address`. -/
def HasFreshWindow (peerAddress address : Addr) (server : HktReliableUdpServer Addr) : Prop :=
  server.listenSocket = true ∧ ∃ connection,
    server.connections.find (Platform.toString peerAddress) = some connection ∧
      connection.toReceiveWindow = {} ∧ connection.address = address

/-- A Data packet leaves a fresh window fresh: its number is not past the cut-off, which is 2^32
- 32 as long as nothing has been received. -/
theorem HasFreshWindow.processReceivedPacket {address : Addr}
    (h : HasFreshWindow peerAddress address server) {packetData : Bytes} {sequence : UInt32}
    (hdata : IsDataPacket sequence packetData) (hsequence : sequence.toNat ≤ 2 ^ 32 - 32)
    (now : Time) :
    HasFreshWindow peerAddress address
      (server.processReceivedPacket now ⟨peerAddress, packetData⟩) := by
  obtain ⟨hsocket, connection, hfind, hwindow, haddress⟩ := h
  obtain ⟨hlisten, hafter, -⟩ := processReceivedPacket_data hdata now hfind
  refine ⟨hlisten.trans hsocket, _, hafter, ?_, haddress⟩
  have hheader := hdata.2.2
  change connection.toReceiveWindow.updateReceivedState _ _ = _
  rw [hheader, hwindow, ReceiveWindow.updateReceivedState_fresh _ hsequence]

/-- So does any list of them. -/
theorem HasFreshWindow.processDatagrams {address : Addr} {arrivals : List (Time × Bytes)}
    (harrivals : ∀ arrival ∈ arrivals, ∃ sequence, IsDataPacket sequence arrival.2 ∧
      sequence.toNat ≤ 2 ^ 32 - 32)
    (h : HasFreshWindow peerAddress address server) :
    HasFreshWindow peerAddress address (CustomNet.processDatagrams peerAddress arrivals server) := by
  induction arrivals generalizing server with
  | nil => exact h
  | cons arrival rest ih =>
      obtain ⟨sequence, hdata, hsequence⟩ := harrivals arrival (List.mem_cons_self ..)
      exact ih (fun other hother => harrivals other (List.mem_cons_of_mem _ hother))
        (h.processReceivedPacket hdata hsequence arrival.1)

/-- **No arrival is ever acknowledged.**  Whatever Data packets a fresh connection has
processed before, and whichever packet of the documented range it processes next: the
server answers with an Ack that leaves the packet pending at the client. -/
theorem data_never_acknowledged (hsocket : server.listenSocket = true)
    (hfind : server.connections.find (Platform.toString peerAddress) = some connection)
    (hfresh : connection.toReceiveWindow = {}) {arrivals : List (Time × Bytes)}
    (harrivals : ∀ arrival ∈ arrivals, ∃ sequence, IsDataPacket sequence arrival.2 ∧
      1 ≤ sequence.toNat ∧ sequence.toNat ≤ 2 ^ 31)
    {x : UInt32} (hpos : 1 ≤ x.toNat) (hle : x.toNat ≤ 2 ^ 31) {packetData : Bytes}
    (hdata : IsDataPacket x packetData) (now : Time) {client : HktReliableUdpClient Addr}
    (hpending : client.pendingAckPackets.contains x = true) :
    let before := processDatagrams peerAddress arrivals server
    let after := before.processReceivedPacket now ⟨peerAddress, packetData⟩
    (∃ current, before.connections.find (Platform.toString peerAddress) = some current ∧
        current.receivedSequence.toNat ≤ x.toNat + 32) ∧
      ∃ ackData, after.trace = before.trace ++
          [.processAck (Platform.toString peerAddress) (PacketHeader.ofBytes packetData),
            .socketSendTo connection.address ackData] ∧
        (PacketHeader.ofBytes ackData).type = .ack ∧
        (client.processAck (PacketHeader.ofBytes ackData)).pendingAckPackets.contains x = true := by
  have hbefore : HasFreshWindow peerAddress connection.address
      (processDatagrams peerAddress arrivals server) := by
    refine HasFreshWindow.processDatagrams (fun arrival harrival => ?_)
      ⟨hsocket, connection, hfind, hfresh, rfl⟩
    obtain ⟨sequence, hsequence, -, hbound⟩ := harrivals arrival harrival
    exact ⟨sequence, hsequence, by omega⟩
  obtain ⟨hlisten, current, hcurrent, hwindow, haddress⟩ := hbefore
  obtain ⟨-, -, htrace⟩ := processReceivedPacket_data hdata now hcurrent
  -- the packet itself is too old as well, so that the Ack is written from a fresh window
  have hafter : (current.afterData now (PacketHeader.ofBytes packetData)).toReceiveWindow = {} := by
    change current.toReceiveWindow.updateReceivedState _ _ = _
    rw [hdata.2.2, hwindow, ReceiveWindow.updateReceivedState_fresh _ (by omega)]
  refine ⟨⟨current, hcurrent, ?_⟩,
    (current.afterData now (PacketHeader.ofBytes packetData)).ackData, ?_, ?_, ?_⟩
  · simp [hwindow]
  · rw [htrace, if_pos hlisten]
    exact congrArg (fun address => _ ++ [_, ServerAction.socketSendTo address _]) haddress
  · simp [ClientConnection.ackData]
  · have hacks : x ∉ (PacketHeader.ofBytes
        (current.afterData now (PacketHeader.ofBytes packetData)).ackData).acks := by
      rw [ClientConnection.ackData, PacketHeader.ofBytes_toBytes]
      intro hx
      -- a fresh window acknowledges 0 only
      have hzero := ReceiveWindow.mem_acked_fresh.mp (hafter ▸ hx : x ∈ ({} : ReceiveWindow).acked)
      rw [hzero] at hpos
      simp at hpos
    simpa [HktReliableUdpClient.processAck, HktReliableUdpClient.emit, SparseMap.contains,
      find_processAck, hacks] using hpending

/-- The client of `registerClient`, once it has sent a packet with payload `data`. -/
def sendingClient (data : Bytes) : HktReliableUdpClient LoopbackAddr :=
  run HktReliableUdpClient.step {}
    [.connect ⟨7777⟩ true true, .receive (PacketHeader.toBytes { type := .ack }), .tick 0,
      .send 0 data]

/-- The datagram of that packet. -/
def firstDataDatagram (data : Bytes) : Bytes :=
  PacketHeader.toBytes { type := .data, sequence := 1 } ++ data

/-- The packet arrives a second time, and the Ack that the server sends leaves it pending again. -/
theorem data_never_acknowledged_second :
    let before := processDatagrams (⟨7778⟩ : LoopbackAddr) [(1, firstDataDatagram [42])]
      (run step {} registerClient)
    let after := before.processReceivedPacket 2 ⟨⟨7778⟩, firstDataDatagram [42]⟩
    ∃ ackData, after.trace = before.trace ++
        [.processAck (Platform.toString (⟨7778⟩ : LoopbackAddr))
            (PacketHeader.ofBytes (firstDataDatagram [42])),
          .socketSendTo ⟨7778⟩ ackData] ∧
      (PacketHeader.ofBytes ackData).type = .ack ∧
      (HktReliableUdpClient.processAck (PacketHeader.ofBytes ackData)
        (sendingClient [42])).pendingAckPackets.contains 1 = true := by
  intro before after
  have hsome : ((run step {} registerClient).connections.find
      (Platform.toString (⟨7778⟩ : LoopbackAddr))).isSome := by
    decide +kernel
  obtain ⟨connection, hfind⟩ := Option.isSome_iff_exists.mp hsome
  have hfresh : ((run step {} registerClient).connections.find
      (Platform.toString (⟨7778⟩ : LoopbackAddr))).map (fun connection =>
        (connection.toReceiveWindow, connection.address)) = some ({}, ⟨7778⟩) := by
    decide +kernel
  rw [hfind] at hfresh
  obtain ⟨hwindow, haddress⟩ := Prod.mk.inj (Option.some.inj hfresh)
  have harrivals : ∀ arrival ∈ [((1 : Time), firstDataDatagram [42])], ∃ sequence,
      IsDataPacket sequence arrival.2 ∧ 1 ≤ sequence.toNat ∧ sequence.toNat ≤ 2 ^ 31 := by
    intro arrival harrival
    obtain rfl := List.mem_singleton.mp harrival
    exact ⟨1, by decide +kernel, by decide, by decide⟩
  have hdata : IsDataPacket 1 (firstDataDatagram [42]) := by decide +kernel
  have hpending : (sendingClient [42]).pendingAckPackets.contains 1 = true := by decide +kernel
  have hlisten : (run step {} registerClient).listenSocket = true := by decide +kernel
  obtain ⟨-, ackData, htrace, htype, hstill⟩ := data_never_acknowledged hlisten hfind
    hwindow harrivals (by decide) (by decide) hdata 2 hpending
  rw [haddress] at htrace
  exact ⟨ackData, htrace, htype, hstill⟩

/-- The first packet of a client reaches the server and is answered, and stays pending. -/
theorem first_data_not_acknowledged :
    let server := run step {} registerClient
    let client := sendingClient [42]
    let after := server.processReceivedPacket 1 ⟨⟨7778⟩, firstDataDatagram [42]⟩
    .socketSendTo (firstDataDatagram [42]) ∈ client.trace ∧
      client.pendingAckPackets.contains 1 = true ∧
      ∃ ackData, after.trace = server.trace ++
          [.processAck "127.0.0.1:7778" (PacketHeader.ofBytes (firstDataDatagram [42])),
            .socketSendTo ⟨7778⟩ ackData] ∧
        (client.processAck (PacketHeader.ofBytes ackData)).pendingAckPackets.contains 1 = true := by
  refine ⟨by decide +kernel, by decide +kernel, PacketHeader.toBytes { type := .ack }, ?_, ?_⟩ <;>
    decide +kernel

end HktBase.CustomNet
