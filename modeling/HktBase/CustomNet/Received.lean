import HktBase.CustomNet.ServerMoves

/-!
# One received packet

What `ProcessReceivedPackets` makes of a packet, by its type and by whether its
sender is registered.  A registered sender always has its acknowledgements
processed first, which is `heard`; the `switch` then acts on the record.

`dispatch_cases` reads the `switch` once, for the developments that ask what a packet can
change; `processReceivedPacket_data` is the exact effect of a Data packet, with the Ack that
is sent for it.
-/

namespace HktBase.CustomNet

open HktReliableUdpServer

variable {Addr : Type} [Platform Addr] {server : HktReliableUdpServer Addr} {peerAddress : Addr}
  {connection : ClientConnection Addr} {packetData : Bytes}

/-! ## Registered senders -/

omit [Platform Addr] in
/-- The record of a connection once a header from it has been processed. -/
def ClientConnection.afterAck (connection : ClientConnection Addr) (now : Time)
    (header : PacketHeader) : ClientConnection Addr :=
  { connection with lastReceiveTime := now }.processAck header

/-- The server once a header from a registered client has been processed. -/
def HktReliableUdpServer.heard (now : Time) (peerAddress : Addr) (header : PacketHeader)
    (connection : ClientConnection Addr) (server : HktReliableUdpServer Addr) :
    HktReliableUdpServer Addr :=
  (server.setConnection (Platform.toString peerAddress) (connection.afterAck now header)).emit
    (.processAck (Platform.toString peerAddress) header)

theorem processReceivedPacket_of_some (hlength : sizeofPacketHeader ≤ packetData.length)
    (now : Time)
    (hfind : server.connections.find (Platform.toString peerAddress) = some connection) :
    server.processReceivedPacket now ⟨peerAddress, packetData⟩ =
      (server.heard now peerAddress (PacketHeader.ofBytes packetData) connection).dispatch
        ⟨peerAddress, packetData⟩
        (connection.afterAck now (PacketHeader.ofBytes packetData)) := by
  simp only [processReceivedPacket, if_neg (not_lt.mpr hlength), hfind]
  rfl

/-- What the `switch` does: it answers a Data, drops the sender of a Disconnect, and
changes no more than groups on any other packet. -/
theorem dispatch_cases (packet : ReceivedPacket Addr)
    (connection : ClientConnection Addr) (server : HktReliableUdpServer Addr) :
    ((PacketHeader.ofBytes packet.data).type = .data ∧ ∃ after : ClientConnection Addr,
        after.pendingAckPackets = connection.pendingAckPackets ∧
        server.dispatch packet connection =
          (server.setConnection (Platform.toString packet.peerAddress) after).sendAck after) ∨
      ((PacketHeader.ofBytes packet.data).type = .disconnect ∧
        server.dispatch packet connection =
          server.disconnectClient (Platform.toString packet.peerAddress)) ∨
      ((PacketHeader.ofBytes packet.data).type ≠ .data ∧
        (PacketHeader.ofBytes packet.data).type ≠ .disconnect ∧
        ChangesGroups (Platform.toString packet.peerAddress) server
          (server.dispatch packet connection)) := by
  unfold dispatch
  dsimp only
  split
  · next hdata => exact Or.inl ⟨hdata, connection.updateReceivedState _, rfl, rfl⟩
  · next hack => exact Or.inr (Or.inr ⟨by simp [hack], by simp [hack], .same⟩)
  · next hdisconnect => exact Or.inr (Or.inl ⟨hdisconnect, rfl⟩)
  · next hjoin =>
      refine Or.inr (Or.inr ⟨by simp [hjoin], by simp [hjoin], ?_⟩)
      split
      · exact changesGroups_joinGroup _ _ _
      · exact .same
  · next hleave =>
      refine Or.inr (Or.inr ⟨by simp [hleave], by simp [hleave], ?_⟩)
      split
      · exact changesGroups_leaveGroup _ _ _
      · exact .same
  -- the default branch: a Connect, and any byte that is no packet type
  · next hdata _ hdisconnect _ _ => exact Or.inr (Or.inr ⟨hdata, hdisconnect, .same⟩)

/-- The record of a connection after a Data packet. -/
def ClientConnection.afterData (connection : ClientConnection Addr) (now : Time)
    (header : PacketHeader) : ClientConnection Addr :=
  (connection.afterAck now header).updateReceivedState header.sequence

/-- A Data packet on a connection is processed and answered with the connection's window. -/
theorem processReceivedPacket_data {sequence : UInt32}
    (hdata : IsDataPacket sequence packetData) (now : Time)
    (hfind : server.connections.find (Platform.toString peerAddress) = some connection) :
    let after := connection.afterData now (PacketHeader.ofBytes packetData)
    let next := server.processReceivedPacket now ⟨peerAddress, packetData⟩
    next.listenSocket = server.listenSocket ∧
      next.connections.find (Platform.toString peerAddress) = some after ∧
      next.trace = server.trace ++
        [.processAck (Platform.toString peerAddress) (PacketHeader.ofBytes packetData),
          if server.listenSocket then .socketSendTo after.address after.ackData
          else .nullSocket] := by
  obtain ⟨hlength, htype, -⟩ := hdata
  simp only [processReceivedPacket_of_some hlength now hfind, dispatch, htype]
  refine ⟨rfl, SparseMap.find_add_self _ _ _, ?_⟩
  simp only [sendAck, trace_socketSendTo, trace_setConnection, heard, trace_emit,
    List.append_assoc]
  rfl

/-! ## Several datagrams from one address -/

/-- The loop body of `ProcessReceivedPackets` on each of a list of datagrams from one
address, with the clock readings. -/
def processDatagrams (peerAddress : Addr) (arrivals : List (Time × Bytes))
    (server : HktReliableUdpServer Addr) : HktReliableUdpServer Addr :=
  arrivals.foldl (fun server arrival =>
    server.processReceivedPacket arrival.1 ⟨peerAddress, arrival.2⟩) server

theorem processDatagrams_moves (peerAddress : Addr) (arrivals : List (Time × Bytes))
    (server : HktReliableUdpServer Addr) :
    Moves anyHeader server (processDatagrams peerAddress arrivals server) :=
  Transition.moves_foldl
    (fun current arrival _ => processReceivedPacket_moves trivial arrival.1 current) server

theorem processReceivedPackets_eq_processDatagrams (clock : ℕ → Time) (datagrams : List Bytes)
    (hqueue : server.receivedPackets = datagrams.map fun data => ⟨peerAddress, data⟩) :
    server.processReceivedPackets clock =
      processDatagrams peerAddress (datagrams.zipIdx.map fun packet => (clock packet.2, packet.1))
        { server with receivedPackets := [] } := by
  rw [processReceivedPackets, hqueue, processDatagrams, List.zipIdx_map, List.foldl_map,
    List.foldl_map]
  rfl

end HktBase.CustomNet
