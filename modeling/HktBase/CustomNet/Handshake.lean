import HktBase.CustomNet.Received

/-!
# Answering a Connect

What `ProcessReceivedPackets` makes of a Connect packet.  An address that is not
registered goes to `HandleNewConnection` and gets the Ack that completes the
handshake.  An address that is registered goes through `ProcessAck` into the
`switch`, which has no case for Connect, and gets nothing.
-/

namespace HktBase.CustomNet

open Transition HktReliableUdpServer

variable {Addr : Type}

/-- A Connect packet that is long enough to carry its header. -/
def ReceivedPacket.IsConnect (packet : ReceivedPacket Addr) : Prop :=
  sizeofPacketHeader ≤ packet.data.length ∧ (PacketHeader.ofBytes packet.data).type = .connect

/-- From one state to a later one the server has sent the address an Ack that an
unconnected client accepts. -/
def OffersHandshake (address : Addr) (server next : HktReliableUdpServer Addr) : Prop :=
  ∃ actions packetData, next.trace = server.trace ++ actions ∧
    .socketSendTo address packetData ∈ actions ∧ CompletesHandshake packetData

variable [Platform Addr] {server : HktReliableUdpServer Addr} {packet : ReceivedPacket Addr}

/-- A Connect from an unknown address registers it and is answered: the record is new, so that
the Ack carries the window of a connection that has received nothing. -/
theorem processReceivedPacket_connect_of_none (hsocket : server.listenSocket = true)
    (hconnect : packet.IsConnect) (now : Time)
    (hfind : server.connections.find (Platform.toString packet.peerAddress) = none) :
    OffersHandshake packet.peerAddress server (server.processReceivedPacket now packet) ∧
      (server.processReceivedPacket now packet).connections.contains
        (Platform.toString packet.peerAddress) = true := by
  obtain ⟨hlength, htype⟩ := hconnect
  have hprocess : server.processReceivedPacket now packet =
      server.handleNewConnection now packet.peerAddress := by
    simp only [processReceivedPacket, if_neg (not_lt.mpr hlength), hfind, if_pos htype]
  rw [hprocess, handleNewConnection, if_neg (by simp [SparseMap.contains, hfind])]
  constructor
  · refine ⟨[.newConnection (Platform.toString packet.peerAddress),
      .socketSendTo packet.peerAddress (PacketHeader.toBytes { type := .ack })],
      PacketHeader.toBytes { type := .ack }, ?_, by simp, ?_⟩
    · simp [sendAck, hsocket]
    · exact ⟨le_refl _, by simp, by simp⟩
  · exact SparseMap.contains_add.mpr (Or.inl rfl)

theorem processReceivedPacket_connect_of_some (hconnect : packet.IsConnect) (now : Time)
    {connection : ClientConnection Addr}
    (hfind : server.connections.find (Platform.toString packet.peerAddress) = some connection) :
    server.processReceivedPacket now packet =
      server.heard now packet.peerAddress (PacketHeader.ofBytes packet.data) connection := by
  obtain ⟨hlength, htype⟩ := hconnect
  rw [processReceivedPacket_of_some hlength now hfind]
  simp only [dispatch, htype]

theorem not_offersHandshake_of_some (hconnect : packet.IsConnect) (now : Time)
    {connection : ClientConnection Addr}
    (hfind : server.connections.find (Platform.toString packet.peerAddress) = some connection) :
    ¬ OffersHandshake packet.peerAddress server (server.processReceivedPacket now packet) := by
  rintro ⟨actions, packetData, htrace, hmem, -⟩
  rw [processReceivedPacket_connect_of_some hconnect now hfind, heard, trace_emit,
    trace_setConnection] at htrace
  rw [← List.append_cancel_left htrace] at hmem
  simp at hmem

/-- **When a Connect can be completed.**  A server with an open socket answers a
well-formed Connect with an Ack that an unconnected client accepts, and has the address
registered afterwards, exactly when the address was not registered before. -/
theorem connect_completed_iff (hsocket : server.listenSocket = true) (hconnect : packet.IsConnect)
    (now : Time) :
    (OffersHandshake packet.peerAddress server (server.processReceivedPacket now packet) ∧
      (server.processReceivedPacket now packet).connections.contains
        (Platform.toString packet.peerAddress) = true) ↔
      server.connections.contains (Platform.toString packet.peerAddress) = false := by
  cases hfind : server.connections.find (Platform.toString packet.peerAddress) with
  | none =>
      exact iff_of_true (processReceivedPacket_connect_of_none hsocket hconnect now hfind)
        (by simp [SparseMap.contains, hfind])
  | some connection =>
      refine iff_of_false ?_ (by simp [SparseMap.contains, hfind])
      exact fun h => not_offersHandshake_of_some hconnect now hfind h.1

/-- The datagram with which a client opens its handshake. -/
def connectDatagram : Bytes :=
  PacketHeader.toBytes { type := .connect }

theorem isConnect_connectDatagram (address : LoopbackAddr) :
    ReceivedPacket.IsConnect ⟨address, connectDatagram⟩ :=
  ⟨le_refl _, by simp [connectDatagram]⟩

/-- A server starts, and a client at port 7778 connects. -/
def registerClient : List (ServerEvent LoopbackAddr) :=
  [.start true, .receive ⟨7778⟩ connectDatagram, .tick ⟨fun _ => 0, 0, 0⟩]

theorem connect_completed_iff_first :
    (OffersHandshake ⟨7778⟩ (run step {} [.start true])
        ((run step {} [.start true]).processReceivedPacket 0
          (⟨⟨7778⟩, connectDatagram⟩ : ReceivedPacket LoopbackAddr)) ∧
      ((run step {} [.start true]).processReceivedPacket 0
        (⟨⟨7778⟩, connectDatagram⟩ : ReceivedPacket LoopbackAddr)).connections.contains
          (Platform.toString (⟨7778⟩ : LoopbackAddr)) = true) ↔
      (run step {} [(.start true : ServerEvent LoopbackAddr)]).connections.contains
        (Platform.toString (⟨7778⟩ : LoopbackAddr)) = false :=
  connect_completed_iff rfl (isConnect_connectDatagram ⟨7778⟩) 0

/-- The first Ack is lost, and the client connects again from the same port. -/
theorem connect_again_not_completed :
    (run step {} registerClient).listenSocket = true ∧
      ReceivedPacket.IsConnect (⟨⟨7778⟩, connectDatagram⟩ : ReceivedPacket LoopbackAddr) ∧
      ¬ OffersHandshake ⟨7778⟩ (run step {} registerClient)
        ((run step {} registerClient).processReceivedPacket 1 ⟨⟨7778⟩, connectDatagram⟩) := by
  refine ⟨by decide +kernel, isConnect_connectDatagram ⟨7778⟩, ?_⟩
  have hsome : ((run step {} registerClient).connections.find
      (Platform.toString (⟨7778⟩ : LoopbackAddr))).isSome := by
    decide +kernel
  obtain ⟨connection, hfind⟩ := Option.isSome_iff_exists.mp hsome
  exact not_offersHandshake_of_some (isConnect_connectDatagram ⟨7778⟩) 1 hfind

end HktBase.CustomNet
