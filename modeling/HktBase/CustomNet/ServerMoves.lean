import HktBase.Library.Run
import HktBase.CustomNet.Resend
import HktBase.CustomNet.Server

/-!
# The moves of the server

Every function of the server is a chain of a few kinds of moves, which this file
lists once.  Most of them change the record of one connection and are described by
`ConnectionStep`, which names the record before, the actions it adds to the trace,
and the record after; the others register or remove a connection, change the
groups, run the loop of `CheckForResends` over all connections, or touch none of these.

`Move` takes a condition `hears` on the headers that may be processed.  It is
`anyHeader` where every run is meant, and restricts the moves where a result is about
what the server is sent.  `step_moves` says that every event is a chain of moves.
Invariants of the server are proved for moves and read off for runs with
`Transition.run_of_moves`.
-/

namespace HktBase.CustomNet

open Relation Transition

variable {Addr : Type}

/-! ## What the helpers change -/

namespace HktReliableUdpServer

section Frame

variable (server : HktReliableUdpServer Addr) (action : ServerAction Addr) (destination : Addr)
  (packetData : Bytes) (addrStr : String) (connection : ClientConnection Addr)

@[simp] theorem connections_emit : (server.emit action).connections = server.connections := rfl

@[simp] theorem groups_emit : (server.emit action).groups = server.groups := rfl

@[simp] theorem listenSocket_emit : (server.emit action).listenSocket = server.listenSocket := rfl

@[simp] theorem trace_emit : (server.emit action).trace = server.trace ++ [action] := rfl

@[simp] theorem connections_socketSendTo :
    (server.socketSendTo destination packetData).connections = server.connections := rfl

@[simp] theorem groups_socketSendTo :
    (server.socketSendTo destination packetData).groups = server.groups := rfl

@[simp] theorem listenSocket_socketSendTo :
    (server.socketSendTo destination packetData).listenSocket = server.listenSocket := rfl

@[simp] theorem trace_socketSendTo : (server.socketSendTo destination packetData).trace =
    server.trace ++
      [if server.listenSocket then .socketSendTo destination packetData else .nullSocket] := rfl

@[simp] theorem connections_setConnection : (server.setConnection addrStr connection).connections =
    server.connections.add addrStr connection := rfl

@[simp] theorem groups_setConnection :
    (server.setConnection addrStr connection).groups = server.groups := rfl

@[simp] theorem listenSocket_setConnection :
    (server.setConnection addrStr connection).listenSocket = server.listenSocket := rfl

@[simp] theorem trace_setConnection :
    (server.setConnection addrStr connection).trace = server.trace := rfl

end Frame

end HktReliableUdpServer

/-! ## Steps of one connection -/

namespace ClientConnection

/-- The Ack that `SendAck` sends for a connection. -/
def ackData (connection : ClientConnection Addr) : Bytes :=
  PacketHeader.toBytes
    { type := .ack
      sequence := 0
      lastAckedSequence := connection.receivedSequence
      ackBitfield := connection.receivedAckBitfield }

/-- The datagram that `SendTo` sends on a connection. -/
def packetData (connection : ClientConnection Addr) (data : Bytes) : Bytes :=
  PacketHeader.toBytes
    { type := .data
      sequence := connection.sentSequence + 1
      lastAckedSequence := connection.receivedSequence
      ackBitfield := connection.receivedAckBitfield } ++ data

/-- The record after `SendTo`. -/
def afterSendTo (connection : ClientConnection Addr) (now : Time) (data : Bytes) :
    ClientConnection Addr :=
  { connection with
    sentSequence := connection.sentSequence + 1
    pendingAckPackets := connection.pendingAckPackets.add (connection.sentSequence + 1)
      { packetData := connection.packetData data, sentTime := now } }

/-- The record after the loop of `CheckForResends`. -/
def afterResend (connection : ClientConnection Addr) (currentTime : Time) :
    ClientConnection Addr :=
  { connection with
    pendingAckPackets := (resendPending currentTime connection.pendingAckPackets).pending }

/-- What the loop of `CheckForResends` does on a connection. -/
def resendActions (listenSocket : Bool) (addrStr : String) (connection : ClientConnection Addr)
    (currentTime : Time) : List (ServerAction Addr) :=
  let packets := resendPending currentTime connection.pendingAckPackets
  (packets.resent.flatMap fun packet =>
      [if listenSocket then .socketSendTo connection.address packet.2 else .nullSocket,
        .resent addrStr packet.1 currentTime]) ++
    if packets.limitExceeded then [.resendLimit addrStr] else []

end ClientConnection

/-- Any header may be processed. -/
def anyHeader : String → PacketHeader → Prop :=
  fun _ _ => True

/-- The ways in which the server changes the record of a registered connection outside
`CheckForResends`: the record before, what the trace gains, and the record after. -/
inductive ConnectionStep [Platform Addr] (hears : String → PacketHeader → Prop)
    (listenSocket : Bool) (addrStr : String) :
    ClientConnection Addr → List (ServerAction Addr) → ClientConnection Addr → Prop
  | processAck (connection : ClientConnection Addr) (now : Time) (header : PacketHeader) :
      hears addrStr header →
      ConnectionStep hears listenSocket addrStr connection [.processAck addrStr header]
        ({ connection with lastReceiveTime := now }.processAck header)
  | updateReceivedState (connection : ClientConnection Addr) (sequence : UInt32) :
      ConnectionStep hears listenSocket addrStr connection []
        (connection.updateReceivedState sequence)
  | sendTo (connection : ClientConnection Addr) (dstAddr : Addr) (now : Time) (data : Bytes) :
      listenSocket = true → Platform.toString dstAddr = addrStr →
      ConnectionStep hears listenSocket addrStr connection
        [.socketSendTo dstAddr (connection.packetData data),
          .sentData addrStr (connection.sentSequence + 1) now]
        (connection.afterSendTo now data)

/-! ## The loop of `CheckForResends` -/

namespace ServerAction

/-- An Ack was sent, or would have been. -/
def IsReport : ServerAction Addr → Prop
  | .socketSendTo _ packetData => (PacketHeader.ofBytes packetData).type = .ack
  | .nullSocket => True
  | _ => False

/-- An action of the loop of `CheckForResends`. -/
def IsResend : ServerAction Addr → Prop
  | .socketSendTo .. => True
  | .nullSocket => True
  | .resent .. => True
  | .resendLimit .. => True
  | _ => False

end ServerAction

namespace HktReliableUdpServer

theorem foldl_resent (addrStr : String) (address : Addr) (currentTime : Time)
    (resent : List (UInt32 × Bytes)) (server : HktReliableUdpServer Addr) :
    resent.foldl (fun server packet => (server.socketSendTo address packet.2).emit
        (.resent addrStr packet.1 currentTime)) server =
      { server with
        trace := server.trace ++ resent.flatMap fun packet =>
          [if server.listenSocket then .socketSendTo address packet.2 else .nullSocket,
            .resent addrStr packet.1 currentTime] } := by
  induction resent generalizing server with
  | nil => simp
  | cons packet rest ih =>
      rw [List.foldl_cons, ih]
      simp [emit, socketSendTo]

/-- One round of the outer loop: the record after its pass, the actions of the pass, and the key
among the clients to disconnect if the pass met a packet out of retries. -/
theorem resendTo_eq {currentTime : Time} {addrStr : String} {server : HktReliableUdpServer Addr}
    {connection : ClientConnection Addr} (hfind : server.connections.find addrStr = some connection)
    (clients : List String) :
    resendTo currentTime (server, clients) addrStr =
      ({ server.setConnection addrStr (connection.afterResend currentTime) with
          trace := server.trace ++
            connection.resendActions server.listenSocket addrStr currentTime },
        clients ++ if (resendPending currentTime connection.pendingAckPackets).limitExceeded
          then [addrStr] else []) := by
  simp only [resendTo, hfind, foldl_resent]
  split
  · next hlimit =>
      simp [emit, setConnection, ClientConnection.resendActions, ClientConnection.afterResend,
        hlimit]
      rfl
  · next hlimit =>
      simp [setConnection, ClientConnection.resendActions, ClientConnection.afterResend, hlimit]
      rfl

theorem resendTo_of_none {currentTime : Time} {addrStr : String}
    {server : HktReliableUdpServer Addr} (hfind : server.connections.find addrStr = none)
    (clients : List String) :
    resendTo currentTime (server, clients) addrStr = (server, clients) := by
  simp only [resendTo, hfind]

/-- What the outer loop does to the connections `keys`, and the actions it takes. -/
structure Resends (currentTime : Time) (keys : List String) (server : HktReliableUdpServer Addr)
    (actions : List (ServerAction Addr)) (next : HktReliableUdpServer Addr) : Prop where
  trace : next.trace = server.trace ++ actions
  groups : next.groups = server.groups
  receivedPackets : next.receivedPackets = server.receivedPackets
  find : ∀ addrStr, next.connections.find addrStr = if addrStr ∈ keys then
    (server.connections.find addrStr).map fun connection => connection.afterResend currentTime
    else server.connections.find addrStr
  isResend : ∀ action ∈ actions, action.IsResend
  resendLimit : ∀ addrStr, .resendLimit addrStr ∈ actions ↔ addrStr ∈ keys ∧
    ∃ connection, server.connections.find addrStr = some connection ∧
      (resendPending currentTime connection.pendingAckPackets).limitExceeded = true
  sends : ∀ destination packetData, .socketSendTo destination packetData ∈ actions →
    ∃ addrStr connection s packet, server.connections.find addrStr = some connection ∧
      destination = connection.address ∧ connection.pendingAckPackets.find s = some packet ∧
      packet.packetData = packetData

theorem isResend_of_mem_resendActions {listenSocket : Bool} {addrStr : String}
    {connection : ClientConnection Addr} {currentTime : Time} {action : ServerAction Addr}
    (haction : action ∈ connection.resendActions listenSocket addrStr currentTime) :
    action.IsResend := by
  rcases List.mem_append.mp haction with hresent | hlimit
  · obtain ⟨packet, -, hpacket⟩ := List.mem_flatMap.mp hresent
    rcases List.mem_pair.mp hpacket with rfl | rfl
    · split <;> trivial
    · trivial
  · split at hlimit
    · obtain rfl := List.mem_singleton.mp hlimit
      trivial
    · simp at hlimit

theorem resendLimit_mem_resendActions {listenSocket : Bool} {addrStr other : String}
    {connection : ClientConnection Addr} {currentTime : Time} :
    .resendLimit other ∈ connection.resendActions listenSocket addrStr currentTime ↔
      other = addrStr ∧
        (resendPending currentTime connection.pendingAckPackets).limitExceeded = true := by
  have hresent : ∀ packet : UInt32 × Bytes, .resendLimit other ∉
      [if listenSocket then ServerAction.socketSendTo connection.address packet.2 else .nullSocket,
        .resent addrStr packet.1 currentTime] := by
    intro packet
    split <;> simp
  simp only [ClientConnection.resendActions, List.mem_append, List.mem_flatMap, hresent, and_false,
    exists_false, false_or]
  split <;> simp_all

theorem socketSendTo_mem_resendActions {listenSocket : Bool} {addrStr : String}
    {connection : ClientConnection Addr} {currentTime : Time} {destination : Addr}
    {packetData : Bytes}
    (hmem : .socketSendTo destination packetData ∈
      connection.resendActions listenSocket addrStr currentTime) :
    destination = connection.address ∧ ∃ s packet,
      connection.pendingAckPackets.find s = some packet ∧ packet.packetData = packetData := by
  rcases List.mem_append.mp hmem with hresent | hlimit
  · obtain ⟨sent, hsent, hpacket⟩ := List.mem_flatMap.mp hresent
    obtain ⟨packet, hfind, hdata⟩ := mem_resent_resendPending _ _ hsent
    split at hpacket
    · simp only [List.mem_cons, ServerAction.socketSendTo.injEq, reduceCtorEq, List.not_mem_nil,
        or_false] at hpacket
      exact ⟨hpacket.1, _, packet, hfind, hdata.trans hpacket.2.symm⟩
    · simp at hpacket
  · split at hlimit <;> simp at hlimit

theorem resends_nil (currentTime : Time) (server : HktReliableUdpServer Addr) :
    Resends currentTime [] server [] server where
  trace := by simp
  groups := rfl
  receivedPackets := rfl
  find := by simp
  isResend := by simp
  resendLimit := by simp
  sends := by simp

/-- A round for an address without a connection before rounds for others. -/
theorem Resends.cons_of_none {currentTime : Time} {addrStr : String} {keys : List String}
    {server next : HktReliableUdpServer Addr} {actions : List (ServerAction Addr)}
    (hnone : server.connections.find addrStr = none)
    (h : Resends currentTime keys server actions next) :
    Resends currentTime (addrStr :: keys) server actions next := by
  refine ⟨h.trace, h.groups, h.receivedPackets, fun other => ?_, h.isResend, fun other => ?_,
    h.sends⟩
  · rw [h.find]
    by_cases hsame : other = addrStr
    · simp [hsame, hnone]
    · simp [hsame]
  · rw [h.resendLimit]
    by_cases hsame : other = addrStr
    · simp [hsame, hnone]
    · simp [hsame]

/-- A round for one connection before rounds for others.  The key is not among the later ones,
so that the later rounds find the other records as they were. -/
theorem Resends.cons {currentTime : Time} {addrStr : String} {keys : List String}
    {server next : HktReliableUdpServer Addr} {connection : ClientConnection Addr}
    {actions : List (ServerAction Addr)} (hfresh : addrStr ∉ keys)
    (hfind : server.connections.find addrStr = some connection)
    (h : Resends currentTime keys
      { server.setConnection addrStr (connection.afterResend currentTime) with
        trace := server.trace ++
          connection.resendActions server.listenSocket addrStr currentTime } actions next) :
    Resends currentTime (addrStr :: keys) server
      (connection.resendActions server.listenSocket addrStr currentTime ++ actions) next := by
  have hother : ∀ other, other ≠ addrStr → (server.connections.add addrStr
      (connection.afterResend currentTime)).find other = server.connections.find other :=
    fun other hne => SparseMap.find_add_of_ne _ _ hne
  refine ⟨?_, h.groups, h.receivedPackets, fun other => ?_, fun action haction => ?_,
    fun other => ?_, ?_⟩
  · rw [h.trace, List.append_assoc]
  -- no later round is for this connection, so that its record stays as this one leaves it
  · rw [h.find]
    simp only [setConnection]
    by_cases hsame : other = addrStr
    · subst hsame
      rw [if_neg hfresh, if_pos (List.mem_cons_self ..), SparseMap.find_add_self, hfind,
        Option.map_some]
    · rw [hother other hsame]
      simp [hsame]
  · rcases List.mem_append.mp haction with haction | haction
    · exact isResend_of_mem_resendActions haction
    · exact h.isResend action haction
  · rw [List.mem_append, resendLimit_mem_resendActions, h.resendLimit]
    simp only [setConnection]
    by_cases hsame : other = addrStr
    · subst hsame
      simp [hfresh, hfind]
    · simp [hsame, hother other hsame]
  · intro destination packetData hmem
    rcases List.mem_append.mp hmem with hmem | hmem
    · obtain ⟨hdestination, s, packet, hpacket, hdata⟩ := socketSendTo_mem_resendActions hmem
      exact ⟨addrStr, connection, s, packet, hfind, hdestination, hpacket, hdata⟩
    -- a later round may find this connection, but sends what it had from the beginning
    · obtain ⟨other, found, s, packet, hfound, hdestination, hpacket, hdata⟩ :=
        h.sends destination packetData hmem
      simp only [setConnection, SparseMap.find_add] at hfound
      split at hfound
      · next hsame =>
          obtain rfl := Option.some.inj hfound
          obtain ⟨original, horiginal, hsamedata⟩ := packetData_of_find_resendPending _ _ hpacket
          exact ⟨addrStr, connection, s, original, hfind, hdestination, horiginal,
            hsamedata.trans hdata⟩
      · exact ⟨other, found, s, packet, hfound, hdestination, hpacket, hdata⟩

theorem resends_foldl (currentTime : Time) (keys : List String) (hnodup : keys.Nodup)
    (server : HktReliableUdpServer Addr) (clients : List String) :
    ∃ actions, Resends currentTime keys server actions
      (keys.foldl (resendTo currentTime) (server, clients)).1 := by
  induction keys generalizing server clients with
  | nil => exact ⟨[], resends_nil currentTime server⟩
  | cons addrStr rest ih =>
      obtain ⟨hfresh, hrest⟩ := List.nodup_cons.mp hnodup
      rw [List.foldl_cons]
      cases hfind : server.connections.find addrStr with
      | none =>
          rw [resendTo_of_none hfind]
          obtain ⟨actions, h⟩ := ih hrest server clients
          exact ⟨actions, h.cons_of_none hfind⟩
      | some connection =>
          rw [resendTo_eq hfind]
          obtain ⟨actions, h⟩ := ih hrest _ _
          exact ⟨_, h.cons hfresh hfind⟩

/-- `CheckForResends` up to the end of its loop, with `ClientsToDisconnect`. -/
def resendAll (currentTime : Time) (server : HktReliableUdpServer Addr) :
    HktReliableUdpServer Addr × List String :=
  server.connections.keys.foldl (resendTo currentTime)
    (server.emit (.checkForResends currentTime), [])

theorem resends_resendAll (currentTime : Time) (server : HktReliableUdpServer Addr) :
    ∃ actions, Resends currentTime server.connections.keys
      (server.emit (.checkForResends currentTime)) actions (server.resendAll currentTime).1 :=
  resends_foldl currentTime server.connections.keys server.connections.nodup_keys _ _

theorem Resends.find_keys {currentTime : Time} {server next : HktReliableUdpServer Addr}
    {actions : List (ServerAction Addr)}
    (h : Resends currentTime server.connections.keys (server.emit (.checkForResends currentTime))
      actions next) (addrStr : String) :
    next.connections.find addrStr =
      (server.connections.find addrStr).map fun connection => connection.afterResend currentTime := by
  rw [h.find, connections_emit]
  split
  · rfl
  · next hmem =>
      have hnone : server.connections.find addrStr = none :=
        Option.eq_none_iff_forall_ne_some.mpr fun connection hfind =>
          hmem (SparseMap.mem_keys.mpr ⟨connection, hfind⟩)
      simp [hnone]

end HktReliableUdpServer

/-! ## Moves -/

namespace HktReliableUdpServer

variable [Platform Addr]

/-- Every packet in the queue carries a header that may be processed. -/
def HearsQueue (hears : String → PacketHeader → Prop) (server : HktReliableUdpServer Addr) : Prop :=
  ∀ packet ∈ server.receivedPackets,
    hears (Platform.toString packet.peerAddress) (PacketHeader.ofBytes packet.data)

/-- One move of the server, with the headers that may be processed. -/
inductive Move (hears : String → PacketHeader → Prop) :
    HktReliableUdpServer Addr → HktReliableUdpServer Addr → Prop
  /-- The thread, the socket or the queue changes. -/
  | environment {server next : HktReliableUdpServer Addr} :
      next.connections = server.connections → next.groups = server.groups →
      next.trace = server.trace → (HearsQueue hears server → HearsQueue hears next) →
      Move hears server next
  | report {server : HktReliableUdpServer Addr} (action : ServerAction Addr) :
      action.IsReport → Move hears server (server.emit action)
  | accept {server : HktReliableUdpServer Addr} (now : Time) (newAddr : Addr) :
      server.connections.find (Platform.toString newAddr) = none →
      Move hears server ((server.setConnection (Platform.toString newAddr)
        { address := newAddr, lastReceiveTime := now }).emit
          (.newConnection (Platform.toString newAddr)))
  | connection {server : HktReliableUdpServer Addr} {addrStr : String}
      {before after : ClientConnection Addr} {actions : List (ServerAction Addr)} :
      server.connections.find addrStr = some before →
      ConnectionStep hears server.listenSocket addrStr before actions after →
      Move hears server { server.setConnection addrStr after with trace := server.trace ++ actions }
  | resend {server : HktReliableUdpServer Addr} (currentTime : Time) :
      Move hears server (server.resendAll currentTime).1
  | disconnect {server : HktReliableUdpServer Addr} (addrStr : String) :
      Move hears server (server.disconnectClient addrStr)
  | joinGroup {server : HktReliableUdpServer Addr} (clientAddr : Addr) (groupId : Int32) :
      Move hears server (server.joinGroup clientAddr groupId)
  | leaveGroup {server : HktReliableUdpServer Addr} (clientAddr : Addr) (groupId : Int32) :
      Move hears server (server.leaveGroup clientAddr groupId)

/-- A chain of moves. -/
abbrev Moves (hears : String → PacketHeader → Prop) :
    HktReliableUdpServer Addr → HktReliableUdpServer Addr → Prop :=
  ReflTransGen (Move hears)

variable {hears : String → PacketHeader → Prop}

theorem sendAck_moves (connection : ClientConnection Addr) (server : HktReliableUdpServer Addr) :
    Moves hears server (server.sendAck connection) := by
  refine .single (.report _ ?_)
  split
  · simp [ServerAction.IsReport]
  · trivial

theorem handleNewConnection_moves (now : Time) (newAddr : Addr)
    (server : HktReliableUdpServer Addr) :
    Moves hears server (server.handleNewConnection now newAddr) := by
  unfold handleNewConnection
  cases hfind : server.connections.find (Platform.toString newAddr) with
  | some connection =>
      simp only [SparseMap.contains, hfind, Option.isSome_some, if_true]
      exact .refl
  | none =>
      simp only [SparseMap.contains, hfind, Option.isSome_none, Bool.false_eq_true, if_false]
      exact .head (.accept now newAddr hfind) (sendAck_moves _ _)

theorem sendTo_moves (now : Time) (dstAddr : Option Addr) (data : Bytes)
    (server : HktReliableUdpServer Addr) : Moves hears server (server.sendTo now dstAddr data) := by
  unfold sendTo
  split
  · next address hsocket =>
      dsimp only
      split
      · exact .refl
      · next connection hfind =>
          have hmove : Move hears server _ :=
            Move.connection hfind (.sendTo connection address now data hsocket rfl)
          convert ReflTransGen.single hmove using 1
          simp [emit, socketSendTo, setConnection, hsocket, ClientConnection.packetData,
            ClientConnection.afterSendTo]
  · exact .refl

theorem broadcastToGroup_moves (clock : ℕ → Time) (groupId : Int32) (data : Bytes)
    (excludeAddr : Option Addr) (server : HktReliableUdpServer Addr) :
    Moves hears server (server.broadcastToGroup clock groupId data excludeAddr) := by
  unfold broadcastToGroup
  split
  · exact .refl
  · refine moves_foldl (fun current member _ => ?_) server
    dsimp only
    split
    · exact sendTo_moves _ _ _ _
    · exact .refl

theorem dispatch_moves (packet : ReceivedPacket Addr) (connection : ClientConnection Addr)
    (server : HktReliableUdpServer Addr)
    (hfind : server.connections.find (Platform.toString packet.peerAddress) = some connection) :
    Moves hears server (server.dispatch packet connection) := by
  unfold dispatch
  dsimp only
  split
  · have hmove : Move hears server _ := Move.connection hfind
      (.updateReceivedState connection (PacketHeader.ofBytes packet.data).sequence)
    simp only [List.append_nil] at hmove
    -- the Ack carries the window that the packet has changed
    exact .head hmove (sendAck_moves _ _)
  · exact .refl
  · exact .single (.disconnect _)
  · split
    · exact .single (.joinGroup _ _)
    · exact .refl
  · split
    · exact .single (.leaveGroup _ _)
    · exact .refl
  · exact .refl

theorem processReceivedPacket_moves {packet : ReceivedPacket Addr}
    (hhears : hears (Platform.toString packet.peerAddress) (PacketHeader.ofBytes packet.data))
    (now : Time) (server : HktReliableUdpServer Addr) :
    Moves hears server (server.processReceivedPacket now packet) := by
  unfold processReceivedPacket
  dsimp only
  split
  · exact .refl
  · split
    · split
      · exact handleNewConnection_moves _ _ _
      · exact .refl
    · next connection hfind =>
        refine .head (Move.connection hfind (.processAck connection now
          (PacketHeader.ofBytes packet.data) hhears)) (dispatch_moves _ _ _ ?_)
        simp [SparseMap.find_add]

theorem processReceivedPackets_moves (clock : ℕ → Time) {server : HktReliableUdpServer Addr}
    (hqueue : HearsQueue hears server) :
    Moves hears server (server.processReceivedPackets clock) := by
  have hempty : Move hears server { server with receivedPackets := [] } :=
    .environment rfl rfl rfl fun _ => by simp [HearsQueue]
  refine .head hempty (moves_foldl (fun current packet hpacket => ?_) _)
  exact processReceivedPacket_moves (hqueue _ (List.fst_mem_of_mem_zipIdx hpacket)) _ _

/-! ## The sweeps -/

theorem foldl_disconnectClient_moves (clients : List String) (server : HktReliableUdpServer Addr) :
    Moves hears server
      (clients.foldl (fun server addrStr => server.disconnectClient addrStr) server) :=
  moves_foldl (fun _ addrStr _ => .single (.disconnect addrStr)) server

theorem checkForResends_moves (currentTime : Time) (server : HktReliableUdpServer Addr) :
    Moves hears server (server.checkForResends currentTime) :=
  .head (.resend currentTime) (foldl_disconnectClient_moves _ _)

theorem checkForTimeouts_moves (currentTime : Time) (server : HktReliableUdpServer Addr) :
    Moves hears server (server.checkForTimeouts currentTime) :=
  foldl_disconnectClient_moves _ _

/-! ## The connections after a disconnect, a join and a leave -/

omit [Platform Addr] in
theorem find_connections_disconnectClient (addrStr other : String)
    (server : HktReliableUdpServer Addr) :
    (server.disconnectClient addrStr).connections.find other =
      if other = addrStr then none else server.connections.find other := by
  unfold disconnectClient
  split
  · next hfind =>
      split
      · next h => rw [h, hfind]
      · rfl
  · exact SparseMap.find_remove _ _ _

omit [Platform Addr] in
theorem trace_disconnectClient (addrStr : String) (server : HktReliableUdpServer Addr) :
    (server.disconnectClient addrStr).trace = server.trace ++
      if server.connections.contains addrStr then [.disconnected addrStr] else [] := by
  unfold disconnectClient SparseMap.contains
  cases server.connections.find addrStr <;> simp

/-- What a join or a leave changes: the groups of one record, and the member maps. -/
inductive ChangesGroups (addrStr : String) (server : HktReliableUdpServer Addr) :
    HktReliableUdpServer Addr → Prop
  | same : ChangesGroups addrStr server server
  | groups (connection : ClientConnection Addr) (groupIds : TSet Int32)
      (groups : TMap Int32 (TMap String Addr))
      (hfind : server.connections.find addrStr = some connection) :
      ChangesGroups addrStr server
        { server with
          connections := server.connections.add addrStr { connection with groupIds := groupIds }
          groups := groups }

theorem changesGroups_joinGroup (clientAddr : Addr) (groupId : Int32)
    (server : HktReliableUdpServer Addr) :
    ChangesGroups (Platform.toString clientAddr) server (server.joinGroup clientAddr groupId) := by
  unfold joinGroup
  dsimp only
  split
  · exact .same
  · next connection hfind =>
      split
      · exact .same
      · exact .groups connection _ _ hfind

theorem changesGroups_leaveGroup (clientAddr : Addr) (groupId : Int32)
    (server : HktReliableUdpServer Addr) :
    ChangesGroups (Platform.toString clientAddr) server (server.leaveGroup clientAddr groupId) := by
  unfold leaveGroup
  dsimp only
  split
  · exact .same
  · next connection hfind =>
      split
      · exact .groups connection _ _ hfind
      · exact .same

namespace ChangesGroups

variable {addrStr : String} {server next : HktReliableUdpServer Addr}

omit [Platform Addr]

/-- A record changes in nothing but its groups. -/
theorem find_connections (h : ChangesGroups addrStr server next) {other : String}
    {connection : ClientConnection Addr} (hfind : next.connections.find other = some connection) :
    ∃ before groupIds, server.connections.find other = some before ∧
      connection = { before with groupIds := groupIds } := by
  cases h with
  | same => exact ⟨connection, connection.groupIds, hfind, rfl⟩
  | groups before groupIds groups hbefore =>
      rw [SparseMap.find_add] at hfind
      split at hfind
      · next hsame => exact ⟨before, _, hsame ▸ hbefore, (Option.some.inj hfind).symm⟩
      · exact ⟨connection, connection.groupIds, hfind, rfl⟩

theorem find_connections_of_ne (h : ChangesGroups addrStr server next) {other : String}
    (hne : other ≠ addrStr) : next.connections.find other = server.connections.find other := by
  cases h with
  | same => rfl
  | groups before groupIds groups hbefore => exact SparseMap.find_add_of_ne _ _ hne

theorem contains_connections (h : ChangesGroups addrStr server next) (other : String) :
    next.connections.contains other = server.connections.contains other := by
  cases h with
  | same => rfl
  | groups before groupIds groups hbefore =>
      rw [Bool.eq_iff_iff, SparseMap.contains_add]
      apply or_iff_right_of_imp
      rintro rfl
      exact SparseMap.contains_iff.mpr ⟨before, hbefore⟩

theorem trace (h : ChangesGroups addrStr server next) : next.trace = server.trace := by
  cases h <;> rfl

theorem receivedPackets (h : ChangesGroups addrStr server next) :
    next.receivedPackets = server.receivedPackets := by
  cases h <;> rfl

end ChangesGroups

@[simp] theorem trace_joinGroup (clientAddr : Addr) (groupId : Int32)
    (server : HktReliableUdpServer Addr) :
    (server.joinGroup clientAddr groupId).trace = server.trace :=
  (changesGroups_joinGroup clientAddr groupId server).trace

@[simp] theorem trace_leaveGroup (clientAddr : Addr) (groupId : Int32)
    (server : HktReliableUdpServer Addr) :
    (server.leaveGroup clientAddr groupId).trace = server.trace :=
  (changesGroups_leaveGroup clientAddr groupId server).trace

omit [Platform Addr] in
theorem receivedPackets_disconnectClient (addrStr : String) (server : HktReliableUdpServer Addr) :
    (server.disconnectClient addrStr).receivedPackets = server.receivedPackets := by
  unfold disconnectClient
  split <;> rfl

/-- The trace only grows. -/
theorem trace_prefix_of_moves {server next : HktReliableUdpServer Addr}
    (hmoves : Moves hears server next) : server.trace <+: next.trace := by
  induction hmoves with
  | refl => exact List.prefix_refl _
  | @tail before next _ hmove ih =>
      refine ih.trans ?_
      cases hmove with
      | environment _ _ htrace _ => rw [htrace]
      | report action _ => exact List.prefix_append _ _
      | accept now newAddr _ => exact List.prefix_append _ _
      | connection _ _ => exact List.prefix_append _ _
      | resend currentTime =>
          obtain ⟨actions, hresends⟩ := resends_resendAll currentTime before
          rw [hresends.trace, trace_emit, List.append_assoc]
          exact List.prefix_append _ _
      | disconnect addrStr =>
          rw [trace_disconnectClient]
          exact List.prefix_append _ _
      | joinGroup clientAddr groupId => rw [trace_joinGroup]
      | leaveGroup clientAddr groupId => rw [trace_leaveGroup]

/-- A move adds nothing to the queue but what may be processed. -/
theorem HearsQueue.move {server next : HktReliableUdpServer Addr} (hmove : Move hears server next)
    (h : HearsQueue hears server) : HearsQueue hears next := by
  cases hmove with
  | environment _ _ _ hqueue => exact hqueue h
  | report action _ => exact h
  | accept now newAddr _ => exact h
  | connection _ _ => exact h
  | resend currentTime =>
      obtain ⟨actions, hresends⟩ := resends_resendAll currentTime server
      rw [HearsQueue, hresends.receivedPackets]
      exact h
  | disconnect addrStr =>
      rw [HearsQueue, receivedPackets_disconnectClient]
      exact h
  | joinGroup clientAddr groupId =>
      rw [HearsQueue, (changesGroups_joinGroup clientAddr groupId server).receivedPackets]
      exact h
  | leaveGroup clientAddr groupId =>
      rw [HearsQueue, (changesGroups_leaveGroup clientAddr groupId server).receivedPackets]
      exact h

/-! ## Runs -/

theorem tick_moves (clock : TickClock) {server : HktReliableUdpServer Addr}
    (hqueue : HearsQueue hears server) : Moves hears server (server.tick clock) :=
  ((processReceivedPackets_moves _ hqueue).trans (checkForResends_moves _ _)).trans
    (checkForTimeouts_moves _ _)

theorem receive_moves (peerAddress : Addr) {receivedData : Bytes}
    (hhears : hears (Platform.toString peerAddress) (PacketHeader.ofBytes receivedData))
    (server : HktReliableUdpServer Addr) :
    Moves hears server (server.receive peerAddress receivedData) := by
  unfold receive
  split
  · refine .single (.environment rfl rfl rfl fun hqueue packet hpacket => ?_)
    rcases List.mem_append.mp hpacket with hpacket | hpacket
    · exact hqueue packet hpacket
    · obtain rfl := List.mem_singleton.mp hpacket
      exact hhears
  · exact .refl

/-- Every event is a chain of moves, provided that the packets in the queue and the one
that is received carry headers that may be processed. -/
theorem step_moves_of_hearsQueue {server : HktReliableUdpServer Addr} (event : ServerEvent Addr)
    (hqueue : HearsQueue hears server)
    (hreceive : ∀ peerAddress receivedData, event = .receive peerAddress receivedData →
      hears (Platform.toString peerAddress) (PacketHeader.ofBytes receivedData)) :
    Moves hears server (server.step event) := by
  cases event with
  | start bound => exact .single (.environment rfl rfl rfl id)
  | stop =>
      refine .single ?_
      simp only [step, stop]
      split <;> exact .environment rfl rfl rfl id
  | receive peerAddress receivedData =>
      exact receive_moves peerAddress (hreceive peerAddress receivedData rfl) server
  | tick clock => exact tick_moves clock hqueue
  | sendTo now dstAddr data => exact sendTo_moves now dstAddr data server
  | broadcastToGroup clock groupId data excludeAddr =>
      exact broadcastToGroup_moves clock groupId data excludeAddr server
  | joinGroup clientAddr groupId => exact .single (.joinGroup clientAddr groupId)
  | leaveGroup clientAddr groupId => exact .single (.leaveGroup clientAddr groupId)

theorem step_moves (server : HktReliableUdpServer Addr) (event : ServerEvent Addr) :
    Moves anyHeader server (server.step event) :=
  step_moves_of_hearsQueue event (fun _ _ => trivial) fun _ _ _ => trivial

/-- The states of a server that was constructed and then run on any events. -/
def Reachable (server : HktReliableUdpServer Addr) : Prop :=
  ∃ events, server = run step {} events

theorem Reachable.of_moves {P : HktReliableUdpServer Addr → Prop} (hinit : P {})
    (hmove : ∀ before after, Move anyHeader before after → P before → P after)
    {server : HktReliableUdpServer Addr} (h : Reachable server) : P server := by
  obtain ⟨events, rfl⟩ := h
  exact run_of_moves step_moves hinit hmove events

end HktReliableUdpServer

end HktBase.CustomNet
