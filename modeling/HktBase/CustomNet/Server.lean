import HktBase.CustomNet.Reliability

/-!
# The server

`FHktReliableUdpServer` function by function.  A state holds the members of the
class and a trace: the uses of the socket and the steps that the source reports
with `UE_LOG`, oldest first.  No function reads the trace.

* A pointer to an engine object is modelled by whether it is null: `listenSocket`
  and `receiverThread` are flags.  A send through a null socket is an action of its
  own, `nullSocket`.
* A connection reached through a shared pointer is changed by storing the changed
  record under its key again.
* `ProcessReceivedPackets` and `BroadcastToGroup` read the clock once for each
  packet: their clock argument is the sequence of the readings.
-/

namespace HktBase.CustomNet

/-- `FReceivedPacket`. -/
structure ReceivedPacket (Addr : Type) where
  peerAddress : Addr
  data : Bytes

/-- `FClientConnection`. -/
structure ClientConnection (Addr : Type) extends ReceiveWindow where
  address : Addr
  sentSequence : UInt32 := 0
  lastReceiveTime : Time := 0
  groupIds : TSet Int32 := ∅
  pendingAckPackets : TMap UInt32 PendingPacket := ∅

/-- The steps of the server that the trace records. -/
inductive ServerAction (Addr : Type)
  /-- `ListenSocket->SendTo`. -/
  | socketSendTo (destination : Addr) (packetData : Bytes)
  /-- The same call through a null `ListenSocket`. -/
  | nullSocket
  | newConnection (addrStr : String)
  | disconnected (addrStr : String)
  /-- `ProcessAck` is called for a connection. -/
  | processAck (addrStr : String) (header : PacketHeader)
  /-- `SendTo` has numbered and stored a packet. -/
  | sentData (addrStr : String) (sequence : UInt32) (sentTime : Time)
  | resent (addrStr : String) (sequence : UInt32) (sentTime : Time)
  /-- `CheckForResends` has read the clock. -/
  | checkForResends (currentTime : Time)
  /-- `ClientsToDisconnect.Add`. -/
  | resendLimit (addrStr : String)
  deriving DecidableEq

structure HktReliableUdpServer (Addr : Type) where
  listenSocket : Bool := false
  receiverThread : Bool := false
  bIsStopping : Bool := false
  receivedPackets : List (ReceivedPacket Addr) := []
  connections : TMap String (ClientConnection Addr) := ∅
  groups : TMap Int32 (TMap String Addr) := ∅
  trace : List (ServerAction Addr) := []

/-- `ClientTimeoutDuration`. -/
def clientTimeoutDuration : Time := 5

variable {Addr : Type}

namespace ClientConnection

variable [Platform Addr]

/-- `UpdateReceivedState`. -/
def updateReceivedState (connection : ClientConnection Addr) (incomingSequence : UInt32) :
    ClientConnection Addr :=
  { connection with
    toReceiveWindow := connection.toReceiveWindow.updateReceivedState
      (Platform.undefinedShift Addr) incomingSequence }

omit [Platform Addr] in
/-- `ProcessAck`. -/
def processAck (header : PacketHeader) (connection : ClientConnection Addr) :
    ClientConnection Addr :=
  { connection with
    pendingAckPackets := CustomNet.processAck header connection.pendingAckPackets }

end ClientConnection

namespace HktReliableUdpServer

def emit (action : ServerAction Addr) (server : HktReliableUdpServer Addr) :
    HktReliableUdpServer Addr :=
  { server with trace := server.trace ++ [action] }

/-- `ListenSocket->SendTo`. -/
def socketSendTo (destination : Addr) (packetData : Bytes) (server : HktReliableUdpServer Addr) :
    HktReliableUdpServer Addr :=
  server.emit (if server.listenSocket then .socketSendTo destination packetData else .nullSocket)

/-- Write a connection record back through its pointer, or register a new one. -/
def setConnection (addrStr : String) (connection : ClientConnection Addr)
    (server : HktReliableUdpServer Addr) : HktReliableUdpServer Addr :=
  { server with connections := server.connections.add addrStr connection }

/-! ## Thread and socket -/

/-- `Start`: the thread runs `Init` before `FRunnableThread::Create` returns.
`bound` is whether the socket could be bound. -/
def start (bound : Bool) (server : HktReliableUdpServer Addr) : HktReliableUdpServer Addr :=
  { server with receiverThread := true, listenSocket := bound }

/-- `Stop`. -/
def stop (server : HktReliableUdpServer Addr) : HktReliableUdpServer Addr :=
  if server.bIsStopping then server
  else { server with bIsStopping := true, receiverThread := false, listenSocket := false }

/-- The receiver thread runs its loop on an open socket. -/
def isReceiving (server : HktReliableUdpServer Addr) : Bool :=
  server.receiverThread && server.listenSocket && !server.bIsStopping

/-- `Run`: the receiver thread enqueues a datagram. -/
def receive (peerAddress : Addr) (receivedData : Bytes) (server : HktReliableUdpServer Addr) :
    HktReliableUdpServer Addr :=
  if server.isReceiving && decide (receivedData.length > 0) then
    { server with receivedPackets := server.receivedPackets ++ [⟨peerAddress, receivedData⟩] }
  else server

/-! ## Groups -/

/-- Remove a member from the group map of one id, and the map with its last member. -/
def removeMember (addrStr : String) (groups : TMap Int32 (TMap String Addr)) (groupId : Int32) :
    TMap Int32 (TMap String Addr) :=
  match groups.find groupId with
  | none => groups
  | some groupMembers =>
      -- the member is removed through a pointer into `Groups`, then the empty group from it
      let remaining := groupMembers.remove addrStr
      if remaining.isEmpty then (groups.add groupId remaining).remove groupId
      else groups.add groupId remaining

/-- `DisconnectClient`. -/
def disconnectClient (addrStr : String) (server : HktReliableUdpServer Addr) :
    HktReliableUdpServer Addr :=
  match server.connections.find addrStr with
  | none => server
  | some connection =>
      { server with
        connections := server.connections.remove addrStr
        groups := connection.groupIds.keys.foldl (removeMember addrStr) server.groups
      }.emit (.disconnected addrStr)

variable [Platform Addr]

/-- `JoinGroup`. -/
def joinGroup (clientAddr : Addr) (groupId : Int32) (server : HktReliableUdpServer Addr) :
    HktReliableUdpServer Addr :=
  let addrStr := Platform.toString clientAddr
  match server.connections.find addrStr with
  | none => server
  | some connection =>
      if connection.groupIds.contains groupId then server
      else
        -- `FindOrAdd`
        let groupMembers := (server.groups.find groupId).getD ∅
        { server with
          connections := server.connections.add addrStr
            { connection with groupIds := connection.groupIds.add groupId () }
          groups := server.groups.add groupId (groupMembers.add addrStr clientAddr) }

/-- `LeaveGroup`. -/
def leaveGroup (clientAddr : Addr) (groupId : Int32) (server : HktReliableUdpServer Addr) :
    HktReliableUdpServer Addr :=
  let addrStr := Platform.toString clientAddr
  match server.connections.find addrStr with
  | none => server
  | some connection =>
      if connection.groupIds.contains groupId then
        { server with
          connections := server.connections.add addrStr
            { connection with groupIds := connection.groupIds.remove groupId }
          groups := removeMember addrStr server.groups groupId }
      else server

/-! ## Sending -/

omit [Platform Addr] in
/-- `SendAck`. -/
def sendAck (connection : ClientConnection Addr) (server : HktReliableUdpServer Addr) :
    HktReliableUdpServer Addr :=
  let ackHeader : PacketHeader :=
    { type := .ack
      sequence := 0
      lastAckedSequence := connection.receivedSequence
      ackBitfield := connection.receivedAckBitfield }
  server.socketSendTo connection.address ackHeader.toBytes

/-- `SendTo`; `none` is a null address. -/
def sendTo (now : Time) (dstAddr : Option Addr) (data : Bytes)
    (server : HktReliableUdpServer Addr) : HktReliableUdpServer Addr :=
  match server.listenSocket, dstAddr with
  | true, some dstAddr =>
      let addrStr := Platform.toString dstAddr
      match server.connections.find addrStr with
      | none => server
      | some connection =>
          let sentSequence := connection.sentSequence + 1
          let header : PacketHeader :=
            { type := .data
              sequence := sentSequence
              lastAckedSequence := connection.receivedSequence
              ackBitfield := connection.receivedAckBitfield }
          let packetData := header.toBytes ++ data
          let pending := connection.pendingAckPackets.add sentSequence
            { packetData := packetData, sentTime := now }
          ((server.socketSendTo dstAddr packetData).setConnection addrStr
            { connection with sentSequence := sentSequence, pendingAckPackets := pending }).emit
            (.sentData addrStr sentSequence now)
  | _, _ => server

/-- `BroadcastToGroup`. -/
def broadcastToGroup (clock : ℕ → Time) (groupId : Int32) (data : Bytes)
    (excludeAddr : Option Addr) (server : HktReliableUdpServer Addr) :
    HktReliableUdpServer Addr :=
  match server.groups.find groupId with
  | none => server
  | some groupMembers =>
      groupMembers.entries.zipIdx.foldl
        (fun server member =>
          let memberAddr := member.1.2
          if excludeAddr.all fun address => !Platform.compareEndpoints memberAddr address then
            server.sendTo (clock member.2) (some memberAddr) data
          else server)
        server

/-! ## Received packets -/

/-- `HandleNewConnection`. -/
def handleNewConnection (now : Time) (newAddr : Addr) (server : HktReliableUdpServer Addr) :
    HktReliableUdpServer Addr :=
  let addrStr := Platform.toString newAddr
  if server.connections.contains addrStr then server
  else
    let connection : ClientConnection Addr := { address := newAddr, lastReceiveTime := now }
    ((server.setConnection addrStr connection).emit (.newConnection addrStr)).sendAck connection

/-- The `switch` of `ProcessReceivedPackets` on a packet from a registered client. -/
def dispatch (packet : ReceivedPacket Addr) (connection : ClientConnection Addr)
    (server : HktReliableUdpServer Addr) : HktReliableUdpServer Addr :=
  let header := PacketHeader.ofBytes packet.data
  let clientAddrStr := Platform.toString packet.peerAddress
  match header.type with
  | .data =>
      let connection := connection.updateReceivedState header.sequence
      (server.setConnection clientAddrStr connection).sendAck connection
  -- `ProcessAck` has done the work
  | .ack => server
  | .disconnect => server.disconnectClient clientAddrStr
  | .joinGroup =>
      if packet.data.length - sizeofPacketHeader = sizeofInt32 then
        server.joinGroup packet.peerAddress (readInt32 packet.data sizeofPacketHeader)
      else server
  | .leaveGroup =>
      if packet.data.length - sizeofPacketHeader = sizeofInt32 then
        server.leaveGroup packet.peerAddress (readInt32 packet.data sizeofPacketHeader)
      else server
  -- there is no case for Connect, Ping and Pong
  | _ => server

/-- The loop body of `ProcessReceivedPackets`. -/
def processReceivedPacket (now : Time) (packet : ReceivedPacket Addr)
    (server : HktReliableUdpServer Addr) : HktReliableUdpServer Addr :=
  if packet.data.length < sizeofPacketHeader then server
  else
    let header := PacketHeader.ofBytes packet.data
    let clientAddrStr := Platform.toString packet.peerAddress
    match server.connections.find clientAddrStr with
    | none =>
        -- a stranger is heard only if it wants to connect
        if header.type = .connect then server.handleNewConnection now packet.peerAddress
        else server
    | some connection =>
        let connection := { connection with lastReceiveTime := now }.processAck header
        ((server.setConnection clientAddrStr connection).emit
          (.processAck clientAddrStr header)).dispatch packet connection

/-- `ProcessReceivedPackets`. -/
def processReceivedPackets (clock : ℕ → Time) (server : HktReliableUdpServer Addr) :
    HktReliableUdpServer Addr :=
  server.receivedPackets.zipIdx.foldl
    (fun server packet => server.processReceivedPacket (clock packet.2) packet.1)
    { server with receivedPackets := [] }

/-! ## Sweeps -/

omit [Platform Addr] in
/-- The loop body of `CheckForResends` for one connection, with `ClientsToDisconnect`
as it has been collected so far. -/
def resendTo (currentTime : Time) (sweep : HktReliableUdpServer Addr × List String)
    (addrStr : String) : HktReliableUdpServer Addr × List String :=
  let (server, clientsToDisconnect) := sweep
  match server.connections.find addrStr with
  | none => sweep
  | some connection =>
      let packets := resendPending currentTime connection.pendingAckPackets
      let server := packets.resent.foldl
        (fun server packet =>
          (server.socketSendTo connection.address packet.2).emit
            (.resent addrStr packet.1 currentTime))
        (server.setConnection addrStr { connection with pendingAckPackets := packets.pending })
      -- the client is dropped after the sweep, not from inside it
      if packets.limitExceeded then
        (server.emit (.resendLimit addrStr), clientsToDisconnect ++ [addrStr])
      else (server, clientsToDisconnect)

omit [Platform Addr] in
/-- `CheckForResends`. -/
def checkForResends (currentTime : Time) (server : HktReliableUdpServer Addr) :
    HktReliableUdpServer Addr :=
  let (server, clientsToDisconnect) := server.connections.keys.foldl (resendTo currentTime)
    (server.emit (.checkForResends currentTime), [])
  clientsToDisconnect.foldl (fun server addrStr => server.disconnectClient addrStr) server

omit [Platform Addr] in
/-- `CheckForTimeouts`. -/
def checkForTimeouts (currentTime : Time) (server : HktReliableUdpServer Addr) :
    HktReliableUdpServer Addr :=
  let timedOutClients := server.connections.entries.filter fun elem =>
    currentTime - elem.2.lastReceiveTime > clientTimeoutDuration
  (timedOutClients.map Prod.fst).foldl (fun server addrStr => server.disconnectClient addrStr)
    server

/-- The clock readings of one `Tick`. -/
structure TickClock where
  packet : ℕ → Time
  resend : Time
  timeout : Time

/-- `Tick`. -/
def tick (clock : TickClock) (server : HktReliableUdpServer Addr) : HktReliableUdpServer Addr :=
  ((server.processReceivedPackets clock.packet).checkForResends clock.resend).checkForTimeouts
    clock.timeout

end HktReliableUdpServer

/-! ## Runs -/

/-- What the environment does with a server: calls of its public functions and
datagrams that reach its socket. -/
inductive ServerEvent (Addr : Type)
  | start (bound : Bool)
  | stop
  | receive (peerAddress : Addr) (receivedData : Bytes)
  | tick (clock : HktReliableUdpServer.TickClock)
  | sendTo (now : Time) (dstAddr : Option Addr) (data : Bytes)
  | broadcastToGroup (clock : ℕ → Time) (groupId : Int32) (data : Bytes)
      (excludeAddr : Option Addr)
  | joinGroup (clientAddr : Addr) (groupId : Int32)
  | leaveGroup (clientAddr : Addr) (groupId : Int32)

def HktReliableUdpServer.step [Platform Addr] (server : HktReliableUdpServer Addr) :
    ServerEvent Addr → HktReliableUdpServer Addr
  | .start bound => server.start bound
  | .stop => server.stop
  | .receive peerAddress receivedData => server.receive peerAddress receivedData
  | .tick clock => server.tick clock
  | .sendTo now dstAddr data => server.sendTo now dstAddr data
  | .broadcastToGroup clock groupId data excludeAddr =>
      server.broadcastToGroup clock groupId data excludeAddr
  | .joinGroup clientAddr groupId => server.joinGroup clientAddr groupId
  | .leaveGroup clientAddr groupId => server.leaveGroup clientAddr groupId

end HktBase.CustomNet
