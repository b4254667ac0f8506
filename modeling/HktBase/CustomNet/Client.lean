import HktBase.CustomNet.Reliability

/-!
# The client

`FHktReliableUdpClient` function by function, on the same conventions as the
server: the members of the class and a trace that no function reads.  The trace
also records the calls of `Connect`, `Disconnect`, `Send` and `Poll` and the
datagrams that the receiver thread enqueues, so that what happens within one
connection attempt can be told from what happened before it.
-/

namespace HktBase.CustomNet

/-- The steps of the client that the trace records. -/
inductive ClientAction
  /-- `Connect` has opened a socket: an attempt begins. -/
  | connect
  /-- `Disconnect` has returned. -/
  | disconnect
  /-- `Send` was called on a connected client. -/
  | send (data : Bytes)
  /-- `ClientSocket->SendTo`. -/
  | socketSendTo (packetData : Bytes)
  /-- The same call through a null `ClientSocket`. -/
  | nullSocket
  /-- `SendPacket` has numbered and stored a data packet. -/
  | sentData (sequence : UInt32) (sentTime : Time)
  | resent (sequence : UInt32) (sentTime : Time)
  /-- The receiver thread has enqueued a datagram. -/
  | received (packetData : Bytes)
  /-- `bIsConnected` has become true. -/
  | handshakeComplete
  | processAck (header : PacketHeader)
  /-- A payload was enqueued for the game logic. -/
  | enqueued (sequence : UInt32) (payload : Bytes)
  /-- `Poll` has returned a payload. -/
  | polled (payload : Bytes)
  deriving DecidableEq

structure HktReliableUdpClient (Addr : Type) extends ReceiveWindow where
  clientSocket : Bool := false
  serverAddr : Option Addr := none
  receiverThread : Bool := false
  bIsStopping : Bool := false
  bIsConnected : Bool := false
  receivedDataPackets : List Bytes := []
  incomingPackets : List Bytes := []
  sentSequence : UInt32 := 0
  pendingAckPackets : TMap UInt32 PendingPacket := ∅
  trace : List ClientAction := []

variable {Addr : Type}

namespace HktReliableUdpClient

def emit (action : ClientAction) (client : HktReliableUdpClient Addr) :
    HktReliableUdpClient Addr :=
  { client with trace := client.trace ++ [action] }

/-- `ClientSocket->SendTo`. -/
def socketSendTo (packetData : Bytes) (client : HktReliableUdpClient Addr) :
    HktReliableUdpClient Addr :=
  client.emit (if client.clientSocket then .socketSendTo packetData else .nullSocket)

/-! ## Sending -/

/-- `SendPacket`.  Only a data packet reads the clock, as `now`. -/
def sendPacket (data : Bytes) (type : PacketType) (client : HktReliableUdpClient Addr)
    (now : Time := 0) : HktReliableUdpClient Addr :=
  if client.clientSocket && client.serverAddr.isSome then
    -- only data packets are numbered
    let sentSequence := if type = .data then client.sentSequence + 1 else client.sentSequence
    let header : PacketHeader :=
      { type := type
        sequence := if type = .data then sentSequence else 0
        lastAckedSequence := client.receivedSequence
        ackBitfield := client.receivedAckBitfield }
    let packetData := header.toBytes ++ data
    let client := { client with sentSequence := sentSequence }.socketSendTo packetData
    if type = .data then
      { client with
        pendingAckPackets := client.pendingAckPackets.add header.sequence
          { packetData := packetData, sentTime := now }
      }.emit (.sentData header.sequence now)
    else client
  else client

/-- `Connect`, with its result.  `bIsValid` is whether the address could be parsed
and `bound` whether the socket could be bound; the thread runs `Init` before
`FRunnableThread::Create` returns. -/
def connect (serverAddr : Addr) (bIsValid bound : Bool) (client : HktReliableUdpClient Addr) :
    HktReliableUdpClient Addr × Bool :=
  let client := { client with serverAddr := some serverAddr }
  if bIsValid then
    let client := { client with clientSocket := bound }
    if bound then
      let client := { client with receiverThread := true, bIsStopping := false }
      ((client.emit .connect).sendPacket [] .connect, true)
    else (client, false)
  else (client, false)

/-- `Disconnect`. -/
def disconnect (client : HktReliableUdpClient Addr) : HktReliableUdpClient Addr :=
  let client := if client.bIsConnected then client.sendPacket [] .disconnect else client
  -- the queues, the window and the pending packets outlive the attempt
  { client with
    bIsStopping := true
    receiverThread := false
    clientSocket := false
    bIsConnected := false
  }.emit .disconnect

/-- `Send`. -/
def send (now : Time) (data : Bytes) (client : HktReliableUdpClient Addr) :
    HktReliableUdpClient Addr :=
  if client.bIsConnected then (client.emit (.send data)).sendPacket data .data now else client

/-- `JoinGroup`. -/
def joinGroup (groupId : Int32) (client : HktReliableUdpClient Addr) :
    HktReliableUdpClient Addr :=
  if client.bIsConnected then client.sendPacket (writeInt32 groupId) .joinGroup else client

/-- `LeaveGroup`. -/
def leaveGroup (client : HktReliableUdpClient Addr) : HktReliableUdpClient Addr :=
  if client.bIsConnected then client.sendPacket [] .leaveGroup else client

/-! ## Receiving -/

/-- The receiver thread runs its loop on an open socket. -/
def isReceiving (client : HktReliableUdpClient Addr) : Bool :=
  client.receiverThread && client.clientSocket && !client.bIsStopping

/-- `Run`: the receiver thread enqueues a datagram. -/
def receive (packetData : Bytes) (client : HktReliableUdpClient Addr) :
    HktReliableUdpClient Addr :=
  if client.isReceiving && decide (packetData.length > 0) then
    { client with incomingPackets := client.incomingPackets ++ [packetData] }.emit
      (.received packetData)
  else client

/-- `ProcessAck`. -/
def processAck (header : PacketHeader) (client : HktReliableUdpClient Addr) :
    HktReliableUdpClient Addr :=
  { client with
    pendingAckPackets := CustomNet.processAck header client.pendingAckPackets
  }.emit (.processAck header)

variable [Platform Addr]

/-- `UpdateReceivedState`. -/
def updateReceivedState (client : HktReliableUdpClient Addr) (incomingSequence : UInt32) :
    HktReliableUdpClient Addr :=
  { client with
    toReceiveWindow := client.toReceiveWindow.updateReceivedState
      (Platform.undefinedShift Addr) incomingSequence }

/-- The loop body of `ProcessReceivedPackets`. -/
def processReceivedPacket (client : HktReliableUdpClient Addr) (packetData : Bytes) :
    HktReliableUdpClient Addr :=
  if packetData.length < sizeofPacketHeader then client
  else
    let header := PacketHeader.ofBytes packetData
    let client :=
      if !client.bIsConnected && decide (header.type = .ack ∧ header.lastAckedSequence = 0) then
        { client with bIsConnected := true }.emit .handshakeComplete
      else client
    let client := client.processAck header
    if header.type = .data then
      -- the payload is handed over whatever the window makes of the number
      let client := client.updateReceivedState header.sequence
      let payload := payloadOf packetData
      { client with
        receivedDataPackets := client.receivedDataPackets ++ [payload]
      }.emit (.enqueued header.sequence payload)
    else client

/-- `ProcessReceivedPackets`. -/
def processReceivedPackets (client : HktReliableUdpClient Addr) : HktReliableUdpClient Addr :=
  client.incomingPackets.foldl processReceivedPacket { client with incomingPackets := [] }

omit [Platform Addr] in
/-- `Poll`, with the payload it returns. -/
def poll (client : HktReliableUdpClient Addr) : HktReliableUdpClient Addr × Option Bytes :=
  match client.receivedDataPackets with
  | [] => (client, none)
  | payload :: rest =>
      ({ client with receivedDataPackets := rest }.emit (.polled payload), some payload)

omit [Platform Addr] in
/-- `CheckForResends`. -/
def checkForResends (currentTime : Time) (client : HktReliableUdpClient Addr) :
    HktReliableUdpClient Addr :=
  let packets := resendPending currentTime client.pendingAckPackets
  let client := packets.resent.foldl
    (fun client packet =>
      (client.socketSendTo packet.2).emit (.resent packet.1 currentTime))
    { client with pendingAckPackets := packets.pending }
  if packets.limitExceeded then client.disconnect else client

/-- `Tick`. -/
def tick (now : Time) (client : HktReliableUdpClient Addr) : HktReliableUdpClient Addr :=
  let client := client.processReceivedPackets
  if client.bIsConnected then client.checkForResends now else client

end HktReliableUdpClient

/-! ## Runs -/

/-- What the environment does with a client: calls of its public functions and
datagrams that reach its socket. -/
inductive ClientEvent (Addr : Type)
  | connect (serverAddr : Addr) (bIsValid bound : Bool)
  | disconnect
  | send (now : Time) (data : Bytes)
  | joinGroup (groupId : Int32)
  | leaveGroup
  | tick (now : Time)
  | poll
  | receive (packetData : Bytes)

def HktReliableUdpClient.step [Platform Addr] (client : HktReliableUdpClient Addr) :
    ClientEvent Addr → HktReliableUdpClient Addr
  | .connect serverAddr bIsValid bound => (client.connect serverAddr bIsValid bound).1
  | .disconnect => client.disconnect
  | .send now data => client.send now data
  | .joinGroup groupId => client.joinGroup groupId
  | .leaveGroup => client.leaveGroup
  | .tick now => client.tick now
  | .poll => client.poll.1
  | .receive packetData => client.receive packetData

end HktBase.CustomNet
