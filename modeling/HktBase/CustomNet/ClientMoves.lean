import HktBase.Library.Run
import HktBase.CustomNet.Client

/-!
# The moves of the client

Every function of the client is a chain of the moves listed here, as for the server.
The packet that `ProcessReceivedPackets` is at stays at the head of `incomingPackets`
until its last move, so that a move can name the packet it belongs to.

`Move` takes two conditions: on the states in which `Connect` may open a socket, and
on the datagrams that may arrive.  They are `anyState` and `anyDatagram` where every run
is meant, and restrict the runs where a result is about clients that connect in certain
states or are sent certain datagrams only.
-/

namespace HktBase.CustomNet

open Relation Transition

variable {Addr : Type}

namespace HktReliableUdpClient

/-! ## What the functions send -/

section

variable (client : HktReliableUdpClient Addr)

@[simp] theorem trace_emit (action : ClientAction) :
    (client.emit action).trace = client.trace ++ [action] := rfl

/-- The datagram of a packet without a sequence number. -/
def controlDatagram (type : PacketType) (data : Bytes) : Bytes :=
  PacketHeader.toBytes
    { type := type
      sequence := 0
      lastAckedSequence := client.receivedSequence
      ackBitfield := client.receivedAckBitfield } ++ data

/-- The datagram of the next data packet. -/
def dataDatagram (data : Bytes) : Bytes :=
  PacketHeader.toBytes
    { type := .data
      sequence := client.sentSequence + 1
      lastAckedSequence := client.receivedSequence
      ackBitfield := client.receivedAckBitfield } ++ data

/-- The client after it has sent a data packet. -/
def afterSend (now : Time) (data : Bytes) : HktReliableUdpClient Addr :=
  { client with
    sentSequence := client.sentSequence + 1
    pendingAckPackets := client.pendingAckPackets.add (client.sentSequence + 1)
      { packetData := client.dataDatagram data, sentTime := now }
    trace := client.trace ++
      [.socketSendTo (client.dataDatagram data), .sentData (client.sentSequence + 1) now] }

/-- What the loop of `CheckForResends` sends. -/
def resendActions (currentTime : Time) : List ClientAction :=
  (resendPending currentTime client.pendingAckPackets).resent.flatMap fun packet =>
    [if client.clientSocket then .socketSendTo packet.2 else .nullSocket,
      .resent packet.1 currentTime]

/-- The client after the loop of `CheckForResends`. -/
def afterResend (currentTime : Time) : HktReliableUdpClient Addr :=
  { client with
    pendingAckPackets := (resendPending currentTime client.pendingAckPackets).pending
    trace := client.trace ++ client.resendActions currentTime }

/-- The loop of `CheckForResends` sends copies and counts them, and does nothing else. -/
theorem mem_resendActions_cases {client : HktReliableUdpClient Addr} {currentTime : Time}
    {action : ClientAction} (haction : action ∈ client.resendActions currentTime) :
    (∃ packetData, action = .socketSendTo packetData) ∨ action = .nullSocket ∨
      ∃ sequence, action = .resent sequence currentTime := by
  obtain ⟨packet, -, hpacket⟩ := List.mem_flatMap.mp haction
  rcases List.mem_pair.mp hpacket with rfl | rfl
  · split
    · exact Or.inl ⟨packet.2, rfl⟩
    · exact Or.inr (Or.inl rfl)
  · exact Or.inr (Or.inr ⟨packet.1, rfl⟩)

theorem sendPacket_control {type : PacketType} (htype : type ≠ .data) (data : Bytes) (now : Time) :
    client.sendPacket data type now =
      if client.clientSocket && client.serverAddr.isSome then
        client.emit (.socketSendTo (client.controlDatagram type data))
      else client := by
  unfold sendPacket
  split
  · next hsend =>
      obtain ⟨hsocket, -⟩ := Bool.and_eq_true_iff.mp hsend
      exact congrArg (fun action => client.emit action) (if_pos hsocket)
  · rfl

theorem sendPacket_data (data : Bytes) (now : Time) :
    client.sendPacket data .data now =
      if client.clientSocket && client.serverAddr.isSome then client.afterSend now data
      else client := by
  unfold sendPacket
  split
  · next hsend =>
      obtain ⟨hsocket, -⟩ := Bool.and_eq_true_iff.mp hsend
      simp only [if_true, socketSendTo, afterSend, dataDatagram, emit]
      rw [if_pos hsocket, List.append_assoc]
      rfl
  · rfl

theorem foldl_resent (currentTime : Time) (resent : List (UInt32 × Bytes)) :
    resent.foldl (fun client packet => (client.socketSendTo packet.2).emit
        (.resent packet.1 currentTime)) client =
      { client with
        trace := client.trace ++ resent.flatMap fun packet =>
          [if client.clientSocket then .socketSendTo packet.2 else .nullSocket,
            .resent packet.1 currentTime] } := by
  induction resent generalizing client with
  | nil => simp
  | cons packet rest ih =>
      rw [List.foldl_cons, ih]
      simp [emit, socketSendTo]

theorem checkForResends_eq (currentTime : Time) :
    client.checkForResends currentTime =
      if (resendPending currentTime client.pendingAckPackets).limitExceeded then
        (client.afterResend currentTime).disconnect
      else client.afterResend currentTime := by
  simp only [checkForResends, foldl_resent]
  rfl

end

/-! ## Moves -/

variable [Platform Addr]

/-- `Connect` may be called in any state. -/
def anyState : HktReliableUdpClient Addr → Prop :=
  fun _ => True

/-- Any datagram may arrive. -/
def anyDatagram : Bytes → Prop :=
  fun _ => True

/-- One move of the client, where `Connect` opens sockets only in `allowed` states and
only the datagrams of `arrives` arrive. -/
inductive Move (allowed : HktReliableUdpClient Addr → Prop) (arrives : Bytes → Prop) :
    HktReliableUdpClient Addr → HktReliableUdpClient Addr → Prop
  /-- The thread or the socket changes. -/
  | environment {client : HktReliableUdpClient Addr} (clientSocket : Bool)
      (serverAddr : Option Addr) (receiverThread bIsStopping : Bool) :
      Move allowed arrives client
        { client with
          clientSocket := clientSocket
          serverAddr := serverAddr
          receiverThread := receiverThread
          bIsStopping := bIsStopping }
  | connect {client : HktReliableUdpClient Addr} (serverAddr : Addr) : allowed client →
      Move allowed arrives client
        ({ client with
          clientSocket := true
          serverAddr := some serverAddr
          receiverThread := true
          bIsStopping := false }.emit .connect)
  | control {client : HktReliableUdpClient Addr} {type : PacketType} (data : Bytes) :
      type ≠ .data → (type = .connect ∨ client.bIsConnected = true) →
      Move allowed arrives client (client.emit (.socketSendTo (client.controlDatagram type data)))
  | disconnect {client : HktReliableUdpClient Addr} :
      Move allowed arrives client ({ client with bIsConnected := false }.emit .disconnect)
  /-- `Send` on a connected client without a socket. -/
  | sendNothing {client : HktReliableUdpClient Addr} (data : Bytes) :
      Move allowed arrives client (client.emit (.send data))
  | send {client : HktReliableUdpClient Addr} (now : Time) (data : Bytes) :
      client.bIsConnected = true →
      Move allowed arrives client ((client.emit (.send data)).afterSend now data)
  | receive {client : HktReliableUdpClient Addr} (packetData : Bytes) : arrives packetData →
      Move allowed arrives client ({ client with
        incomingPackets := client.incomingPackets ++ [packetData] }.emit (.received packetData))
  /-- A packet that is not Data leaves the queue. -/
  | skip {client : HktReliableUdpClient Addr} {packetData : Bytes} {rest : List Bytes} :
      client.incomingPackets = packetData :: rest →
      (∀ sequence, ¬ IsDataPacket sequence packetData) →
      Move allowed arrives client { client with incomingPackets := rest }
  | handshake {client : HktReliableUdpClient Addr} {packetData : Bytes} {rest : List Bytes} :
      client.incomingPackets = packetData :: rest → client.bIsConnected = false →
      CompletesHandshake packetData →
      Move allowed arrives client ({ client with bIsConnected := true }.emit .handshakeComplete)
  | processAck {client : HktReliableUdpClient Addr} {packetData : Bytes} {rest : List Bytes} :
      client.incomingPackets = packetData :: rest →
      Move allowed arrives client (client.processAck (PacketHeader.ofBytes packetData))
  /-- A Data packet leaves the queue, and its payload goes to the game logic. -/
  | accept {client : HktReliableUdpClient Addr} {packetData : Bytes} {rest : List Bytes}
      {sequence : UInt32} :
      client.incomingPackets = packetData :: rest → IsDataPacket sequence packetData →
      Move allowed arrives client
        ({ client.updateReceivedState sequence with
          incomingPackets := rest
          receivedDataPackets := client.receivedDataPackets ++ [payloadOf packetData]
        }.emit (.enqueued sequence (payloadOf packetData)))
  | poll {client : HktReliableUdpClient Addr} {payload : Bytes} {rest : List Bytes} :
      client.receivedDataPackets = payload :: rest →
      Move allowed arrives client ({ client with receivedDataPackets := rest }.emit (.polled payload))
  | resend {client : HktReliableUdpClient Addr} (currentTime : Time) :
      client.bIsConnected = true → Move allowed arrives client (client.afterResend currentTime)

variable {allowed : HktReliableUdpClient Addr → Prop} {arrives : Bytes → Prop}

/-- A chain of moves. -/
abbrev Moves (allowed : HktReliableUdpClient Addr → Prop) (arrives : Bytes → Prop) :
    HktReliableUdpClient Addr → HktReliableUdpClient Addr → Prop :=
  ReflTransGen (Move allowed arrives)

theorem sendPacket_moves {client : HktReliableUdpClient Addr} {type : PacketType}
    (htype : type ≠ .data) (hstate : type = .connect ∨ client.bIsConnected = true) (data : Bytes)
    (now : Time) : Moves allowed arrives client (client.sendPacket data type now) := by
  rw [sendPacket_control client htype]
  split
  · exact .single (.control data htype hstate)
  · exact .refl

theorem connect_moves {client : HktReliableUdpClient Addr} (serverAddr : Addr)
    (bIsValid bound : Bool) (hallowed : bIsValid = true → bound = true → allowed client) :
    Moves allowed arrives client (client.connect serverAddr bIsValid bound).1 := by
  unfold connect
  dsimp only
  split
  · next hvalid =>
      split
      · next hbound =>
          subst hbound
          refine .head (.connect serverAddr (hallowed hvalid rfl)) ?_
          exact sendPacket_moves (by simp) (Or.inl rfl) [] 0
      · exact .single (.environment _ _ client.receiverThread client.bIsStopping)
  · exact .single (.environment client.clientSocket _ client.receiverThread client.bIsStopping)

theorem disconnect_moves (client : HktReliableUdpClient Addr) :
    Moves allowed arrives client client.disconnect := by
  have hclose : ∀ open' : HktReliableUdpClient Addr, Moves allowed arrives open'
      ({ open' with
        bIsStopping := true
        receiverThread := false
        clientSocket := false
        bIsConnected := false }.emit .disconnect) := fun open' =>
    .tail (.single (.environment false open'.serverAddr false true)) .disconnect
  unfold disconnect
  dsimp only
  split
  · next hconnected =>
      exact (sendPacket_moves (by simp) (Or.inr hconnected) [] 0).trans (hclose _)
  · exact hclose _

theorem send_moves (now : Time) (data : Bytes) (client : HktReliableUdpClient Addr) :
    Moves allowed arrives client (client.send now data) := by
  unfold send
  split
  · next hconnected =>
      rw [sendPacket_data]
      split
      · exact .single (.send now data hconnected)
      · exact .single (.sendNothing data)
  · exact .refl

/-! ## The queue -/

/-- Processing a packet neither reads nor changes what is queued behind it. -/
theorem processReceivedPacket_incomingPackets (client : HktReliableUdpClient Addr)
    (queue : List Bytes) (packetData : Bytes) :
    { client with incomingPackets := queue }.processReceivedPacket packetData =
      { client.processReceivedPacket packetData with incomingPackets := queue } := by
  unfold processReceivedPacket
  dsimp only
  split
  · rfl
  · split
    · split <;> rfl
    · split <;> rfl

/-- The handshake of `ProcessReceivedPackets`. -/
def afterHandshake (packetData : Bytes) (client : HktReliableUdpClient Addr) :
    HktReliableUdpClient Addr :=
  if client.bIsConnected = false ∧ CompletesHandshake packetData then
    { client with bIsConnected := true }.emit .handshakeComplete
  else client

/-- What `ProcessReceivedPackets` does with the payload of a Data packet. -/
def afterPayload (packetData : Bytes) (client : HktReliableUdpClient Addr) :
    HktReliableUdpClient Addr :=
  let header := PacketHeader.ofBytes packetData
  if header.type = .data then
    { client.updateReceivedState header.sequence with
      receivedDataPackets := client.receivedDataPackets ++ [payloadOf packetData]
    }.emit (.enqueued header.sequence (payloadOf packetData))
  else client

theorem processReceivedPacket_eq {packetData : Bytes}
    (hlong : sizeofPacketHeader ≤ packetData.length) (client : HktReliableUdpClient Addr) :
    client.processReceivedPacket packetData =
      ((client.afterHandshake packetData).processAck
        (PacketHeader.ofBytes packetData)).afterPayload packetData := by
  have hhandshake : (client.bIsConnected = false ∧ CompletesHandshake packetData) ↔
      (!client.bIsConnected && decide ((PacketHeader.ofBytes packetData).type = .ack ∧
        (PacketHeader.ofBytes packetData).lastAckedSequence = 0)) = true := by
    simp [CompletesHandshake, hlong]
  simp only [processReceivedPacket, if_neg (not_lt.mpr hlong), afterHandshake, hhandshake]
  rfl

theorem processReceivedPacket_moves {client : HktReliableUdpClient Addr} {packetData : Bytes}
    {rest : List Bytes} (hqueue : client.incomingPackets = packetData :: rest) :
    Moves allowed arrives client
      { client.processReceivedPacket packetData with incomingPackets := rest } := by
  by_cases hlong : sizeofPacketHeader ≤ packetData.length
  · have hhandshake : Moves allowed arrives client (client.afterHandshake packetData) ∧
        (client.afterHandshake packetData).incomingPackets = packetData :: rest := by
      unfold afterHandshake
      split
      · next hcompletes =>
          exact ⟨.single (.handshake hqueue hcompletes.1 hcompletes.2), hqueue⟩
      · exact ⟨.refl, hqueue⟩
    -- the last move takes the packet off the queue, with its payload or without
    have hpayload : ∀ current : HktReliableUdpClient Addr,
        current.incomingPackets = packetData :: rest →
        Moves allowed arrives current
          { current.afterPayload packetData with incomingPackets := rest } := by
      intro current hcurrent
      unfold afterPayload
      dsimp only
      split
      · next htype => exact .single (.accept hcurrent ⟨hlong, htype, rfl⟩)
      · next htype => exact .single (.skip hcurrent fun sequence hdata => htype hdata.2.1)
    rw [processReceivedPacket_eq hlong]
    exact hhandshake.1.trans (.head (.processAck hhandshake.2) (hpayload _ hhandshake.2))
  · rw [processReceivedPacket, if_pos (not_le.mp hlong)]
    exact .single (.skip hqueue fun sequence hdata => hlong hdata.1)

theorem foldl_processReceivedPacket_moves (packets : List Bytes)
    {client : HktReliableUdpClient Addr} (hqueue : client.incomingPackets = packets) :
    Moves allowed arrives client
      (packets.foldl processReceivedPacket { client with incomingPackets := [] }) := by
  induction packets generalizing client with
  | nil =>
      rw [List.foldl_nil, ← hqueue]
  | cons packetData rest ih =>
      refine (processReceivedPacket_moves hqueue).trans ?_
      rw [List.foldl_cons, processReceivedPacket_incomingPackets client []]
      exact @ih { client.processReceivedPacket packetData with incomingPackets := rest } rfl

theorem processReceivedPackets_moves (client : HktReliableUdpClient Addr) :
    Moves allowed arrives client client.processReceivedPackets :=
  foldl_processReceivedPacket_moves client.incomingPackets rfl

/-! ## What is queued after a call -/

omit [Platform Addr] in
theorem incomingPackets_sendPacket (client : HktReliableUdpClient Addr) (data : Bytes)
    (type : PacketType) (now : Time) :
    (client.sendPacket data type now).incomingPackets = client.incomingPackets := by
  by_cases htype : type = .data
  · subst htype
    rw [sendPacket_data]
    split <;> rfl
  · rw [sendPacket_control client htype]
    split <;> rfl

omit [Platform Addr] in
theorem incomingPackets_disconnect (client : HktReliableUdpClient Addr) :
    client.disconnect.incomingPackets = client.incomingPackets := by
  unfold disconnect
  dsimp only
  split
  · exact incomingPackets_sendPacket client [] .disconnect 0
  · rfl

/-- `Tick` empties the queue. -/
theorem incomingPackets_tick (client : HktReliableUdpClient Addr) (now : Time) :
    (client.tick now).incomingPackets = [] := by
  have hprocess : ∀ packetData (current : HktReliableUdpClient Addr),
      (current.processReceivedPacket packetData).incomingPackets = current.incomingPackets := by
    intro packetData current
    exact congrArg (fun next => next.incomingPackets)
      (processReceivedPacket_incomingPackets current current.incomingPackets packetData)
  have hempty : client.processReceivedPackets.incomingPackets = [] := by
    unfold processReceivedPackets
    -- the loop starts with an emptied queue, and no round adds to it
    induction client.incomingPackets using List.reverseRecOn with
    | nil => rfl
    | append_singleton packets packetData ih =>
        rw [List.foldl_append]
        exact (hprocess packetData _).trans ih
  unfold tick
  dsimp only
  split
  · rw [checkForResends_eq]
    split
    · rw [incomingPackets_disconnect]
      exact hempty
    · exact hempty
  · exact hempty

/-- No other call touches the queue.  `Connect` and `Disconnect` do not either, which is how
datagrams of one attempt come to be processed in another. -/
theorem incomingPackets_step (client : HktReliableUdpClient Addr) (event : ClientEvent Addr)
    (htick : ∀ now, event ≠ .tick now) (hreceive : ∀ packetData, event ≠ .receive packetData) :
    (client.step event).incomingPackets = client.incomingPackets := by
  cases event with
  | connect serverAddr bIsValid bound =>
      simp only [step, connect]
      split
      · split
        · exact incomingPackets_sendPacket _ [] .connect 0
        · rfl
      · rfl
  | disconnect => exact incomingPackets_disconnect client
  | send now data =>
      simp only [step, send]
      split
      · exact incomingPackets_sendPacket _ data .data now
      · rfl
  | joinGroup groupId =>
      simp only [step, joinGroup]
      split
      · exact incomingPackets_sendPacket _ _ .joinGroup 0
      · rfl
  | leaveGroup =>
      simp only [step, leaveGroup]
      split
      · exact incomingPackets_sendPacket _ _ .leaveGroup 0
      · rfl
  | tick now => exact absurd rfl (htick now)
  | poll =>
      simp only [step, poll]
      split <;> rfl
  | receive packetData => exact absurd rfl (hreceive packetData)

/-! ## Runs -/

theorem tick_moves (now : Time) (client : HktReliableUdpClient Addr) :
    Moves allowed arrives client (client.tick now) := by
  refine (processReceivedPackets_moves client).trans ?_
  unfold tick
  dsimp only
  split
  · next hconnected =>
      rw [checkForResends_eq]
      split
      · exact .head (.resend now hconnected) (disconnect_moves _)
      · exact .single (.resend now hconnected)
  · exact .refl

/-- Every event is a chain of moves, provided that a `Connect` that opens a socket
does so in an allowed state and a datagram that arrives may. -/
theorem step_moves_of_allowed (client : HktReliableUdpClient Addr) (event : ClientEvent Addr)
    (hallowed : ∀ serverAddr, event = .connect serverAddr true true → allowed client)
    (harrives : ∀ packetData, event = .receive packetData → arrives packetData) :
    Moves allowed arrives client (client.step event) := by
  cases event with
  | connect serverAddr bIsValid bound =>
      refine connect_moves serverAddr bIsValid bound fun hvalid hbound => ?_
      exact hallowed serverAddr (by rw [hvalid, hbound])
  | disconnect => exact disconnect_moves client
  | send now data => exact send_moves now data client
  | joinGroup groupId =>
      simp only [step, joinGroup]
      split
      · next hconnected => exact sendPacket_moves (by simp) (Or.inr hconnected) _ 0
      · exact .refl
  | leaveGroup =>
      simp only [step, leaveGroup]
      split
      · next hconnected => exact sendPacket_moves (by simp) (Or.inr hconnected) _ 0
      · exact .refl
  | tick now => exact tick_moves now client
  | poll =>
      simp only [step, poll]
      split
      · exact .refl
      · next hqueue => exact .single (.poll hqueue)
  | receive packetData =>
      simp only [step, receive]
      split
      · exact .single (.receive packetData (harrives packetData rfl))
      · exact .refl

theorem step_moves (client : HktReliableUdpClient Addr) (event : ClientEvent Addr) :
    Moves anyState anyDatagram client (client.step event) :=
  step_moves_of_allowed client event (fun _ _ => trivial) fun _ _ => trivial

end HktReliableUdpClient

end HktBase.CustomNet
