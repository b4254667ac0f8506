import HktBase.CustomNet.Delivery
import HktBase.CustomNet.Transmissions
import HktBase.CustomNet.Window

/-!
# What the client says

Every datagram of the client is determined by what has happened to it before.  Its header
carries the receive window, which is what the numbers of the Data packets processed so far
have made of a fresh one, over all attempts.  `Connect` sends a Connect packet; everything else
waits for a handshake and ends with the next `Disconnect`.  Data packets are numbered on from
attempt to attempt, and what is sent again is a copy of a Data packet that was sent before.

`Speaks` lists these datagrams, and `Converses` is the invariant: it relates the members that a
datagram is made from to the trace.
-/

namespace HktBase.CustomNet

open Transition HktReliableUdpClient

variable {Addr : Type}

/-! ## Datagrams -/

/-- The receive window that a trace leaves. -/
def windowAfter (undefinedShift : UInt32 → UInt32) (trace : List ClientAction) : ReceiveWindow :=
  ReceiveWindow.feed undefinedShift {} (enqueuedSequences trace)

/-- A handshake was completed, and the client has not been disconnected since. -/
def ConnectedAfter (trace : List ClientAction) : Prop :=
  Outstanding (fun action => action = .handshakeComplete) (fun action => action = .disconnect) trace

/-- The number of packets that have been numbered. -/
def numbersGiven (trace : List ClientAction) : ℕ :=
  (sentNumbers (trace.map ClientAction.note)).length

/-- The header of a packet, with the window that a trace leaves. -/
def headerAfter (undefinedShift : UInt32 → UInt32) (trace : List ClientAction) (type : PacketType)
    (sequence : UInt32) : PacketHeader :=
  { type := type
    sequence := sequence
    lastAckedSequence := (windowAfter undefinedShift trace).receivedSequence
    ackBitfield := (windowAfter undefinedShift trace).receivedAckBitfield }

/-- What a connected client sends without a number. -/
def IsControl : PacketType → Bytes → Prop
  | .joinGroup, data => ∃ groupId, data = writeInt32 groupId
  | .leaveGroup, data => data = []
  | .disconnect, data => data = []
  | _, _ => False

/-- The datagrams that a client may send after a trace. -/
inductive Speaks (undefinedShift : UInt32 → UInt32) (before : List ClientAction) : Bytes → Prop
  | connect {earlier : List ClientAction} : before = earlier ++ [.connect] →
      Speaks undefinedShift before (headerAfter undefinedShift before .connect 0).toBytes
  | control {type : PacketType} {data : Bytes} : ConnectedAfter before → IsControl type data →
      Speaks undefinedShift before ((headerAfter undefinedShift before type 0).toBytes ++ data)
  | data {earlier : List ClientAction} {data : Bytes} : ConnectedAfter before →
      before = earlier ++ [.send data] →
      Speaks undefinedShift before ((headerAfter undefinedShift before .data
        (UInt32.ofNat (numbersGiven before + 1))).toBytes ++ data)
  | again {packetData : Bytes} {s : UInt32} : ConnectedAfter before →
      .socketSendTo packetData ∈ before → IsDataPacket s packetData →
      Speaks undefinedShift before packetData

/-- Every datagram of a trace is one that may be sent then. -/
def SpeaksThroughout (undefinedShift : UInt32 → UInt32) (trace : List ClientAction) : Prop :=
  Historically (fun before action => ∀ packetData, action = .socketSendTo packetData →
    Speaks undefinedShift before packetData) trace

/-! ## One action more -/

/-- What an action does to the window. -/
def ClientAction.window (undefinedShift : UInt32 → UInt32) (window : ReceiveWindow) :
    ClientAction → ReceiveWindow
  | .enqueued sequence _ => window.updateReceivedState undefinedShift sequence
  | _ => window

theorem windowAfter_concat (undefinedShift : UInt32 → UInt32) (trace : List ClientAction)
    (action : ClientAction) :
    windowAfter undefinedShift (trace ++ [action]) =
      action.window undefinedShift (windowAfter undefinedShift trace) := by
  unfold windowAfter
  cases action with
  | enqueued sequence payload =>
      have hsequences : enqueuedSequences (trace ++ [.enqueued sequence payload]) =
          enqueuedSequences trace ++ [sequence] := List.filterMap_append
      rw [hsequences, ReceiveWindow.feed_concat]
      rfl
  | _ =>
      rw [enqueuedSequences, List.filterMap_append, List.filterMap_cons_none rfl,
        List.filterMap_nil, List.append_nil]
      rfl

/-- Whether the client is connected after an action. -/
def ClientAction.connected (connected : Bool) : ClientAction → Bool
  | .handshakeComplete => true
  | .disconnect => false
  | _ => connected

theorem connectedAfter_concat {trace : List ClientAction} {connected : Bool}
    (h : connected = true ↔ ConnectedAfter trace) (action : ClientAction) :
    action.connected connected = true ↔ ConnectedAfter (trace ++ [action]) := by
  rw [ConnectedAfter, outstanding_concat]
  cases action with
  | handshakeComplete => simp [ClientAction.connected]
  | disconnect => simp [ClientAction.connected]
  | _ => simpa [ClientAction.connected, ConnectedAfter] using h

/-- The last number that was given, after an action. -/
def ClientAction.sentSequence (sentSequence : UInt32) : ClientAction → UInt32
  | .sentData .. => sentSequence + 1
  | _ => sentSequence

theorem numbersGiven_concat (trace : List ClientAction) (action : ClientAction) :
    UInt32.ofNat (numbersGiven (trace ++ [action])) =
      action.sentSequence (UInt32.ofNat (numbersGiven trace)) := by
  rw [numbersGiven, List.map_append, sentNumbers_append, List.length_append]
  cases action with
  | sentData sequence sentTime =>
      rw [UInt32.ofNat_add]
      rfl
  | _ => rfl

variable [Platform Addr]

/-- The members that datagrams are made from are those that the trace leaves. -/
structure Converses (client : HktReliableUdpClient Addr) : Prop where
  speaks : SpeaksThroughout (Platform.undefinedShift Addr) client.trace
  window : client.toReceiveWindow = windowAfter (Platform.undefinedShift Addr) client.trace
  connected : client.bIsConnected = true ↔ ConnectedAfter client.trace
  sentSequence : client.sentSequence = UInt32.ofNat (numbersGiven client.trace)
  pending : ∀ s packet, client.pendingAckPackets.find s = some packet →
    .socketSendTo packet.packetData ∈ client.trace ∧ IsDataPacket s packet.packetData

theorem converses_init : Converses ({} : HktReliableUdpClient Addr) where
  speaks := historically_nil _
  window := rfl
  connected := by simp [ConnectedAfter, not_outstanding_nil]
  sentSequence := rfl
  pending := by simp

namespace Converses

variable {client next : HktReliableUdpClient Addr}

theorem header (h : Converses client) (type : PacketType) (sequence : UInt32) :
    ({ type := type
       sequence := sequence
       lastAckedSequence := client.receivedSequence
       ackBitfield := client.receivedAckBitfield } : PacketHeader) =
      headerAfter (Platform.undefinedShift Addr) client.trace type sequence := by
  rw [headerAfter, ← h.window]

/-- Where none of the members that matter changes. -/
theorem congr (h : Converses client) (htrace : next.trace = client.trace)
    (hwindow : next.toReceiveWindow = client.toReceiveWindow)
    (hconnected : next.bIsConnected = client.bIsConnected)
    (hsent : next.sentSequence = client.sentSequence)
    (hpending : ∀ s packet, next.pendingAckPackets.find s = some packet →
      ∃ before, client.pendingAckPackets.find s = some before ∧
        packet.packetData = before.packetData) : Converses next := by
  constructor
  · rw [htrace]
    exact h.speaks
  · rw [htrace, hwindow]
    exact h.window
  · rw [htrace, hconnected]
    exact h.connected
  · rw [htrace, hsent]
    exact h.sentSequence
  · intro s packet hfind
    obtain ⟨before, hbefore, hdata⟩ := hpending s packet hfind
    rw [htrace, hdata]
    exact h.pending s before hbefore

/-- An action that is no datagram, or one that may be sent, with what it does to the members:
window, connection and counter become what the history makes of them, and no packet comes to be
pending that has not been sent. -/
theorem act (h : Converses client) {action : ClientAction}
    (htrace : next.trace = client.trace ++ [action])
    (hspeaks : ∀ packetData, action = .socketSendTo packetData →
      Speaks (Platform.undefinedShift Addr) client.trace packetData)
    (hwindow : next.toReceiveWindow =
      action.window (Platform.undefinedShift Addr) client.toReceiveWindow)
    (hconnected : next.bIsConnected = action.connected client.bIsConnected)
    (hsent : next.sentSequence = action.sentSequence client.sentSequence)
    (hpending : ∀ s packet, next.pendingAckPackets.find s = some packet →
      client.pendingAckPackets.find s = some packet ∨
        (.socketSendTo packet.packetData ∈ client.trace ∧ IsDataPacket s packet.packetData)) :
    Converses next := by
  constructor
  · rw [htrace]
    exact historically_concat.mpr ⟨h.speaks, hspeaks⟩
  · rw [htrace, hwindow, windowAfter_concat, h.window]
  · rw [htrace, hconnected]
    exact connectedAfter_concat h.connected action
  · rw [htrace, hsent, numbersGiven_concat, h.sentSequence]
  · intro s packet hfind
    rw [htrace]
    rcases hpending s packet hfind with hbefore | ⟨hmem, hdata⟩
    · obtain ⟨hmem, hdata⟩ := h.pending s packet hbefore
      exact ⟨List.mem_append_left _ hmem, hdata⟩
    · exact ⟨List.mem_append_left _ hmem, hdata⟩

/-- An action that is no datagram, where no packet is stored or removed. -/
theorem quiet (h : Converses client) {action : ClientAction}
    (htrace : next.trace = client.trace ++ [action])
    (hquiet : ∀ packetData, action ≠ .socketSendTo packetData)
    (hwindow : next.toReceiveWindow =
      action.window (Platform.undefinedShift Addr) client.toReceiveWindow)
    (hconnected : next.bIsConnected = action.connected client.bIsConnected)
    (hsent : next.sentSequence = action.sentSequence client.sentSequence)
    (hpending : next.pendingAckPackets = client.pendingAckPackets) : Converses next := by
  refine h.act htrace (fun packetData hsend => absurd hsend (hquiet packetData)) hwindow hconnected
    hsent fun s packet hfind => Or.inl ?_
  rwa [hpending] at hfind

theorem say (h : Converses client) {packetData : Bytes}
    (hspeaks : Speaks (Platform.undefinedShift Addr) client.trace packetData) :
    Converses (client.emit (.socketSendTo packetData)) := by
  refine h.act rfl ?_ rfl rfl rfl fun s packet hfind => Or.inl hfind
  rintro _ ⟨⟩
  exact hspeaks

theorem sendControl (h : Converses client) {type : PacketType} {data : Bytes} (htype : type ≠ .data)
    (hspeaks : Speaks (Platform.undefinedShift Addr) client.trace
      (client.controlDatagram type data)) (now : Time) :
    Converses (client.sendPacket data type now) := by
  rw [sendPacket_control client htype]
  split
  · exact h.say hspeaks
  · exact h

theorem controlDatagram_speaks (h : Converses client) {type : PacketType} {data : Bytes}
    (hconnected : client.bIsConnected = true) (hcontrol : IsControl type data) :
    Speaks (Platform.undefinedShift Addr) client.trace (client.controlDatagram type data) := by
  rw [controlDatagram, h.header]
  exact .control (h.connected.mp hconnected) hcontrol

/-- `Send` with a socket: the packet carries the number after the last one and the state of the
window, and is pending from then on. -/
theorem send (h : Converses client) (hconnected : client.bIsConnected = true) (now : Time)
    (data : Bytes) : Converses ((client.emit (.send data)).afterSend now data) := by
  have hcalled : Converses (client.emit (.send data)) :=
    h.quiet rfl (by simp) rfl rfl rfl rfl
  have hnumber : client.sentSequence + 1 =
      UInt32.ofNat (numbersGiven (client.emit (.send data)).trace + 1) := by
    have hsent : client.sentSequence = _ := hcalled.sentSequence
    rw [hsent, UInt32.ofNat_add]
    rfl
  have hdatagram : Speaks (Platform.undefinedShift Addr) (client.emit (.send data)).trace
      (client.dataDatagram data) := by
    rw [dataDatagram, hnumber]
    have hheader := hcalled.header .data
      (UInt32.ofNat (numbersGiven (client.emit (.send data)).trace + 1))
    rw [show client.receivedSequence = (client.emit (.send data)).receivedSequence from rfl,
      show client.receivedAckBitfield = (client.emit (.send data)).receivedAckBitfield from rfl,
      hheader]
    exact .data (hcalled.connected.mp hconnected) rfl
  have htrace : ((client.emit (.send data)).afterSend now data).trace =
      ((client.emit (.send data)).emit (.socketSendTo (client.dataDatagram data))).trace ++
        [.sentData (client.sentSequence + 1) now] := by
    simp only [afterSend, trace_emit, List.append_assoc]
    rfl
  -- what is sent is also kept for resending, under its number
  refine (hcalled.say hdatagram).act htrace (by simp) rfl rfl rfl fun s packet hfind => ?_
  · rw [afterSend, SparseMap.find_add] at hfind
    split at hfind
    · next hsame =>
        obtain rfl := Option.some.inj hfind
        subst hsame
        exact Or.inr ⟨List.mem_append_right _ (List.mem_singleton_self _),
          isDataPacket_dataDatagram client data⟩
    · exact Or.inl hfind

theorem disconnect (h : Converses client) : Converses client.disconnect := by
  unfold HktReliableUdpClient.disconnect
  dsimp only
  split
  · next hconnected =>
      have hsaid := h.sendControl (by simp) (h.controlDatagram_speaks hconnected
        (show IsControl .disconnect [] from rfl)) 0
      exact hsaid.quiet rfl (by simp) rfl rfl rfl rfl
  · exact h.quiet rfl (by simp) rfl rfl rfl rfl

theorem connect (h : Converses client) (serverAddr : Addr) (bIsValid bound : Bool) :
    Converses (client.connect serverAddr bIsValid bound).1 := by
  unfold HktReliableUdpClient.connect
  dsimp only
  split
  · split
    · have hopened : Converses { client with
          serverAddr := some serverAddr
          clientSocket := bound
          receiverThread := true
          bIsStopping := false } :=
        h.congr rfl rfl rfl rfl fun s packet hfind => ⟨packet, hfind, rfl⟩
      have hbegun : Converses (emit .connect { client with
          serverAddr := some serverAddr
          clientSocket := bound
          receiverThread := true
          bIsStopping := false }) :=
        hopened.quiet rfl (by simp) rfl rfl rfl rfl
      refine hbegun.sendControl (by simp) ?_ 0
      rw [controlDatagram, hbegun.header, List.append_nil]
      exact .connect rfl
    · exact h.congr rfl rfl rfl rfl fun s packet hfind => ⟨packet, hfind, rfl⟩
  · exact h.congr rfl rfl rfl rfl fun s packet hfind => ⟨packet, hfind, rfl⟩

/-! ### Received packets -/

theorem processAck (h : Converses client) (header : PacketHeader) :
    Converses (client.processAck header) := by
  refine h.act rfl (by simp) rfl rfl rfl fun s packet hfind => Or.inl ?_
  have hkept : (CustomNet.processAck header client.pendingAckPackets).find s = some packet := hfind
  rw [find_processAck] at hkept
  split at hkept
  · simp at hkept
  · exact hkept

theorem processReceivedPacket (h : Converses client) (packetData : Bytes) :
    Converses (client.processReceivedPacket packetData) := by
  by_cases hlong : sizeofPacketHeader ≤ packetData.length
  · rw [processReceivedPacket_eq hlong]
    have hhandshake : Converses (client.afterHandshake packetData) := by
      unfold afterHandshake
      split
      · exact h.quiet rfl (by simp) rfl rfl rfl rfl
      · exact h
    have hacked := hhandshake.processAck (PacketHeader.ofBytes packetData)
    unfold afterPayload
    dsimp only
    split
    · exact hacked.quiet rfl (by simp) rfl rfl rfl rfl
    · exact hacked
  · rw [HktReliableUdpClient.processReceivedPacket, if_pos (not_le.mp hlong)]
    exact h

theorem processReceivedPackets (h : Converses client) : Converses client.processReceivedPackets := by
  have hemptied : Converses { client with incomingPackets := [] } :=
    h.congr rfl rfl rfl rfl fun s packet hfind => ⟨packet, hfind, rfl⟩
  exact run_invariant hemptied
    (fun _ packetData hcurrent => hcurrent.processReceivedPacket packetData) client.incomingPackets

/-! ### The resend loop -/

/-- A copy of a packet that was sent, on an open socket or not. -/
theorem resendOne (h : Converses client) (hconnected : client.bIsConnected = true)
    {packet : UInt32 × Bytes} (hsent : .socketSendTo packet.2 ∈ client.trace)
    (hdata : IsDataPacket packet.1 packet.2) (currentTime : Time) :
    Converses ((client.socketSendTo packet.2).emit (.resent packet.1 currentTime)) := by
  have hcopied : Converses (client.socketSendTo packet.2) := by
    unfold socketSendTo
    split
    · exact h.say (.again (h.connected.mp hconnected) hsent hdata)
    · exact h.quiet rfl (by simp) rfl rfl rfl rfl
  exact hcopied.quiet rfl (by simp) rfl rfl rfl rfl

/-- Copies of packets that are pending.  They have the bytes of the original, and so an old
acknowledgement, which `Speaks` allows to a packet that was sent before. -/
theorem resend (h : Converses client) (hconnected : client.bIsConnected = true)
    (currentTime : Time) : Converses (client.afterResend currentTime) := by
  have hloop : ∀ (resent : List (UInt32 × Bytes)) (current : HktReliableUdpClient Addr),
      (∀ packet ∈ resent, .socketSendTo packet.2 ∈ current.trace ∧ IsDataPacket packet.1 packet.2) →
      current.bIsConnected = true → Converses current →
      Converses (resent.foldl (fun client packet => (client.socketSendTo packet.2).emit
        (.resent packet.1 currentTime)) current) := by
    intro resent
    induction resent with
    | nil => exact fun _ _ _ hcurrent => hcurrent
    | cons packet rest ih =>
        intro current hpackets hconnected hcurrent
        have hfirst := hpackets packet List.mem_cons_self
        refine ih _ (fun later hlater => ?_) hconnected
          (hcurrent.resendOne hconnected hfirst.1 hfirst.2 currentTime)
        have hkept := hpackets later (List.mem_cons_of_mem _ hlater)
        exact ⟨List.mem_append_left _ (List.mem_append_left _ hkept.1), hkept.2⟩
  have hcopies := hloop (resendPending currentTime client.pendingAckPackets).resent client
    (fun packet hpacket => by
      obtain ⟨original, horiginal, hdata⟩ := mem_resent_resendPending _ _ hpacket
      rw [← hdata]
      exact h.pending _ _ horiginal)
    hconnected h
  rw [foldl_resent] at hcopies
  refine hcopies.congr rfl rfl rfl rfl fun s packet hfind => ?_
  obtain ⟨original, horiginal, hdata⟩ := packetData_of_find_resendPending _ _ hfind
  exact ⟨original, horiginal, hdata.symm⟩

theorem checkForResends (h : Converses client) (hconnected : client.bIsConnected = true)
    (currentTime : Time) : Converses (client.checkForResends currentTime) := by
  rw [checkForResends_eq]
  split
  · exact (h.resend hconnected currentTime).disconnect
  · exact h.resend hconnected currentTime

/-! ### Events -/

theorem step (h : Converses client) (event : ClientEvent Addr) : Converses (client.step event) := by
  cases event with
  | connect serverAddr bIsValid bound => exact h.connect serverAddr bIsValid bound
  | disconnect => exact h.disconnect
  | send now data =>
      simp only [HktReliableUdpClient.step, HktReliableUdpClient.send]
      split
      · next hconnected =>
          rw [sendPacket_data]
          split
          · exact h.send hconnected now data
          · exact h.quiet rfl (by simp) rfl rfl rfl rfl
      · exact h
  | joinGroup groupId =>
      simp only [HktReliableUdpClient.step, HktReliableUdpClient.joinGroup]
      split
      · next hconnected =>
          exact h.sendControl (by simp) (h.controlDatagram_speaks hconnected
            (show IsControl .joinGroup (writeInt32 groupId) from ⟨groupId, rfl⟩)) 0
      · exact h
  | leaveGroup =>
      simp only [HktReliableUdpClient.step, HktReliableUdpClient.leaveGroup]
      split
      · next hconnected =>
          exact h.sendControl (by simp) (h.controlDatagram_speaks hconnected
            (show IsControl .leaveGroup [] from rfl)) 0
      · exact h
  | tick now =>
      simp only [HktReliableUdpClient.step, HktReliableUdpClient.tick]
      split
      · next hconnected => exact h.processReceivedPackets.checkForResends hconnected now
      · exact h.processReceivedPackets
  | poll =>
      simp only [HktReliableUdpClient.step, HktReliableUdpClient.poll]
      split
      · exact h
      · exact h.quiet rfl (by simp) rfl rfl rfl rfl
  | receive packetData =>
      simp only [HktReliableUdpClient.step, HktReliableUdpClient.receive]
      split
      · exact h.quiet rfl (by simp) rfl rfl rfl rfl
      · exact h

end Converses

/-! ## What a call makes the client say -/

namespace HktReliableUdpClient

/-- A client that has a socket has the address that `Connect` was given. -/
def HasAddress (client : HktReliableUdpClient Addr) : Prop :=
  client.clientSocket = true → client.serverAddr.isSome = true

section

omit [Platform Addr]

variable {client : HktReliableUdpClient Addr}

theorem hasAddress_sendPacket (h : client.HasAddress) (data : Bytes) (type : PacketType)
    (now : Time) : (client.sendPacket data type now).HasAddress := by
  by_cases htype : type = .data
  · subst htype
    rw [sendPacket_data]
    split <;> exact h
  · rw [sendPacket_control client htype]
    split <;> exact h

theorem hasAddress_connect (client : HktReliableUdpClient Addr) (serverAddr : Addr)
    (bIsValid bound : Bool) : (client.connect serverAddr bIsValid bound).1.HasAddress := by
  unfold connect
  dsimp only
  split
  · split
    · exact hasAddress_sendPacket (fun _ => rfl) [] .connect 0
    · exact fun _ => rfl
  · exact fun _ => rfl

theorem hasAddress_disconnect (client : HktReliableUdpClient Addr) :
    client.disconnect.HasAddress := by
  intro hsocket
  simp [disconnect, emit] at hsocket

theorem hasAddress_checkForResends (h : client.HasAddress) (currentTime : Time) :
    (client.checkForResends currentTime).HasAddress := by
  rw [checkForResends_eq]
  split
  · exact hasAddress_disconnect _
  · exact h

end

variable {client : HktReliableUdpClient Addr}

theorem hasAddress_processReceivedPacket (h : client.HasAddress) (packetData : Bytes) :
    (client.processReceivedPacket packetData).HasAddress := by
  by_cases hlong : sizeofPacketHeader ≤ packetData.length
  · rw [processReceivedPacket_eq hlong]
    unfold afterPayload afterHandshake
    dsimp only
    split <;> split <;> exact h
  · rw [processReceivedPacket, if_pos (not_le.mp hlong)]
    exact h

theorem hasAddress_step (h : client.HasAddress) (event : ClientEvent Addr) :
    (client.step event).HasAddress := by
  cases event with
  | connect serverAddr bIsValid bound => exact hasAddress_connect client serverAddr bIsValid bound
  | disconnect => exact hasAddress_disconnect client
  | send now data =>
      simp only [step, send]
      split
      · have hcalled : (client.emit (.send data)).HasAddress := h
        exact hasAddress_sendPacket hcalled data .data now
      · exact h
  | joinGroup groupId =>
      simp only [step, joinGroup]
      split
      · exact hasAddress_sendPacket h _ _ _
      · exact h
  | leaveGroup =>
      simp only [step, leaveGroup]
      split
      · exact hasAddress_sendPacket h _ _ _
      · exact h
  | tick now =>
      have hemptied : HasAddress { client with incomingPackets := [] } := h
      have hprocessed : client.processReceivedPackets.HasAddress :=
        run_invariant hemptied
          (fun _ packetData hcurrent => hasAddress_processReceivedPacket hcurrent packetData)
          client.incomingPackets
      simp only [step, tick]
      split
      · exact hasAddress_checkForResends hprocessed now
      · exact hprocessed
  | poll =>
      simp only [step, poll]
      split <;> exact h
  | receive packetData =>
      simp only [step, receive]
      split <;> exact h

theorem hasAddress_run (events : List (ClientEvent Addr)) :
    (run step ({} : HktReliableUdpClient Addr) events).HasAddress :=
  run_invariant (P := HasAddress) (fun hsocket => by simp at hsocket)
    (fun _ event h => hasAddress_step h event) events

end HktReliableUdpClient

/-- A client with an open socket sends what it is called for: a `Connect` is answered by a Connect
packet, and on a connected client every other call by a packet of its kind. -/
structure SpeaksWhenCalled (client : HktReliableUdpClient Addr) : Prop where
  connect : ∀ serverAddr, (client.step (.connect serverAddr true true)).trace = client.trace ++
    [.connect, .socketSendTo
      (headerAfter (Platform.undefinedShift Addr) client.trace .connect 0).toBytes]
  send : client.bIsConnected = true → client.clientSocket = true → ∀ now data,
    (client.step (.send now data)).trace = client.trace ++
      [.send data, .socketSendTo ((headerAfter (Platform.undefinedShift Addr) client.trace .data
          (UInt32.ofNat (numbersGiven client.trace + 1))).toBytes ++ data),
        .sentData (UInt32.ofNat (numbersGiven client.trace + 1)) now]
  joinGroup : client.bIsConnected = true → client.clientSocket = true → ∀ groupId,
    (client.step (.joinGroup groupId)).trace = client.trace ++
      [.socketSendTo ((headerAfter (Platform.undefinedShift Addr) client.trace .joinGroup 0).toBytes
        ++ writeInt32 groupId)]
  leaveGroup : client.bIsConnected = true → client.clientSocket = true →
    (client.step .leaveGroup).trace = client.trace ++
      [.socketSendTo (headerAfter (Platform.undefinedShift Addr) client.trace .leaveGroup 0).toBytes]
  disconnect : client.bIsConnected = true → client.clientSocket = true →
    (client.step .disconnect).trace = client.trace ++
      [.socketSendTo (headerAfter (Platform.undefinedShift Addr) client.trace .disconnect 0).toBytes,
        .disconnect]

namespace Converses

variable {client : HktReliableUdpClient Addr}

theorem controlDatagram_eq (h : Converses client) (type : PacketType) (data : Bytes) :
    client.controlDatagram type data =
      (headerAfter (Platform.undefinedShift Addr) client.trace type 0).toBytes ++ data := by
  rw [controlDatagram, h.header]

theorem trace_sendControl (h : Converses client) (hsocket : client.clientSocket = true)
    (haddress : client.HasAddress) {type : PacketType} (htype : type ≠ .data) (data : Bytes)
    (now : Time) :
    (client.sendPacket data type now).trace = client.trace ++
      [.socketSendTo ((headerAfter (Platform.undefinedShift Addr) client.trace type 0).toBytes ++
        data)] := by
  rw [sendPacket_control client htype, hsocket, haddress hsocket, Bool.and_self, if_pos rfl,
    trace_emit, h.controlDatagram_eq]

theorem speaksWhenCalled (h : Converses client) (haddress : client.HasAddress) :
    SpeaksWhenCalled client where
  connect serverAddr := by
    have hheader := h.controlDatagram_eq .connect []
    rw [List.append_nil] at hheader
    rw [← hheader]
    simp only [HktReliableUdpClient.step, HktReliableUdpClient.connect, if_true]
    rw [sendPacket_control _ (by simp)]
    simp [emit, controlDatagram]
  send hconnected hsocket now data := by
    simp only [HktReliableUdpClient.step, HktReliableUdpClient.send, if_pos hconnected]
    rw [sendPacket_data]
    have hnumber : client.sentSequence + 1 = UInt32.ofNat (numbersGiven client.trace + 1) := by
      rw [h.sentSequence, UInt32.ofNat_add]
      rfl
    have hsend : ((client.emit (.send data)).clientSocket &&
        (client.emit (.send data)).serverAddr.isSome) = true :=
      Bool.and_eq_true_iff.mpr ⟨hsocket, haddress hsocket⟩
    rw [if_pos hsend, ← hnumber, ← h.header]
    simp [afterSend, dataDatagram, emit]
  joinGroup hconnected hsocket groupId := by
    simp only [HktReliableUdpClient.step, HktReliableUdpClient.joinGroup, if_pos hconnected]
    exact h.trace_sendControl hsocket haddress (by simp) _ 0
  leaveGroup hconnected hsocket := by
    simp only [HktReliableUdpClient.step, HktReliableUdpClient.leaveGroup, if_pos hconnected]
    rw [h.trace_sendControl hsocket haddress (by simp), List.append_nil]
  disconnect hconnected hsocket := by
    simp only [HktReliableUdpClient.step, HktReliableUdpClient.disconnect, if_pos hconnected]
    rw [trace_emit]
    dsimp only
    rw [h.trace_sendControl hsocket haddress (by simp), List.append_nil, List.append_assoc]
    rfl

end Converses

/-- **What the client says.**  Every datagram that it ever sends is one that its history allows: a
Connect packet right after a `Connect`, a packet of a connected client, a new Data packet with the
next number only right after a `Send`, or a copy of an earlier one, and each new header carries the
window that the processed Data packets leave.  With an open socket the calls do send these
packets. -/
theorem client_speaks (events : List (ClientEvent Addr)) :
    let client := run HktReliableUdpClient.step {} events
    SpeaksThroughout (Platform.undefinedShift Addr) client.trace ∧ SpeaksWhenCalled client := by
  intro client
  have hconverses : Converses client :=
    run_invariant converses_init (fun _ event h => h.step event) events
  exact ⟨hconverses.speaks, hconverses.speaksWhenCalled (hasAddress_run events)⟩

end HktBase.CustomNet
