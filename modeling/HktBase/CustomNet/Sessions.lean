import HktBase.CustomNet.ClientMoves
import HktBase.CustomNet.Resend

/-!
# Sessions of a client

What belongs to a connection attempt: the payloads passed to `Send` and the datagrams
that arrived since `Connect`.  `Connect` and `Disconnect` reset neither the pending
packets nor the two queues, so an attempt can transmit and hand out what an earlier
one left behind.  Where `Connect` finds nothing left over, it cannot:
`attempts_separate`.

The invariant is `HoldsAttempt`: the transmitted and pending payloads were passed to `Send`
in the attempt, and what was polled with what still waits in the two queues is what was
received in it.  `HoldsAttempt.move` gives one lemma to each move of `ClientMoves`; the only
one that needs an assumption is `HoldsAttempt.connect`, where the attempt becomes empty
while the three members keep their values.
-/

namespace HktBase.CustomNet

open Transition HktReliableUdpClient

variable {Addr : Type}

/-! ## What belongs to an attempt -/

/-- `Connect` has opened a socket. -/
def ClientAction.isConnect : ClientAction → Bool
  | .connect => true
  | _ => false

/-- The payloads that `Poll` has returned. -/
def polledPayloads (actions : List ClientAction) : List Bytes :=
  actions.filterMap fun
    | .polled payload => some payload
    | _ => none

/-- The payloads of the Data datagrams that have arrived. -/
def receivedPayloads (actions : List ClientAction) : List Bytes :=
  actions.filterMap fun
    | .received packetData => dataPayload packetData
    | _ => none

/-- The trace since the last `Connect`. -/
def HktReliableUdpClient.attempt (client : HktReliableUdpClient Addr) : List ClientAction :=
  sinceLast ClientAction.isConnect client.trace

/-- An action that uses nothing from outside the attempt it is taken in: a Data packet
carries a payload passed to `Send` in the attempt, and the payloads polled in the
attempt are, in order, those of the first Data datagrams that arrived in it. -/
structure StaysInAttempt (attempt : List ClientAction) (action : ClientAction) : Prop where
  sends : ∀ packetData sequence, action = .socketSendTo packetData →
    IsDataPacket sequence packetData → .send (payloadOf packetData) ∈ attempt
  polls : ∀ payload, action = .polled payload →
    polledPayloads attempt ++ [payload] <+: receivedPayloads attempt

/-- `Connect` has opened a socket and `Disconnect` has not returned since. -/
def InAttempt (trace : List ClientAction) : Prop :=
  Outstanding (· = .connect) (· = .disconnect) trace

/-- No action taken in an attempt uses anything from before it. -/
def AttemptsSeparate (trace : List ClientAction) : Prop :=
  Historically (fun before action => InAttempt before →
    StaysInAttempt (sinceLast ClientAction.isConnect before) action) trace

/-- The client holds no unacknowledged packet, no unread payload and no unprocessed
Data datagram. -/
structure NothingLeftOver (client : HktReliableUdpClient Addr) : Prop where
  pending : ∀ s, client.pendingAckPackets.find s = none
  receivedDataPackets : client.receivedDataPackets = []
  incomingPackets : ∀ packetData ∈ client.incomingPackets,
    ∀ sequence, ¬ IsDataPacket sequence packetData

/-! ## The invariant -/

/-- What is pending or queued belongs to the current attempt. -/
structure HoldsAttempt (client : HktReliableUdpClient Addr) : Prop where
  separate : Historically (fun before action =>
    StaysInAttempt (sinceLast ClientAction.isConnect before) action) client.trace
  pending : ∀ s packet, client.pendingAckPackets.find s = some packet →
    .send (payloadOf packet.packetData) ∈ client.attempt
  queues : polledPayloads client.attempt ++ (client.receivedDataPackets ++
    client.incomingPackets.filterMap dataPayload) = receivedPayloads client.attempt

/-- An action that neither begins an attempt nor moves a payload in or out, and sends
only what was passed to `Send`. -/
structure Quiet (attempt : List ClientAction) (action : ClientAction) : Prop where
  not_connect : action.isConnect = false
  not_polled : ∀ payload, action ≠ .polled payload
  not_received : ∀ packetData, action ≠ .received packetData
  sends : ∀ packetData sequence, action = .socketSendTo packetData →
    IsDataPacket sequence packetData → .send (payloadOf packetData) ∈ attempt

theorem Quiet.of_ne {attempt : List ClientAction} {action : ClientAction}
    (hconnect : action.isConnect = false) (hpolled : ∀ payload, action ≠ .polled payload)
    (hreceived : ∀ packetData, action ≠ .received packetData)
    (hsends : ∀ packetData, action ≠ .socketSendTo packetData) : Quiet attempt action :=
  ⟨hconnect, hpolled, hreceived, fun packetData _ h => absurd h (hsends packetData)⟩

theorem attempt_append {client next : HktReliableUdpClient Addr} {more : List ClientAction}
    (htrace : next.trace = client.trace ++ more) (hmore : ∀ action ∈ more, action.isConnect = false) :
    next.attempt = client.attempt ++ more := by
  rw [HktReliableUdpClient.attempt, htrace, sinceLast_append_of_not hmore]
  rfl

namespace HoldsAttempt

variable {client next : HktReliableUdpClient Addr}

/-- A move whose actions are quiet and that leaves the queues as they are: the attempt grows by
these actions, nothing is polled or received, and the pending packets have to be accounted for
by the caller. -/
theorem quiet (h : HoldsAttempt client) (more : List ClientAction)
    (hmore : ∀ action ∈ more, Quiet client.attempt action)
    (htrace : next.trace = client.trace ++ more)
    (hpending : ∀ s packet, next.pendingAckPackets.find s = some packet →
      .send (payloadOf packet.packetData) ∈ client.attempt)
    (hreceived : next.receivedDataPackets = client.receivedDataPackets)
    (hincoming : next.incomingPackets.filterMap dataPayload =
      client.incomingPackets.filterMap dataPayload) : HoldsAttempt next := by
  have hattempt := attempt_append htrace fun action haction => (hmore action haction).not_connect
  have hpolled : polledPayloads more = [] := by
    refine List.filterMap_eq_nil_iff.mpr fun action haction => ?_
    cases action with
    | polled payload => exact absurd rfl ((hmore _ haction).not_polled payload)
    | _ => rfl
  have hreceivedMore : receivedPayloads more = [] := by
    refine List.filterMap_eq_nil_iff.mpr fun action haction => ?_
    cases action with
    | received packetData => exact absurd rfl ((hmore _ haction).not_received packetData)
    | _ => rfl
  refine ⟨?_, fun s packet hfind => ?_, ?_⟩
  -- The actions are appended one by one: each is judged by the attempt that ends with it.
  · rw [htrace]
    clear htrace hattempt hpolled hreceivedMore
    induction more using List.reverseRecOn with
    | nil => simpa using h.separate
    | append_singleton before action ih =>
        rw [← List.append_assoc]
        refine historically_concat.mpr ⟨ih fun other hother => hmore other (by simp [hother]), ?_⟩
        have hquiet := hmore action (by simp)
        constructor
        · intro packetData sequence haction hdata
          rw [sinceLast_append_of_not fun other hother => (hmore other (by simp [hother])).not_connect]
          exact List.mem_append_left _ (hquiet.sends packetData sequence haction hdata)
        · exact fun payload hpolled => absurd hpolled (hquiet.not_polled payload)
  · rw [hattempt]
    exact List.mem_append_left _ (hpending s packet hfind)
  · rw [hattempt, hreceived, hincoming]
    simp only [polledPayloads, receivedPayloads] at hpolled hreceivedMore ⊢
    rw [List.filterMap_append, List.filterMap_append, hpolled, hreceivedMore, List.append_nil,
      List.append_nil]
    exact h.queues

theorem emit (h : HoldsAttempt client) {action : ClientAction}
    (haction : Quiet client.attempt action) (htrace : next.trace = client.trace ++ [action])
    (hpending : next.pendingAckPackets = client.pendingAckPackets)
    (hreceived : next.receivedDataPackets = client.receivedDataPackets)
    (hincoming : next.incomingPackets = client.incomingPackets) : HoldsAttempt next := by
  refine h.quiet [action] (by simpa using haction) htrace ?_ hreceived (by rw [hincoming])
  rw [hpending]
  exact h.pending

/-- A new attempt starts from nothing.  This is where `NothingLeftOver` is used: the clauses
about the pending packets and the queues speak of an attempt that has no action yet. -/
theorem connect (h : HoldsAttempt client) (hnothing : NothingLeftOver client)
    (htrace : next.trace = client.trace ++ [.connect])
    (hpending : next.pendingAckPackets = client.pendingAckPackets)
    (hreceived : next.receivedDataPackets = client.receivedDataPackets)
    (hincoming : next.incomingPackets = client.incomingPackets) : HoldsAttempt next := by
  have hattempt : next.attempt = [] := by
    rw [HktReliableUdpClient.attempt, htrace, sinceLast_concat]
    rfl
  refine ⟨?_, ?_, ?_⟩
  · rw [htrace]
    exact historically_concat.mpr ⟨h.separate, by simp, by simp⟩
  · simp [hpending, hnothing.pending]
  · have hqueue : client.incomingPackets.filterMap dataPayload = [] :=
      List.filterMap_eq_nil_iff.mpr fun packetData hmem =>
        dataPayload_eq_none (hnothing.incomingPackets packetData hmem)
    simp [hattempt, hreceived, hincoming, hqueue, hnothing.receivedDataPackets, polledPayloads,
      receivedPayloads]

theorem quiet_control {attempt : List ClientAction} {type : PacketType} (htype : type ≠ .data)
    (data : Bytes) : Quiet attempt (.socketSendTo (client.controlDatagram type data)) := by
  refine ⟨rfl, by simp, by simp, fun packetData sequence haction hdata => ?_⟩
  obtain rfl := ClientAction.socketSendTo.inj haction
  exact absurd hdata.2.1 (by simpa [controlDatagram] using htype)

theorem send (h : HoldsAttempt client) (now : Time) (data : Bytes) :
    HoldsAttempt ((client.emit (.send data)).afterSend now data) := by
  have hcalled : HoldsAttempt (client.emit (.send data)) :=
    h.emit (.of_ne rfl (by simp) (by simp) (by simp)) rfl rfl rfl rfl
  have hsend : .send data ∈ (client.emit (.send data)).attempt := by
    rw [attempt_append (trace_emit client _) (by simp [ClientAction.isConnect])]
    simp
  -- the call is part of the attempt before the datagram leaves, which carries its payload
  refine hcalled.quiet [.socketSendTo (client.dataDatagram data),
    .sentData (client.sentSequence + 1) now] ?_ rfl ?_ rfl rfl
  · intro action haction
    rcases List.mem_pair.mp haction with rfl | rfl
    · refine ⟨rfl, by simp, by simp, fun packetData sequence haction _ => ?_⟩
      obtain rfl := ClientAction.socketSendTo.inj haction
      simpa [dataDatagram] using hsend
    · exact .of_ne rfl (by simp) (by simp) (by simp)
  · intro s packet hfind
    rw [afterSend, SparseMap.find_add] at hfind
    split at hfind
    · obtain rfl := Option.some.inj hfind
      simpa [dataDatagram, HktReliableUdpClient.emit] using hsend
    · exact hcalled.pending s packet hfind

theorem receive (h : HoldsAttempt client) (packetData : Bytes) :
    HoldsAttempt ({ client with
      incomingPackets := client.incomingPackets ++ [packetData] }.emit (.received packetData)) := by
  have hattempt : ({ client with incomingPackets := client.incomingPackets ++ [packetData] }.emit
      (.received packetData)).attempt = client.attempt ++ [.received packetData] :=
    attempt_append (trace_emit _ _) (by simp [ClientAction.isConnect])
  refine ⟨?_, fun s packet hfind => ?_, ?_⟩
  · exact historically_concat.mpr ⟨h.separate, by simp, by simp⟩
  · rw [hattempt]
    exact List.mem_append_left _ (h.pending s packet hfind)
  · rw [hattempt, HktReliableUdpClient.emit]
    have hqueues := h.queues
    simp only [polledPayloads, receivedPayloads] at hqueues ⊢
    rw [List.filterMap_append, List.filterMap_append, List.filterMap_append, ← hqueues]
    cases hpayload : dataPayload packetData <;> simp [hpayload]

theorem accept (h : HoldsAttempt client) {packetData : Bytes} {rest : List Bytes}
    {sequence : UInt32} (hqueue : client.incomingPackets = packetData :: rest)
    (hdata : IsDataPacket sequence packetData) (window : ReceiveWindow) :
    HoldsAttempt
      ({ client with
        toReceiveWindow := window
        incomingPackets := rest
        receivedDataPackets := client.receivedDataPackets ++ [payloadOf packetData]
      }.emit (.enqueued sequence (payloadOf packetData))) := by
  have hattempt : ({ client with
        toReceiveWindow := window
        incomingPackets := rest
        receivedDataPackets := client.receivedDataPackets ++ [payloadOf packetData]
      }.emit (.enqueued sequence (payloadOf packetData))).attempt =
      client.attempt ++ [.enqueued sequence (payloadOf packetData)] :=
    attempt_append (trace_emit _ _) (by simp [ClientAction.isConnect])
  refine ⟨?_, fun s packet hfind => ?_, ?_⟩
  · exact historically_concat.mpr ⟨h.separate, by simp, by simp⟩
  · rw [hattempt]
    exact List.mem_append_left _ (h.pending s packet hfind)
  · rw [hattempt, HktReliableUdpClient.emit]
    have hqueues := h.queues
    rw [hqueue, List.filterMap_cons, dataPayload_of_isDataPacket hdata] at hqueues
    simp only [polledPayloads, receivedPayloads] at hqueues ⊢
    rw [List.filterMap_append, List.filterMap_append, ← hqueues]
    simp

theorem poll (h : HoldsAttempt client) {payload : Bytes} {rest : List Bytes}
    (hqueue : client.receivedDataPackets = payload :: rest) :
    HoldsAttempt ({ client with receivedDataPackets := rest }.emit (.polled payload)) := by
  have hattempt : ({ client with receivedDataPackets := rest }.emit (.polled payload)).attempt =
      client.attempt ++ [.polled payload] :=
    attempt_append (trace_emit _ _) (by simp [ClientAction.isConnect])
  have hqueues := h.queues
  rw [hqueue] at hqueues
  refine ⟨?_, fun s packet hfind => ?_, ?_⟩
  · refine historically_concat.mpr ⟨h.separate, by simp, fun polled hpolled => ?_⟩
    obtain rfl := ClientAction.polled.inj hpolled
    refine ⟨rest ++ client.incomingPackets.filterMap dataPayload, ?_⟩
    -- what has been polled before, this payload and what still waits are all that was received
    change polledPayloads client.attempt ++ [payload] ++ _ = receivedPayloads client.attempt
    rw [← hqueues]
    simp
  · rw [hattempt]
    exact List.mem_append_left _ (h.pending s packet hfind)
  · rw [hattempt, HktReliableUdpClient.emit]
    simp only [polledPayloads, receivedPayloads] at hqueues ⊢
    rw [List.filterMap_append, List.filterMap_append, ← hqueues]
    simp

theorem resend (h : HoldsAttempt client) (currentTime : Time) :
    HoldsAttempt (client.afterResend currentTime) := by
  refine h.quiet (client.resendActions currentTime) ?_ rfl ?_ rfl rfl
  · intro action haction
    obtain ⟨sent, hsent, haction⟩ := List.mem_flatMap.mp haction
    rcases List.mem_pair.mp haction with rfl | rfl
    -- a resend repeats the bytes of a pending packet, whose payload the attempt has sent
    · obtain ⟨packet, hfind, hpacket⟩ := mem_resent_resendPending _ _ hsent
      split
      · refine ⟨rfl, by simp, by simp, fun packetData sequence haction _ => ?_⟩
        obtain rfl := ClientAction.socketSendTo.inj haction
        rw [← hpacket]
        exact h.pending _ packet hfind
      · exact .of_ne rfl (by simp) (by simp) (by simp)
    · exact .of_ne rfl (by simp) (by simp) (by simp)
  · intro s packet hfind
    obtain ⟨original, horiginal, hpacket⟩ := packetData_of_find_resendPending _ _ hfind
    rw [← hpacket]
    exact h.pending s original horiginal

/-- Every move keeps the attempts apart, where `Connect` finds nothing left over. -/
theorem move [Platform Addr] {arrives : Bytes → Prop}
    (hmove : Move NothingLeftOver arrives client next) (h : HoldsAttempt client) :
    HoldsAttempt next := by
  cases hmove with
  | environment clientSocket serverAddr receiverThread bIsStopping =>
      exact ⟨h.separate, h.pending, h.queues⟩
  | connect serverAddr hnothing => exact h.connect hnothing rfl rfl rfl rfl
  | control data htype _ => exact h.emit (quiet_control htype data) rfl rfl rfl rfl
  | disconnect => exact h.emit (.of_ne rfl (by simp) (by simp) (by simp)) rfl rfl rfl rfl
  | sendNothing data => exact h.emit (.of_ne rfl (by simp) (by simp) (by simp)) rfl rfl rfl rfl
  | send now data _ => exact h.send now data
  | receive packetData _ => exact h.receive packetData
  | @skip packetData rest hqueue hskip =>
      refine h.quiet [] (by simp) (by simp) h.pending rfl ?_
      rw [hqueue, List.filterMap_cons, dataPayload_eq_none hskip]
  | handshake _ _ _ => exact h.emit (.of_ne rfl (by simp) (by simp) (by simp)) rfl rfl rfl rfl
  | @processAck packetData rest _ =>
      refine h.quiet [.processAck (PacketHeader.ofBytes packetData)]
        (by simpa using Quiet.of_ne rfl (by simp) (by simp) (by simp)) rfl ?_ rfl rfl
      intro s packet hfind
      rw [HktReliableUdpClient.processAck, HktReliableUdpClient.emit, find_processAck] at hfind
      split at hfind
      · simp at hfind
      · exact h.pending s packet hfind
  | accept hqueue hdata => exact h.accept hqueue hdata _
  | poll hqueue => exact h.poll hqueue
  | resend currentTime _ => exact h.resend currentTime

end HoldsAttempt

/-- **Client sessions do not leak into each other where nothing is left over.**  In
every run in which each `Connect` that opens a socket finds no unacknowledged packet,
no unread payload and no unprocessed Data datagram, every Data packet that the client
transmits carries a payload passed to `Send` in the same attempt, and the payloads
polled in an attempt are, in order, those of Data datagrams that arrived in it. -/
theorem attempts_separate [Platform Addr] {events : List (ClientEvent Addr)}
    (hnothing : Historically (fun before event => ∀ serverAddr,
      event = .connect serverAddr true true →
        NothingLeftOver (run HktReliableUdpClient.step {} before)) events) :
    AttemptsSeparate (run HktReliableUdpClient.step {} events).trace := by
  have hrun : HoldsAttempt (run HktReliableUdpClient.step {} events) := by
    induction events using List.reverseRecOn with
    | nil => exact ⟨historically_nil _, by simp, rfl⟩
    | append_singleton before event ih =>
        obtain ⟨hbefore, hevent⟩ := historically_concat.mp hnothing
        rw [run_concat]
        exact preserved_of_moves (P := HoldsAttempt) (fun _ _ => HoldsAttempt.move)
          (step_moves_of_allowed _ event hevent fun _ _ => trivial) (ih hbefore)
  exact fun before action after htrace _ => hrun.separate before action after htrace

/-- A session whose packet is acknowledged before the client connects again. -/
theorem attempts_separate_acknowledged :
    AttemptsSeparate (run HktReliableUdpClient.step ({} : HktReliableUdpClient LoopbackAddr)
      [.connect ⟨7777⟩ true true, .receive (PacketHeader.toBytes { type := .ack }), .tick 0,
        .send 0 [1], .receive (PacketHeader.toBytes { type := .ack, lastAckedSequence := 1 }),
        .tick 0, .disconnect, .connect ⟨7777⟩ true true]).trace := by
  refine attempts_separate ?_
  simp only [historically_cons, historically_nil, reduceCtorEq, false_implies, implies_true,
    true_and, and_true]
  refine ⟨fun _ _ => ⟨by simp, rfl, by simp⟩, fun _ _ => ⟨?_, ?_, ?_⟩⟩
  · exact SparseMap.isEmpty_iff.mp (by decide +kernel)
  · decide +kernel
  · have hempty : (run HktReliableUdpClient.step ({} : HktReliableUdpClient LoopbackAddr)
        [.connect ⟨7777⟩ true true, .receive (PacketHeader.toBytes { type := .ack }), .tick 0,
          .send 0 [1], .receive (PacketHeader.toBytes { type := .ack, lastAckedSequence := 1 }),
          .tick 0, .disconnect]).incomingPackets = [] := by
      decide +kernel
    simp [hempty]

/-- A packet of the first session is unacknowledged when the client connects again, and
`CheckForResends` transmits it in the second. -/
theorem second_attempt_resends_first :
    ¬ AttemptsSeparate (run HktReliableUdpClient.step ({} : HktReliableUdpClient LoopbackAddr)
      [.connect ⟨7777⟩ true true, .receive (PacketHeader.toBytes { type := .ack }), .tick 0,
        .send 0 [1], .disconnect, .connect ⟨7777⟩ true true,
        .receive (PacketHeader.toBytes { type := .ack }), .tick 1]).trace := by
  let trace := (run HktReliableUdpClient.step ({} : HktReliableUdpClient LoopbackAddr)
      [.connect ⟨7777⟩ true true, .receive (PacketHeader.toBytes { type := .ack }), .tick 0,
        .send 0 [1], .disconnect, .connect ⟨7777⟩ true true,
        .receive (PacketHeader.toBytes { type := .ack }), .tick 1]).trace
  let packetData := PacketHeader.toBytes { type := .data, sequence := 1 } ++ [1]
  intro h
  have hsplit : trace = trace.take 15 ++ .socketSendTo packetData :: trace.drop 16 := by
    decide +kernel
  have hattempt : InAttempt (trace.take 15) := by
    refine ⟨trace.take 10, .connect, (trace.take 15).drop 11, ?_, rfl, ?_⟩ <;> decide +kernel
  have hsend := (h _ _ _ hsplit hattempt).sends packetData 1 rfl (by decide +kernel)
  exact absurd hsend (by decide +kernel)

end HktBase.CustomNet
