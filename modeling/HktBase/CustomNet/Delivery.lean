import HktBase.CustomNet.Link

/-!
# Hand-over to the game logic

Which Data packets `ProcessReceivedPackets` of the client hands over.  It enqueues the
payload of every Data packet that it takes from the queue, whatever the receive window
makes of its sequence number.  So a sequence number is handed over as often as a
datagram with it arrives, by duplication in the network or by the server's own resends.

The invariant `HandsOver` equates what has been handed over and what still waits with what
has arrived, in order.  `HandsOver.move` goes through the moves: an arrival lengthens both
sides, a Data packet that is taken passes from one list to the other, and every other move
is silent (`HandsOver.silent`).
-/

namespace HktBase.CustomNet

open Transition HktReliableUdpClient

variable {Addr : Type}

/-! ## Sequence numbers of a trace -/

/-- The sequence number of a datagram that carries a Data packet. -/
def dataSequence (packetData : Bytes) : Option UInt32 :=
  if IsDataPacket (PacketHeader.ofBytes packetData).sequence packetData then
    some (PacketHeader.ofBytes packetData).sequence
  else none

theorem dataSequence_of_isDataPacket {sequence : UInt32} {packetData : Bytes}
    (h : IsDataPacket sequence packetData) : dataSequence packetData = some sequence := by
  obtain ⟨hlength, htype, rfl⟩ := h
  exact if_pos ⟨hlength, htype, rfl⟩

theorem dataSequence_eq_none {packetData : Bytes}
    (h : ∀ sequence, ¬ IsDataPacket sequence packetData) : dataSequence packetData = none :=
  if_neg (h _)

/-- The sequence numbers whose payloads were enqueued for the game logic. -/
def enqueuedSequences (actions : List ClientAction) : List UInt32 :=
  actions.filterMap fun
    | .enqueued sequence _ => some sequence
    | _ => none

/-- The sequence numbers of the Data datagrams that have arrived. -/
def receivedSequences (actions : List ClientAction) : List UInt32 :=
  actions.filterMap fun
    | .received packetData => dataSequence packetData
    | _ => none

/-- The sequence numbers of the Data datagrams that wait in `IncomingPackets`. -/
def HktReliableUdpClient.waitingSequences (client : HktReliableUdpClient Addr) : List UInt32 :=
  client.incomingPackets.filterMap dataSequence

/-- The sequence numbers of the Data datagrams that have arrived and that a `Tick` has
taken from the queue since. -/
def HktReliableUdpClient.takenSequences (client : HktReliableUdpClient Addr) : List UInt32 :=
  (receivedSequences client.trace).take
    ((receivedSequences client.trace).length - client.waitingSequences.length)

/-! ## The invariant -/

/-- What was enqueued, followed by what waits, is what has arrived. -/
def HandsOver (client : HktReliableUdpClient Addr) : Prop :=
  enqueuedSequences client.trace ++ client.waitingSequences = receivedSequences client.trace

theorem HandsOver.takenSequences_eq {client : HktReliableUdpClient Addr} (h : HandsOver client) :
    client.takenSequences = enqueuedSequences client.trace := by
  have hlength := congrArg List.length h
  rw [List.length_append] at hlength
  rw [takenSequences, ← h, List.length_append, Nat.add_sub_cancel, List.take_left]

/-- An action that neither hands over a payload nor is an arrival. -/
def ClientAction.IsSilent : ClientAction → Prop
  | .enqueued .. => False
  | .received _ => False
  | _ => True

/-- Actions that are neither an arrival nor a hand-over, with the queue unchanged in the Data
packets that it holds. -/
theorem HandsOver.silent {client next : HktReliableUdpClient Addr} (h : HandsOver client)
    (more : List ClientAction) (hmore : ∀ action ∈ more, action.IsSilent)
    (htrace : next.trace = client.trace ++ more)
    (hwaiting : next.waitingSequences = client.waitingSequences) : HandsOver next := by
  have henqueued : enqueuedSequences more = [] := by
    refine List.filterMap_eq_nil_iff.mpr fun action haction => ?_
    cases action with
    | enqueued sequence payload => exact absurd (hmore _ haction) id
    | _ => rfl
  have hreceived : receivedSequences more = [] := by
    refine List.filterMap_eq_nil_iff.mpr fun action haction => ?_
    cases action with
    | received packetData => exact absurd (hmore _ haction) id
    | _ => rfl
  unfold HandsOver at h ⊢
  rw [htrace, hwaiting]
  simp only [enqueuedSequences, receivedSequences, List.filterMap_append] at henqueued hreceived h ⊢
  rw [henqueued, hreceived, List.append_nil, List.append_nil, h]

theorem HandsOver.emit {client next : HktReliableUdpClient Addr} (h : HandsOver client)
    {action : ClientAction} (htrace : next.trace = client.trace ++ [action])
    (haction : action.IsSilent) (hwaiting : next.waitingSequences = client.waitingSequences) :
    HandsOver next :=
  h.silent [action] (fun _ hother => List.mem_singleton.mp hother ▸ haction) htrace hwaiting

theorem isSilent_of_mem_resendActions {client : HktReliableUdpClient Addr} {currentTime : Time}
    {action : ClientAction} (haction : action ∈ client.resendActions currentTime) :
    action.IsSilent := by
  rcases mem_resendActions_cases haction with ⟨packetData, rfl⟩ | rfl | ⟨s, rfl⟩
  · trivial
  · trivial
  · trivial

/-- Every move hands over exactly what it takes from the queue: the verdict of the window is no
part of the move that enqueues a payload. -/
theorem HandsOver.move [Platform Addr] {allowed : HktReliableUdpClient Addr → Prop}
    {arrives : Bytes → Prop} {client next : HktReliableUdpClient Addr}
    (hmove : Move allowed arrives client next) (h : HandsOver client) : HandsOver next := by
  cases hmove with
  | environment clientSocket serverAddr receiverThread bIsStopping => exact h
  | connect serverAddr _ => exact h.emit rfl trivial rfl
  | control data _ _ => exact h.emit rfl trivial rfl
  | disconnect => exact h.emit rfl trivial rfl
  | sendNothing data => exact h.emit rfl trivial rfl
  | send now data _ =>
      have hcalled : HandsOver (client.emit (.send data)) := h.emit rfl trivial rfl
      refine hcalled.silent [.socketSendTo (client.dataDatagram data),
          .sentData (client.sentSequence + 1) now] (fun action haction => ?_) rfl rfl
      rcases List.mem_pair.mp haction with rfl | rfl <;> trivial
  | receive packetData _ =>
      simp only [HandsOver, waitingSequences, enqueuedSequences, receivedSequences] at h
      simp only [HandsOver, waitingSequences, enqueuedSequences, receivedSequences,
        HktReliableUdpClient.emit, List.filterMap_append, ← h]
      cases hsequence : dataSequence packetData <;> simp [hsequence]
  | skip hqueue hskip =>
      refine h.silent [] (by simp) (by simp) ?_
      rw [waitingSequences, waitingSequences, hqueue, List.filterMap_cons,
        dataSequence_eq_none hskip]
  | handshake _ _ _ => exact h.emit rfl trivial rfl
  | processAck _ => exact h.emit rfl trivial rfl
  -- the head of the waiting numbers becomes the last one handed over
  | accept hqueue hdata =>
      simp only [HandsOver, waitingSequences, enqueuedSequences, receivedSequences, hqueue,
        List.filterMap_cons, dataSequence_of_isDataPacket hdata] at h
      simp only [HandsOver, waitingSequences, enqueuedSequences, receivedSequences,
        HktReliableUdpClient.emit, updateReceivedState, List.filterMap_append, ← h]
      simp
  | poll _ => exact h.emit rfl trivial rfl
  | resend currentTime _ =>
      exact h.silent (client.resendActions currentTime)
        (fun action haction => isSilent_of_mem_resendActions haction) rfl rfl

variable [Platform Addr] {clientAddr : Addr}

theorem Link.handsOver_after (events : List (LinkEvent clientAddr)) :
    HandsOver (Link.after events).client :=
  Link.client_invariant (P := HandsOver) rfl (fun _ _ => HandsOver.move) events

/-- **When payloads are handed over at most once.**  In every run of a server, a client
and the network, at most one payload is enqueued for each Data sequence number exactly
when no two Data datagrams with the same number have arrived and been taken by a
`Tick` of the client. -/
theorem enqueued_at_most_once_iff (events : List (LinkEvent clientAddr)) :
    (∀ s, (enqueuedSequences (Link.after events).client.trace).count s ≤ 1) ↔
      ∀ s, (Link.after events).client.takenSequences.count s ≤ 1 := by
  rw [(Link.handsOver_after events).takenSequences_eq]

/-- A client at port 7778 connects to a server at port 7777. -/
def connectEvents : List (LinkEvent (⟨7778⟩ : LoopbackAddr)) :=
  [.server ⟨.start true, trivial⟩, .client ⟨.connect ⟨7777⟩ true true, trivial⟩, .toServer 0,
    .server ⟨.tick ⟨fun _ => 0, 0, 0⟩, trivial⟩, .toClient 0, .client ⟨.tick 0, trivial⟩]

/-- The server sends one packet and, 300 ms later, sends it again; both arrive. -/
theorem resent_packet_enqueued_twice :
    (enqueuedSequences (Link.after (connectEvents ++
      [.server ⟨.sendTo 0 (some ⟨7778⟩) [42], trivial⟩,
        .server ⟨.tick ⟨fun _ => 3/10, 3/10, 3/10⟩, trivial⟩, .toClient 1, .toClient 2,
        .client ⟨.tick (3/10), trivial⟩])).client.trace).count 1 = 2 := by
  decide +kernel

end HktBase.CustomNet
