import HktBase.CustomNet.Delivery
import HktBase.CustomNet.Groups
import HktBase.CustomNet.Retries
import HktBase.CustomNet.StuckWindow

/-!
# A link that loses nothing

Whether the server drops a client whose link is healthy.  The receive window of the
client never opens, so none of its datagrams acknowledges a packet, and every packet of
the server is sent again until the resend limit is reached.  `never_dropped_iff` says
when that happens on the clock readings alone.

`Unanswered` is what holds of both endpoints and the datagrams between them, as long as
the server has sent the client at most 2^32 - 32 packets.
-/

namespace HktBase.CustomNet

open Transition

variable {Addr : Type}

/-! ## The numbers of the datagrams to a client -/

theorem toNat_le_of_mem_sequencesUpTo {n : ℕ} {s : UInt32} (h : s ∈ sequencesUpTo n) :
    s.toNat ≤ n := by
  obtain ⟨i, hi, rfl⟩ := List.mem_map.mp h
  rw [List.mem_range] at hi
  rw [UInt32.toNat_ofNat']
  exact (Nat.mod_le _ _).trans hi

/-- Pending packets are stored under the numbers that their datagrams carry. -/
def PendingNumbered (_ : String) (_ : List (ServerAction Addr))
    (connection : ClientConnection Addr) : Prop :=
  ∀ s packet, connection.pendingAckPackets.find s = some packet →
    (PacketHeader.ofBytes packet.packetData).sequence = s

section Server

open HktReliableUdpServer

variable [Platform Addr] {hears : String → PacketHeader → Prop}

theorem connectionInvariant_pendingNumbered :
    ConnectionInvariant hears (@PendingNumbered Addr) where
  fresh now newAddr := fun s packet hfind => by simp at hfind
  step hstep h := by
    intro s packet hfind
    cases hstep with
    | processAck now header _ =>
        rw [ClientConnection.processAck, find_processAck] at hfind
        split at hfind
        · simp at hfind
        · exact h s packet hfind
    | updateReceivedState sequence => exact h s packet hfind
    | sendTo dstAddr now data =>
        rw [ClientConnection.afterSendTo, SparseMap.find_add] at hfind
        split at hfind
        · next hsame =>
            obtain rfl := Option.some.inj hfind
            simp [ClientConnection.packetData, hsame]
        · exact h s packet hfind
  resend _ _ h := by
    intro s packet hfind
    obtain ⟨original, horiginal, hdata⟩ := packetData_of_find_resendPending _ _ hfind
    rw [← hdata]
    exact h s original horiginal
  groups _ h := h
  irrelevant _ h := h

/-- The Data datagrams sent to an address carry numbers up to the number of packets that
`SendTo` has numbered for it. -/
def NumbersData (addrStr : String) (server : HktReliableUdpServer Addr) : Prop :=
  ∀ destination packetData, .socketSendTo destination packetData ∈ server.trace →
    Platform.toString destination = addrStr → (PacketHeader.ofBytes packetData).type = .data →
    (PacketHeader.ofBytes packetData).sequence.toNat ≤ (sentSequences addrStr server.trace).length

/-- The number that `SendTo` gives out next on a connection: it counts the sends of one life,
and so is bounded by those of the whole history to the address. -/
theorem toNat_nextSequence_le {server : HktReliableUdpServer Addr} (hmoves : Moves hears {} server)
    {addrStr : String} {connection : ClientConnection Addr}
    (hfind : server.connections.find addrStr = some connection) :
    (connection.sentSequence + 1).toNat ≤ (sentSequences addrStr server.trace).length + 1 := by
  have hacks := connectionInvariant_tracksAcks.moves hmoves addrStr connection hfind
  have hlife := length_sentSequences_lifeIn_le addrStr server.trace
  have hsent : connection.sentSequence.toNat ≤
      (sentSequences addrStr (server.life addrStr)).length := by
    rw [hacks.sentSequence_eq, UInt32.toNat_ofNat']
    exact Nat.mod_le _ _
  calc (connection.sentSequence + 1).toNat
      ≤ connection.sentSequence.toNat + 1 := by
        rw [UInt32.toNat_add]
        exact Nat.mod_le _ _
    _ ≤ (sentSequences addrStr server.trace).length + 1 := Nat.succ_le_succ (hsent.trans hlife)

/-- The number of a pending packet. -/
theorem toNat_le_of_find_pending {server : HktReliableUdpServer Addr}
    (hmoves : Moves hears {} server) {addrStr : String} {connection : ClientConnection Addr}
    (hfind : server.connections.find addrStr = some connection) {s : UInt32}
    {packet : PendingPacket} (hpending : connection.pendingAckPackets.find s = some packet) :
    s.toNat ≤ (sentSequences addrStr server.trace).length := by
  have hacks := connectionInvariant_tracksAcks.moves hmoves addrStr connection hfind
  have hcontains : connection.pendingAckPackets.contains s = true := by
    simp [SparseMap.contains, hpending]
  obtain ⟨earlier, entry, later, hlife, hsends, -⟩ := (hacks.contains_iff s).mp hcontains
  have hsent : s ∈ sentSequences addrStr (server.life addrStr) :=
    mem_sentSequences.mpr ⟨entry, by simp [hlife], hsends⟩
  rw [hacks.sequences] at hsent
  exact (toNat_le_of_mem_sequencesUpTo hsent).trans
    (length_sentSequences_lifeIn_le addrStr server.trace)

theorem numbersData_of_moves {server : HktReliableUdpServer Addr} (hmoves : Moves hears {} server)
    (addrStr : String) : NumbersData addrStr server := by
  induction hmoves with
  | refl => simp [NumbersData]
  | @tail before next hbefore hmove ih =>
      -- it is enough to look at what the move adds to the trace
      have hadds : ∀ actions, next.trace = before.trace ++ actions →
          (∀ destination packetData, .socketSendTo destination packetData ∈ actions →
            Platform.toString destination = addrStr →
            (PacketHeader.ofBytes packetData).type = .data →
            (PacketHeader.ofBytes packetData).sequence.toNat ≤
              (sentSequences addrStr before.trace).length +
                (sentSequences addrStr actions).length) → NumbersData addrStr next := by
        intro actions htrace hactions destination packetData hmem hdestination htype
        rw [htrace] at hmem ⊢
        rw [sentSequences_append, List.length_append]
        rcases List.mem_append.mp hmem with hmem | hmem
        · exact (ih destination packetData hmem hdestination htype).trans (Nat.le_add_right _ _)
        · exact hactions destination packetData hmem hdestination htype
      cases hmove with
      | environment _ _ htrace _ => exact hadds [] (by simpa using htrace) (by simp)
      | report action hreport =>
          refine hadds [action] rfl fun destination packetData hmem _ htype => ?_
          obtain rfl := List.mem_singleton.mp hmem
          rw [ServerAction.IsReport, htype] at hreport
          simp at hreport
      | accept now newAddr _ => exact hadds [_] rfl (by simp)
      | @connection changed record after actions hrecord hstep =>
          refine hadds actions rfl fun destination packetData hmem hdestination _ => ?_
          cases hstep with
          | processAck now header _ => simp at hmem
          | updateReceivedState sequence => simp at hmem
          | sendTo dstAddr now data _ haddress =>
              obtain ⟨rfl, rfl⟩ : destination = dstAddr ∧ packetData = record.packetData data := by
                simpa using hmem
              obtain rfl := haddress.symm.trans hdestination
              simpa [ClientConnection.packetData, sentSequences] using
                toNat_nextSequence_le hbefore hrecord
      | resend currentTime =>
          obtain ⟨actions, hresends⟩ := resends_resendAll currentTime before
          refine hadds (.checkForResends currentTime :: actions) (by simp [hresends.trace]) ?_
          intro destination packetData hmem hdestination _
          -- a resend to this address comes from its own connection
          obtain ⟨other, connection, s, packet, hfind, rfl, hpending, rfl⟩ :=
            hresends.sends destination packetData (by simpa using hmem)
          have haddress := (groupsConsistent_init.moves hbefore).connection_address other connection
            hfind
          obtain rfl := haddress.symm.trans hdestination
          rw [connectionInvariant_pendingNumbered.moves hbefore _ connection hfind s packet hpending]
          exact (toNat_le_of_find_pending hbefore hfind hpending).trans (Nat.le_add_right _ _)
      | disconnect changed =>
          refine hadds _ (trace_disconnectClient changed before) ?_
          split <;> simp
      | joinGroup clientAddr groupId => exact hadds [] (by simp) (by simp)
      | leaveGroup clientAddr groupId => exact hadds [] (by simp) (by simp)

end Server

/-! ## A client whose window never opens -/

/-- The header carries a window that has not been opened. -/
def PacketHeader.CarriesFreshWindow (header : PacketHeader) : Prop :=
  header.lastAckedSequence = 0 ∧ header.ackBitfield = 0

theorem PacketHeader.CarriesFreshWindow.acksNothing {header : PacketHeader}
    (h : header.CarriesFreshWindow) (addrStr other : String) : AcksNothing addrStr other header := by
  intro _ s hs
  rw [PacketHeader.acks, h.1, h.2] at hs
  exact ReceiveWindow.mem_acked_fresh.mp hs

/-- A fresh window ignores the Data packet of this datagram, if it carries one. -/
def IgnoredWhenFresh (packetData : Bytes) : Prop :=
  (PacketHeader.ofBytes packetData).type = .data →
    (PacketHeader.ofBytes packetData).sequence.toNat ≤ 2 ^ 32 - 32

namespace HktReliableUdpClient

/-- The window of the client is fresh, as are those that its datagrams carry. -/
structure WindowClosed (client : HktReliableUdpClient Addr) : Prop where
  window : client.toReceiveWindow = {}
  pending : ∀ s packet, client.pendingAckPackets.find s = some packet →
    (PacketHeader.ofBytes packet.packetData).CarriesFreshWindow
  sent : ∀ packetData, .socketSendTo packetData ∈ client.trace →
    (PacketHeader.ofBytes packetData).CarriesFreshWindow
  incoming : ∀ packetData ∈ client.incomingPackets, IgnoredWhenFresh packetData

theorem WindowClosed.emit {client next : HktReliableUdpClient Addr} (h : WindowClosed client)
    (action : ClientAction) (htrace : next.trace = client.trace ++ [action])
    (hwindow : next.toReceiveWindow = client.toReceiveWindow)
    (hpending : next.pendingAckPackets = client.pendingAckPackets)
    (hincoming : next.incomingPackets = client.incomingPackets)
    (haction : ∀ packetData, action = .socketSendTo packetData →
      (PacketHeader.ofBytes packetData).CarriesFreshWindow) : WindowClosed next := by
  refine ⟨hwindow.trans h.window, hpending ▸ h.pending, fun packetData hmem => ?_,
    hincoming ▸ h.incoming⟩
  rw [htrace] at hmem
  rcases List.mem_append.mp hmem with hmem | hmem
  · exact h.sent packetData hmem
  · exact haction packetData (List.mem_singleton.mp hmem).symm

theorem WindowClosed.carriesFreshWindow {client : HktReliableUdpClient Addr}
    (h : WindowClosed client) (type : PacketType) (sequence : UInt32) :
    PacketHeader.CarriesFreshWindow
      { type := type
        sequence := sequence
        lastAckedSequence := client.receivedSequence
        ackBitfield := client.receivedAckBitfield } := by
  simp [PacketHeader.CarriesFreshWindow, h.window]

/-- No datagram that a fresh window ignores opens it, and nothing else touches the window of a
client. -/
theorem WindowClosed.move [Platform Addr] {allowed : HktReliableUdpClient Addr → Prop}
    {client next : HktReliableUdpClient Addr} (hmove : Move allowed IgnoredWhenFresh client next)
    (h : WindowClosed client) : WindowClosed next := by
  cases hmove with
  | environment clientSocket serverAddr receiverThread bIsStopping =>
      exact ⟨h.window, h.pending, h.sent, h.incoming⟩
  | connect serverAddr _ => exact h.emit .connect rfl rfl rfl rfl (by simp)
  | control data _ _ =>
      refine h.emit _ rfl rfl rfl rfl fun packetData hsent => ?_
      obtain rfl := ClientAction.socketSendTo.inj hsent
      rw [controlDatagram, PacketHeader.ofBytes_toBytes_append]
      exact h.carriesFreshWindow _ _
  | disconnect => exact h.emit .disconnect rfl rfl rfl rfl (by simp)
  | sendNothing data => exact h.emit (.send data) rfl rfl rfl rfl (by simp)
  | send now data _ =>
      have hdatagram : (PacketHeader.ofBytes (client.dataDatagram data)).CarriesFreshWindow := by
        rw [dataDatagram, PacketHeader.ofBytes_toBytes_append]
        exact h.carriesFreshWindow _ _
      refine ⟨h.window, fun s packet hfind => ?_, fun packetData hmem => ?_, h.incoming⟩
      · rw [afterSend, SparseMap.find_add] at hfind
        split at hfind
        · obtain rfl := Option.some.inj hfind
          exact hdatagram
        · exact h.pending s packet hfind
      · simp only [afterSend, trace_emit, List.mem_append, List.mem_cons, List.not_mem_nil,
          ClientAction.socketSendTo.injEq, reduceCtorEq, or_false] at hmem
        rcases hmem with hmem | rfl
        · exact h.sent packetData hmem
        · exact hdatagram
  | receive packetData harrives =>
      refine ⟨h.window, h.pending, fun other hmem => ?_, fun other hother => ?_⟩
      · exact h.sent other (by simpa using hmem)
      · rcases List.mem_append.mp hother with hother | hother
        · exact h.incoming other hother
        · exact List.mem_singleton.mp hother ▸ harrives
  | @skip packetData rest hqueue _ =>
      refine ⟨h.window, h.pending, h.sent, fun other hother => ?_⟩
      exact h.incoming other (hqueue ▸ List.mem_cons_of_mem packetData hother)
  | handshake _ _ _ => exact h.emit .handshakeComplete rfl rfl rfl rfl (by simp)
  | processAck _ =>
      refine ⟨h.window, fun s packet hfind => ?_, fun other hmem => ?_, h.incoming⟩
      · rw [processAck, HktReliableUdpClient.emit, find_processAck] at hfind
        split at hfind
        · simp at hfind
        · exact h.pending s packet hfind
      · exact h.sent other (by simpa [processAck] using hmem)
  | @accept packetData rest sequence hqueue hdata =>
      have hignored := h.incoming packetData (by simp [hqueue]) hdata.2.1
      rw [hdata.2.2] at hignored
      refine ⟨?_, h.pending, fun other hmem => ?_, fun other hother => ?_⟩
      · change client.toReceiveWindow.updateReceivedState _ _ = _
        rw [h.window, ReceiveWindow.updateReceivedState_fresh _ hignored]
      · exact h.sent other (by simpa [updateReceivedState] using hmem)
      · exact h.incoming other (hqueue ▸ List.mem_cons_of_mem packetData hother)
  | @poll payload rest _ => exact h.emit (.polled payload) rfl rfl rfl rfl (by simp)
  | resend currentTime _ =>
      refine ⟨h.window, fun s packet hfind => ?_, fun other hmem => ?_, h.incoming⟩
      · obtain ⟨original, horiginal, hdata⟩ := packetData_of_find_resendPending _ _ hfind
        rw [← hdata]
        exact h.pending s original horiginal
      · rcases List.mem_append.mp hmem with hmem | hmem
        · exact h.sent other hmem
        · obtain ⟨sent, hsent, haction⟩ := List.mem_flatMap.mp hmem
          obtain ⟨packet, hfind, hdata⟩ := mem_resent_resendPending _ _ hsent
          split at haction
          · obtain rfl : other = sent.2 := by simpa using haction
            exact hdata ▸ h.pending _ packet hfind
          · simp at haction

end HktReliableUdpClient

/-! ## Nothing on the link is acknowledged -/

namespace Link

variable [Platform Addr] {clientAddr : Addr} {link : Link Addr}

/-- What holds of the endpoints and of the datagrams between them while the window of the
client is closed. -/
structure Unanswered (clientAddr : Addr) (link : Link Addr) : Prop where
  client : link.client.WindowClosed
  moves : HktReliableUdpServer.Moves (AcksNothing (Platform.toString clientAddr)) {} link.server
  queue : link.server.HearsQueue (AcksNothing (Platform.toString clientAddr))
  replies : ∀ reply ∈ link.replies, ∃ destination,
    Platform.toString destination = Platform.toString clientAddr ∧
      .socketSendTo destination reply.packetData ∈ link.server.trace

theorem server_step_moves (link : Link Addr) (event : LinkEvent clientAddr) :
    HktReliableUdpServer.Moves anyHeader link.server (link.step event).server := by
  rcases link.server_step event with hsame | ⟨serverEvent, hstep⟩
  · rw [hsame]
  · rw [hstep]
    exact HktReliableUdpServer.step_moves link.server serverEvent

theorem Unanswered.serverStep (h : Unanswered clientAddr link) {event : ServerEvent Addr}
    (helsewhere : event.FromElsewhere clientAddr) :
    Unanswered clientAddr (link.serverStep clientAddr event) := by
  have hstep : HktReliableUdpServer.Moves (AcksNothing (Platform.toString clientAddr)) link.server
      (link.server.step event) := by
    refine HktReliableUdpServer.step_moves_of_hearsQueue event h.queue ?_
    rintro peerAddress receivedData rfl hsame
    exact absurd hsame helsewhere
  refine ⟨h.client, h.moves.trans hstep, ?_, fun reply hreply => ?_⟩
  · exact preserved_of_moves (P := HktReliableUdpServer.HearsQueue _)
      (fun _ _ => HktReliableUdpServer.HearsQueue.move) hstep h.queue
  · rcases List.mem_append.mp hreply with hreply | hreply
    · obtain ⟨destination, haddress, hmem⟩ := h.replies reply hreply
      exact ⟨destination, haddress,
        (HktReliableUdpServer.trace_prefix_of_moves hstep).subset hmem⟩
    · obtain ⟨-, destination, haddress, hmem⟩ := exists_socketSendTo_of_mem_repliesIn hreply
      exact ⟨destination, haddress, List.mem_of_mem_drop hmem⟩

theorem Unanswered.clientStep (h : Unanswered clientAddr link) (event : ClientEvent Addr)
    (harrives : ∀ packetData, event = .receive packetData → IgnoredWhenFresh packetData) :
    (link.client.step event).WindowClosed :=
  preserved_of_moves (P := HktReliableUdpClient.WindowClosed)
    (fun _ _ => HktReliableUdpClient.WindowClosed.move)
    (HktReliableUdpClient.step_moves_of_allowed link.client event (fun _ _ => trivial) harrives :
      HktReliableUdpClient.Moves HktReliableUdpClient.anyState IgnoredWhenFresh _ _)
    h.client

/-- No event makes the client acknowledge a packet, as long as the numbers are small: whatever
arrives at it, its window stays closed, and its datagrams acknowledge nothing. -/
theorem Unanswered.step (h : Unanswered clientAddr link) (event : LinkEvent clientAddr)
    (hcount : (sentSequences (Platform.toString clientAddr) link.server.trace).length ≤
      2 ^ 32 - 32) : Unanswered clientAddr (link.step event) := by
  cases event with
  | server event => exact h.serverStep event.2
  | client event =>
      refine ⟨h.clientStep event ?_, h.moves, h.queue, h.replies⟩
      intro packetData hevent
      exact (hevent ▸ event.2 : (ClientEvent.receive packetData : ClientEvent Addr).IsCall).elim
  | toServer i =>
      simp only [Link.step]
      split
      · exact h
      · next request hrequest =>
          -- what the client has sent carries a fresh window
          have hsent := h.client.sent request.packetData
            (socketSendTo_mem_of_mem_requestsFrom (List.mem_of_getElem? hrequest))
          have hstep := HktReliableUdpServer.receive_moves clientAddr
            (hsent.acksNothing (Platform.toString clientAddr) _) link.server
          refine ⟨h.client, h.moves.trans hstep, ?_, fun reply hreply => ?_⟩
          · exact preserved_of_moves (P := HktReliableUdpServer.HearsQueue _)
              (fun _ _ => HktReliableUdpServer.HearsQueue.move) hstep h.queue
          · obtain ⟨destination, haddress, hmem⟩ := h.replies reply hreply
            exact ⟨destination, haddress,
              (HktReliableUdpServer.trace_prefix_of_moves hstep).subset hmem⟩
  | toClient i =>
      simp only [Link.step]
      split
      · exact h
      · next reply hreply =>
          obtain ⟨destination, haddress, hmem⟩ := h.replies reply (List.mem_of_getElem? hreply)
          refine ⟨h.clientStep (.receive reply.packetData) ?_, h.moves, h.queue, h.replies⟩
          -- the Data packets on their way to the client have small numbers
          rintro packetData ⟨rfl⟩ htype
          exact (numbersData_of_moves h.moves _ destination _ hmem haddress htype).trans hcount

theorem unanswered_after (events : List (LinkEvent clientAddr))
    (hcount : (sentSequences (Platform.toString clientAddr)
      (after events).server.trace).length ≤ 2 ^ 32 - 32) :
    Unanswered clientAddr (after events) := by
  induction events using List.reverseRecOn with
  | nil => exact ⟨⟨rfl, by simp, by simp, by simp⟩, .refl, by simp [HktReliableUdpServer.HearsQueue],
      by simp⟩
  | append_singleton before event ih =>
      rw [after, run_concat] at hcount ⊢
      -- the trace only grows, so the bound held before the last event
      have hgrows := HktReliableUdpServer.trace_prefix_of_moves
        (server_step_moves (after before) event)
      have hbefore := (hgrows.sublist.filterMap _).length_le.trans hcount
      exact (ih hbefore).step event hbefore

/-! ## Healthy links -/

/-- The datagrams delivered to the server. -/
def deliveredToServer (events : List (LinkEvent clientAddr)) : ℕ :=
  events.countP fun
    | .toServer _ => true
    | _ => false

/-- The datagrams delivered to the client. -/
def deliveredToClient (events : List (LinkEvent clientAddr)) : ℕ :=
  events.countP fun
    | .toClient _ => true
    | _ => false

/-- A run up to the last `Tick` of the server. -/
def upToServerTick (events : List (LinkEvent clientAddr)) : List (LinkEvent clientAddr) :=
  (events.reverse.dropWhile fun
    | .server ⟨.tick _, _⟩ => false
    | _ => true).reverse

/-- A run up to the last `Tick` of the client. -/
def upToClientTick (events : List (LinkEvent clientAddr)) : List (LinkEvent clientAddr) :=
  (events.reverse.dropWhile fun
    | .client ⟨.tick _, _⟩ => false
    | _ => true).reverse

/-- Datagrams are delivered in order, once, to receiving endpoints.  An endpoint ticks only
when the other one has processed everything it has sent.  The client sends no packets and
does not disconnect, the server is not stopped, and nobody else takes part. -/
def isHealthy (before : List (LinkEvent clientAddr)) : LinkEvent clientAddr → Bool
  | .toServer i =>
      decide (i = deliveredToServer before ∧ i < (after before).client.requests.length) &&
        (after before).server.isReceiving
  | .toClient i =>
      decide (i = deliveredToClient before ∧ i < (after before).replies.length) &&
        (after before).client.isReceiving
  | .server ⟨.tick _, _⟩ =>
      decide ((after before).replies.length ≤ deliveredToClient (upToClientTick before))
  | .client ⟨.tick _, _⟩ =>
      decide ((after before).client.requests.length ≤ deliveredToServer (upToServerTick before))
  | .server ⟨.stop, _⟩ => false
  | .server ⟨.receive .., _⟩ => false
  | .client ⟨.send .., _⟩ => false
  | .client ⟨.disconnect, _⟩ => false
  | _ => true

/-- The clock readings of a step. -/
def readings (link : Link Addr) : LinkEvent clientAddr → List Time
  | .server ⟨.tick clock, _⟩ =>
      (List.range link.server.receivedPackets.length).map clock.packet ++
        [clock.resend, clock.timeout]
  | .server ⟨.sendTo now _ _, _⟩ => [now]
  | .server ⟨.broadcastToGroup clock groupId _ _, _⟩ =>
      match link.server.groups.find groupId with
      | none => []
      | some groupMembers => (List.range groupMembers.entries.length).map clock
  | .client ⟨.tick now, _⟩ => [now]
  | .client ⟨.send now _, _⟩ => [now]
  | _ => []

def readingsFrom : Link Addr → List (LinkEvent clientAddr) → List Time
  | _, [] => []
  | link, event :: rest => link.readings event ++ readingsFrom (link.step event) rest

/-- A lossless prompt link, on which the clock does not run backwards. -/
def Healthy (events : List (LinkEvent clientAddr)) : Prop :=
  Historically (fun before event => isHealthy before event = true) events ∧
    (readingsFrom {} events).Pairwise (· ≤ ·)

instance (events : List (LinkEvent clientAddr)) : Decidable (Healthy events) :=
  inferInstanceAs (Decidable (_ ∧ _))

/-- **When the resend limit drops the client.**  In every run of a server, a client and a
network: the server never puts the client on `ClientsToDisconnect` where retries are left
at every pass of `CheckForResends`.  As long as it has sent the client at most 2^32 - 32
packets, this is the only way, because no datagram of the client acknowledges a packet. -/
theorem never_dropped_iff (events : List (LinkEvent clientAddr)) :
    (Historically (RetriesLeft (Platform.toString clientAddr)) (after events).server.trace →
      .resendLimit (Platform.toString clientAddr) ∉ (after events).server.trace) ∧
    ((sentSequences (Platform.toString clientAddr)
        (after events).server.trace).length ≤ 2 ^ 32 - 32 →
      (.resendLimit (Platform.toString clientAddr) ∉ (after events).server.trace ↔
        Historically (RetriesLeft (Platform.toString clientAddr)) (after events).server.trace)) := by
  have hmoves : HktReliableUdpServer.Moves anyHeader {} (after events).server :=
    run_invariant (P := fun link : Link Addr => HktReliableUdpServer.Moves anyHeader {} link.server)
      .refl (fun link event h => h.trans (server_step_moves link event)) events
  refine ⟨resendLimit_not_mem hmoves, fun hcount => ⟨fun hnone => ?_, resendLimit_not_mem hmoves⟩⟩
  exact historically_retriesLeft (unanswered_after events hcount).moves (by omega) hnone

/-- A server tick, the delivery of the packet that it sends again, and a client tick. -/
def resendRound (i : ℕ) : List (LinkEvent (⟨7778⟩ : LoopbackAddr)) :=
  [.server ⟨.tick ⟨fun _ => 3 * i / 10, 3 * i / 10, 3 * i / 10⟩, trivial⟩, .toClient (i + 1),
    .client ⟨.tick (3 * i / 10), trivial⟩]

/-- A client connects and is sent one packet; both sides tick every 300 ms. -/
def onePacketEvents : List (LinkEvent (⟨7778⟩ : LoopbackAddr)) :=
  connectEvents ++ [.server ⟨.sendTo 0 (some ⟨7778⟩) [42], trivial⟩, .toClient 1,
    .client ⟨.tick 0, trivial⟩] ++ (List.range 10).flatMap fun i => resendRound (i + 1)

theorem healthy_client_dropped :
    let events := onePacketEvents ++ [.server ⟨.tick ⟨fun _ => 33/10, 33/10, 33/10⟩, trivial⟩]
    Healthy events ∧ (after onePacketEvents).client.bIsConnected = true ∧
      .resendLimit "127.0.0.1:7778" ∈ (after events).server.trace := by
  decide +kernel

end Link

end HktBase.CustomNet
