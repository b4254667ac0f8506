import HktBase.CustomNet.Groups
import HktBase.CustomNet.Received

/-!
# Isolation of the peers

What the datagrams of one peer can change.  `OnlyTouches addrStr` relates two states of
the server that differ at most in the record of one address, in the groups and in the
queue, and whose trace has gained datagrams to that address only.  The loop body of
`ProcessReceivedPackets` stays inside this relation for the address of the sender.

The groups need no lemma of their own: they agree with the records before and after
(`GroupsConsistent`), so a membership can change only with the record that lists it.

One lemma for each function that the loop body calls (`OnlyTouches.sendAck`,
`OnlyTouches.disconnectClient`, `OnlyTouches.joinGroup`, `OnlyTouches.leaveGroup`) gives
`onlyTouches_dispatch`, and `OnlyTouches.trans` carries it over the list.  A datagram that is
ignored is followed through the tests of the loop body instead.
-/

namespace HktBase.CustomNet

open HktReliableUdpServer

variable {Addr : Type}

/-! ## Changes at one address -/

/-- The actions send datagrams to the address only. -/
def SendsOnlyTo [Platform Addr] (addrStr : String) (actions : List (ServerAction Addr)) : Prop :=
  ∀ destination packetData, .socketSendTo destination packetData ∈ actions →
    Platform.toString destination = addrStr

/-- Nothing but what belongs to the address differs between the two states. -/
structure OnlyTouches [Platform Addr] (addrStr : String)
    (before after : HktReliableUdpServer Addr) : Prop where
  connections : ∀ other, other ≠ addrStr →
    after.connections.find other = before.connections.find other
  trace : ∃ actions, after.trace = before.trace ++ actions ∧ SendsOnlyTo addrStr actions

namespace OnlyTouches

variable [Platform Addr] {addrStr : String} {before middle after : HktReliableUdpServer Addr}

theorem of_trace_eq (hconnections : ∀ other, other ≠ addrStr →
      after.connections.find other = before.connections.find other)
    (htrace : after.trace = before.trace) : OnlyTouches addrStr before after where
  connections := hconnections
  trace := ⟨[], by rw [htrace, List.append_nil], by simp [SendsOnlyTo]⟩

theorem refl (addrStr : String) (server : HktReliableUdpServer Addr) :
    OnlyTouches addrStr server server :=
  of_trace_eq (fun _ _ => rfl) rfl

theorem trans (hfirst : OnlyTouches addrStr before middle)
    (hsecond : OnlyTouches addrStr middle after) : OnlyTouches addrStr before after := by
  obtain ⟨first, hmiddle, hsends⟩ := hfirst.trace
  obtain ⟨second, hafter, hsends'⟩ := hsecond.trace
  refine ⟨fun other hne => ?_, first ++ second, ?_, fun destination packetData hmem => ?_⟩
  · rw [hsecond.connections other hne]
    exact hfirst.connections other hne
  · rw [hafter, hmiddle, List.append_assoc]
  · rcases List.mem_append.mp hmem with hmem | hmem
    · exact hsends destination packetData hmem
    · exact hsends' destination packetData hmem

theorem setConnection (connection : ClientConnection Addr) {action : ServerAction Addr}
    (haction : ∀ destination packetData, action ≠ .socketSendTo destination packetData)
    (server : HktReliableUdpServer Addr) :
    OnlyTouches addrStr server ((server.setConnection addrStr connection).emit action) := by
  refine ⟨fun other hne => SparseMap.find_add_of_ne _ _ hne, [action], rfl, ?_⟩
  intro destination packetData hmem
  exact absurd (List.mem_singleton.mp hmem).symm (haction destination packetData)

theorem sendAck (connection : ClientConnection Addr)
    (haddress : Platform.toString connection.address = addrStr)
    (server : HktReliableUdpServer Addr) :
    OnlyTouches addrStr server (server.sendAck connection) := by
  refine ⟨fun _ _ => rfl, _, rfl, fun destination packetData hmem => ?_⟩
  split at hmem
  · obtain ⟨rfl, -⟩ : destination = connection.address ∧ _ := by simpa using hmem
    exact haddress
  · simp at hmem

theorem disconnectClient (addrStr : String) (server : HktReliableUdpServer Addr) :
    OnlyTouches addrStr server (server.disconnectClient addrStr) := by
  refine ⟨fun other hne => ?_, _, trace_disconnectClient addrStr server, ?_⟩
  · rw [find_connections_disconnectClient, if_neg hne]
  · intro destination packetData hmem
    split at hmem <;> simp at hmem

theorem joinGroup (clientAddr : Addr) (groupId : Int32) (server : HktReliableUdpServer Addr) :
    OnlyTouches (Platform.toString clientAddr) server (server.joinGroup clientAddr groupId) := by
  have hchanges := changesGroups_joinGroup clientAddr groupId server
  exact of_trace_eq (fun other hne => hchanges.find_connections_of_ne hne) hchanges.trace

theorem leaveGroup (clientAddr : Addr) (groupId : Int32) (server : HktReliableUdpServer Addr) :
    OnlyTouches (Platform.toString clientAddr) server (server.leaveGroup clientAddr groupId) := by
  have hchanges := changesGroups_leaveGroup clientAddr groupId server
  exact of_trace_eq (fun other hne => hchanges.find_connections_of_ne hne) hchanges.trace

/-- The memberships of every other address are as before. -/
theorem isMember_iff (h : OnlyTouches addrStr before after) (hbefore : GroupsConsistent before)
    (hafter : GroupsConsistent after) {other : String} (hne : other ≠ addrStr) (groupId : Int32) :
    IsMember after.groups groupId other ↔ IsMember before.groups groupId other := by
  calc IsMember after.groups groupId other
      ↔ ListsGroup after.connections other groupId := hafter.member_iff groupId other
    _ ↔ ListsGroup before.connections other groupId := by
        unfold ListsGroup
        rw [h.connections other hne]
    _ ↔ IsMember before.groups groupId other := (hbefore.member_iff groupId other).symm

end OnlyTouches

/-! ## The handlers -/

section

variable [Platform Addr] {server : HktReliableUdpServer Addr} {peerAddress : Addr}

theorem onlyTouches_handleNewConnection (now : Time) (newAddr : Addr)
    (server : HktReliableUdpServer Addr) :
    OnlyTouches (Platform.toString newAddr) server (server.handleNewConnection now newAddr) := by
  unfold handleNewConnection
  dsimp only
  split
  · exact .refl _ server
  · refine (OnlyTouches.setConnection _ ?_ server).trans
      (.sendAck { address := newAddr, lastReceiveTime := now } rfl _)
    simp

/-- The `switch`, for a record whose address prints to the key it is stored under: the Ack of a
Data packet goes to the address in the record, not to that of the datagram. -/
theorem onlyTouches_dispatch (connection : ClientConnection Addr) (packetData : Bytes)
    (haddress : Platform.toString connection.address = Platform.toString peerAddress)
    (server : HktReliableUdpServer Addr) :
    OnlyTouches (Platform.toString peerAddress) server
      (server.dispatch ⟨peerAddress, packetData⟩ connection) := by
  unfold dispatch
  dsimp only
  split
  · -- Data: the record is written back and answered
    refine OnlyTouches.trans ?_
      (.sendAck (connection.updateReceivedState _) haddress _)
    exact .of_trace_eq (fun other hne => SparseMap.find_add_of_ne _ _ hne) rfl
  · exact .refl _ server
  · exact .disconnectClient _ server
  · split
    · exact .joinGroup peerAddress _ server
    · exact .refl _ server
  · split
    · exact .leaveGroup peerAddress _ server
    · exact .refl _ server
  · exact .refl _ server

/-- One datagram, whatever its bytes, touches nothing but what belongs to its sender.  The
record that the `switch` works on is stored under the address of the sender, which
`GroupsConsistent` keeps. -/
theorem onlyTouches_processReceivedPacket (h : GroupsConsistent server) (now : Time)
    (packetData : Bytes) :
    OnlyTouches (Platform.toString peerAddress) server
      (server.processReceivedPacket now ⟨peerAddress, packetData⟩) := by
  unfold processReceivedPacket
  dsimp only
  split
  · exact .refl _ server
  · split
    -- no record: only a Connect is looked at
    · split
      · exact onlyTouches_handleNewConnection now peerAddress server
      · exact .refl _ server
    · next connection hfind =>
        have haddress := h.connection_address _ connection hfind
        refine (OnlyTouches.setConnection _ ?_ server).trans
          (onlyTouches_dispatch (connection.afterAck now _) packetData haddress _)
        simp

theorem onlyTouches_processDatagrams (h : GroupsConsistent server) (peerAddress : Addr)
    (arrivals : List (Time × Bytes)) :
    OnlyTouches (Platform.toString peerAddress) server
      (processDatagrams peerAddress arrivals server) := by
  induction arrivals generalizing server with
  | nil => exact .refl _ server
  | cons arrival rest ih =>
      have hmoves : Moves anyHeader server
          (server.processReceivedPacket arrival.1 ⟨peerAddress, arrival.2⟩) :=
        processReceivedPacket_moves trivial arrival.1 server
      exact (onlyTouches_processReceivedPacket h arrival.1 arrival.2).trans (ih (h.moves hmoves))

end

/-! ## Datagrams that are ignored -/

/-- A datagram too short for a header, or from a stranger that does not ask to connect. -/
def Ignored [Platform Addr] (server : HktReliableUdpServer Addr) (peerAddress : Addr)
    (packetData : Bytes) : Prop :=
  packetData.length < sizeofPacketHeader ∨
    (server.connections.find (Platform.toString peerAddress) = none ∧
      (PacketHeader.ofBytes packetData).type ≠ .connect)

theorem processReceivedPacket_of_ignored [Platform Addr] {server : HktReliableUdpServer Addr}
    {peerAddress : Addr} {packetData : Bytes} (h : Ignored server peerAddress packetData)
    (now : Time) : server.processReceivedPacket now ⟨peerAddress, packetData⟩ = server := by
  unfold processReceivedPacket
  dsimp only
  rcases h with hshort | ⟨hstranger, htype⟩
  · rw [if_pos hshort]
  · rw [hstranger]
    dsimp only
    rw [if_neg htype, ite_self]

/-- The server with a queue of datagrams of one peer. -/
def HktReliableUdpServer.withQueue (peerAddress : Addr) (datagrams : List Bytes)
    (server : HktReliableUdpServer Addr) : HktReliableUdpServer Addr :=
  { server with receivedPackets := datagrams.map fun data => ⟨peerAddress, data⟩ }

/-- **One peer's packets cannot touch another's state.**  In every reachable state of the
server, when `ProcessReceivedPackets` works off any list of datagrams of one peer: the
record and the memberships of every other address are as before, and every datagram that
it sends goes to the peer.  A datagram shorter than a header, or of a stranger and no
Connect, changes nothing at all. -/
theorem peers_are_isolated [Platform Addr] (events : List (ServerEvent Addr)) (peerAddress : Addr)
    (datagrams : List Bytes) (clock : ℕ → Time) :
    let server := Transition.run step {} events
    let next := (server.withQueue peerAddress datagrams).processReceivedPackets clock
    (∀ addrStr, addrStr ≠ Platform.toString peerAddress →
      next.connections.find addrStr = server.connections.find addrStr ∧
        ∀ groupId, IsMember next.groups groupId addrStr ↔
          IsMember server.groups groupId addrStr) ∧
    (∃ actions, next.trace = server.trace ++ actions ∧
      ∀ destination packetData, .socketSendTo destination packetData ∈ actions →
        Platform.toString destination = Platform.toString peerAddress) ∧
    ∀ packetData, Ignored server peerAddress packetData →
      (server.withQueue peerAddress [packetData]).processReceivedPackets clock =
        server.withQueue peerAddress [] := by
  intro server next
  have hconsistent : GroupsConsistent (server.withQueue peerAddress []) :=
    (groups_consistent events).of_connections rfl (fun _ _ => Iff.rfl)
      (groups_consistent events).connection_address
  have hprocess : ∀ queue, (server.withQueue peerAddress queue).processReceivedPackets clock =
      processDatagrams peerAddress (queue.zipIdx.map fun packet => (clock packet.2, packet.1))
        (server.withQueue peerAddress []) :=
    fun queue => processReceivedPackets_eq_processDatagrams clock queue rfl
  have htouches : OnlyTouches (Platform.toString peerAddress)
      (server.withQueue peerAddress []) next := by
    rw [show next = _ from hprocess datagrams]
    exact onlyTouches_processDatagrams hconsistent peerAddress _
  -- memberships are compared through the records, before and after
  have hafter : GroupsConsistent next := by
    rw [show next = _ from hprocess datagrams]
    exact hconsistent.moves (processDatagrams_moves peerAddress _ _)
  refine ⟨fun addrStr hne => ⟨htouches.connections addrStr hne, fun groupId => ?_⟩,
    htouches.trace, fun packetData hignored => ?_⟩
  · exact htouches.isMember_iff hconsistent hafter hne groupId
  · have hsame : Ignored (server.withQueue peerAddress []) peerAddress packetData := hignored
    rw [hprocess]
    exact processReceivedPacket_of_ignored hsame (clock 0)

end HktBase.CustomNet
