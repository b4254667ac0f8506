import HktBase.CustomNet.Groups

/-!
# What a disconnect erases

`DisconnectClient` visits the groups that the removed connection lists, and no other ones.
Since the two indexes of membership agree, these are the groups that have the client as a
member, so that the client is erased everywhere and nothing else is: `Erases`.

Over a list of clients the erasures do not depend on their order: `SameState` compares two
states by what their maps hold, not by the slots in which the entries lie.

The chain is `find_foldl_removeMember` (the sweep over the listed groups, at one group),
`GroupsConsistent.erases` (one disconnect), `GroupsConsistent.erasesAll` (a list of them, by
induction) and `GroupsConsistent.sameState`, which compares two lists through what
`erasesAll` says of each.
-/

namespace HktBase.CustomNet

open HktReliableUdpServer Transition

variable {Addr : Type}

/-! ## One client -/

/-- The client is gone from the connections and from every group, a group that it was the
last member of is gone, and all else is as before. -/
structure Erases (addrStr : String) (before after : HktReliableUdpServer Addr) : Prop where
  connections : ∀ other, after.connections.find other =
    if other = addrStr then none else before.connections.find other
  groups : ∀ groupId, after.groups.find groupId =
    ((before.groups.find groupId).map fun groupMembers => groupMembers.remove addrStr).filter
      fun groupMembers => !groupMembers.isEmpty
  listenSocket : after.listenSocket = before.listenSocket
  receiverThread : after.receiverThread = before.receiverThread
  bIsStopping : after.bIsStopping = before.bIsStopping
  receivedPackets : after.receivedPackets = before.receivedPackets

/-- The sweep of `DisconnectClient` at one group: a listed group loses the client, and is gone
when that leaves it empty; a group that is not listed is as before. -/
theorem find_foldl_removeMember (addrStr : String) {groupIds : List Int32}
    (hnodup : groupIds.Nodup) (groups : TMap Int32 (TMap String Addr)) (groupId : Int32) :
    (groupIds.foldl (removeMember addrStr) groups).find groupId =
      if groupId ∈ groupIds then
        ((groups.find groupId).map fun groupMembers => groupMembers.remove addrStr).filter
          fun groupMembers => !groupMembers.isEmpty
      else groups.find groupId := by
  induction groupIds generalizing groups with
  | nil => simp
  | cons first rest ih =>
      obtain ⟨hfresh, hrest⟩ := List.nodup_cons.mp hnodup
      rw [List.foldl_cons, ih hrest]
      simp only [find_removeMember, List.mem_cons]
      by_cases hsame : groupId = first
      -- groups are listed once, so that the rest of the sweep does not visit this one again
      · subst hsame
        rw [if_neg hfresh, if_pos rfl, if_pos (Or.inl rfl)]
      · simp only [hsame, false_or, if_false]

variable [Platform Addr] {server : HktReliableUdpServer Addr}

/-- Removing a client from a group that it is no member of changes nothing: no group is empty,
so that the test for emptiness does not take the group either. -/
theorem GroupsConsistent.erase_of_not_isMember (h : GroupsConsistent server) {addrStr : String}
    {groupId : Int32} (hmember : ¬ IsMember server.groups groupId addrStr) :
    ((server.groups.find groupId).map fun groupMembers => groupMembers.remove addrStr).filter
      (fun groupMembers => !groupMembers.isEmpty) = server.groups.find groupId := by
  cases hfind : server.groups.find groupId with
  | none => rfl
  | some groupMembers =>
      have hnone : groupMembers.find addrStr = none := by
        refine Option.eq_none_iff_forall_ne_some.mpr fun address hstored => hmember ?_
        exact ⟨groupMembers, hfind, SparseMap.contains_iff.mpr ⟨address, hstored⟩⟩
      rw [Option.map_some, SparseMap.remove_of_find_eq_none hnone]
      exact Option.filter_eq_some_iff.mpr ⟨rfl, by simp [h.nonempty groupId groupMembers hfind]⟩

/-- The connections, flags and queue after a disconnect. -/
theorem GroupsConsistent.erases (h : GroupsConsistent server) (addrStr : String) :
    Erases addrStr server (server.disconnectClient addrStr) := by
  refine ⟨fun other => find_connections_disconnectClient addrStr other server, fun groupId => ?_,
    ?_, ?_, ?_, receivedPackets_disconnectClient addrStr server⟩
  · -- the groups that are visited are those that have the client as a member
    have hmember := h.member_iff groupId addrStr
    unfold HktReliableUdpServer.disconnectClient
    cases hfind : server.connections.find addrStr with
    | none =>
        refine (h.erase_of_not_isMember ?_).symm
        rw [hmember]
        rintro ⟨connection, hconnection, -⟩
        rw [hfind] at hconnection
        simp at hconnection
    | some connection =>
        dsimp only
        rw [groups_emit, find_foldl_removeMember addrStr connection.groupIds.nodup_keys]
        split
        · rfl
        · next hunlisted =>
            refine (h.erase_of_not_isMember ?_).symm
            rw [hmember]
            rintro ⟨found, hfound, hcontains⟩
            obtain rfl := Option.some.inj (hfind.symm.trans hfound)
            exact hunlisted (SparseMap.mem_keys.mpr (SparseMap.contains_iff.mp hcontains))
  · unfold HktReliableUdpServer.disconnectClient
    split <;> rfl
  · unfold HktReliableUdpServer.disconnectClient
    split <;> rfl
  · unfold HktReliableUdpServer.disconnectClient
    split <;> rfl

/-! ## Several clients -/

/-- The address that a group has stored for a member. -/
def memberAddress (groups : TMap Int32 (TMap String Addr)) (groupId : Int32) (addrStr : String) :
    Option Addr :=
  (groups.find groupId).bind fun groupMembers => groupMembers.find addrStr

omit [Platform Addr] in
theorem Erases.memberAddress_eq {addrStr : String} {next : HktReliableUdpServer Addr}
    (h : Erases addrStr server next) (groupId : Int32) (member : String) :
    memberAddress next.groups groupId member =
      if member = addrStr then none else memberAddress server.groups groupId member := by
  unfold memberAddress
  rw [h.groups]
  cases hfind : server.groups.find groupId with
  | none => simp
  | some groupMembers =>
      rw [Option.map_some, Option.bind_some]
      by_cases hempty : (groupMembers.remove addrStr).isEmpty = true
      · -- a group that is removed has lost its last member
        have hnone := SparseMap.isEmpty_iff.mp hempty member
        rw [SparseMap.find_remove] at hnone
        rw [Option.filter_some_neg (by simp [hempty]), Option.bind_none, hnone]
      · rw [Option.filter_some_pos (by simp [hempty]), Option.bind_some, SparseMap.find_remove]

/-- Two states hold the same, whatever the slots of their maps. -/
structure SameState (first second : HktReliableUdpServer Addr) : Prop where
  connections : ∀ addrStr, first.connections.find addrStr = second.connections.find addrStr
  groups : ∀ groupId, first.groups.contains groupId = second.groups.contains groupId
  members : ∀ groupId addrStr,
    memberAddress first.groups groupId addrStr = memberAddress second.groups groupId addrStr
  listenSocket : first.listenSocket = second.listenSocket
  receiverThread : first.receiverThread = second.receiverThread
  bIsStopping : first.bIsStopping = second.bIsStopping
  receivedPackets : first.receivedPackets = second.receivedPackets

/-- The clients are gone from the connections and from every group, and all else is as
before. -/
structure ErasesAll (clients : List String) (before after : HktReliableUdpServer Addr) :
    Prop where
  connections : ∀ other, after.connections.find other =
    if other ∈ clients then none else before.connections.find other
  members : ∀ groupId member, memberAddress after.groups groupId member =
    if member ∈ clients then none else memberAddress before.groups groupId member
  listenSocket : after.listenSocket = before.listenSocket
  receiverThread : after.receiverThread = before.receiverThread
  bIsStopping : after.bIsStopping = before.bIsStopping
  receivedPackets : after.receivedPackets = before.receivedPackets

/-- A list of disconnects, in any order and with repetitions: each client of the list is gone
from the connections and from every group, and every other entry stays. -/
theorem GroupsConsistent.erasesAll (h : GroupsConsistent server) (clients : List String) :
    ErasesAll clients server
        (clients.foldl (fun server addrStr => server.disconnectClient addrStr) server) ∧
      GroupsConsistent
        (clients.foldl (fun server addrStr => server.disconnectClient addrStr) server) := by
  induction clients generalizing server with
  | nil => exact ⟨⟨by simp, by simp, rfl, rfl, rfl, rfl⟩, h⟩
  | cons addrStr rest ih =>
      have hfirst := h.erases addrStr
      -- consistency is needed again after the first disconnect, for the rest of the list
      obtain ⟨hrest, hnext⟩ := ih (h.disconnectClient addrStr)
      rw [List.foldl_cons]
      refine ⟨⟨fun other => ?_, fun groupId member => ?_, hrest.listenSocket.trans
        hfirst.listenSocket, hrest.receiverThread.trans hfirst.receiverThread,
        hrest.bIsStopping.trans hfirst.bIsStopping,
        hrest.receivedPackets.trans hfirst.receivedPackets⟩, hnext⟩
      · rw [hrest.connections, hfirst.connections]
        by_cases hother : other ∈ rest
        · simp [hother]
        · simp [hother]
      · rw [hrest.members, hfirst.memberAddress_eq]
        by_cases hmember : member ∈ rest
        · simp [hmember]
        · simp [hmember]

/-- No group is empty, so that a group is there exactly when it has a member. -/
theorem GroupsConsistent.contains_iff (h : GroupsConsistent server) (groupId : Int32) :
    server.groups.contains groupId = true ↔
      ∃ addrStr, memberAddress server.groups groupId addrStr ≠ none := by
  unfold memberAddress
  constructor
  · intro hcontains
    obtain ⟨groupMembers, hfind⟩ := SparseMap.contains_iff.mp hcontains
    by_contra hnone
    have hempty : groupMembers.isEmpty = true := by
      apply SparseMap.isEmpty_iff.mpr
      intro addrStr
      by_contra hmember
      refine hnone ⟨addrStr, ?_⟩
      rwa [hfind, Option.bind_some]
    rw [h.nonempty groupId groupMembers hfind] at hempty
    simp at hempty
  · rintro ⟨addrStr, hmember⟩
    cases hfind : server.groups.find groupId with
    | none => simp [hfind] at hmember
    | some groupMembers => exact SparseMap.contains_iff.mpr ⟨groupMembers, hfind⟩

/-- Disconnecting the same clients in another order, or more than once, gives the same: what
`erasesAll` says of the result depends on which clients are in the list only. -/
theorem GroupsConsistent.sameState (h : GroupsConsistent server) {clients others : List String}
    (hsame : ∀ addrStr, addrStr ∈ others ↔ addrStr ∈ clients) :
    SameState (clients.foldl (fun server addrStr => server.disconnectClient addrStr) server)
      (others.foldl (fun server addrStr => server.disconnectClient addrStr) server) := by
  obtain ⟨hclients, hafter⟩ := h.erasesAll clients
  obtain ⟨hothers, hafter'⟩ := h.erasesAll others
  have hmembers : ∀ groupId addrStr, memberAddress
      (clients.foldl (fun server addrStr => server.disconnectClient addrStr) server).groups
        groupId addrStr =
      memberAddress (others.foldl (fun server addrStr => server.disconnectClient addrStr)
        server).groups groupId addrStr := by
    intro groupId addrStr
    rw [hclients.members, hothers.members]
    simp only [hsame]
  refine ⟨fun addrStr => ?_, fun groupId => ?_, hmembers, ?_, ?_, ?_, ?_⟩
  · rw [hclients.connections, hothers.connections]
    simp only [hsame]
  · rw [Bool.eq_iff_iff, hafter.contains_iff, hafter'.contains_iff]
    simp only [hmembers]
  · rw [hclients.listenSocket, hothers.listenSocket]
  · rw [hclients.receiverThread, hothers.receiverThread]
  · rw [hclients.bIsStopping, hothers.bIsStopping]
  · rw [hclients.receivedPackets, hothers.receivedPackets]

/-! ## The next Connect -/

/-- A Connect of an address that is not registered starts from a new record, in no group. -/
theorem GroupsConsistent.connect_fresh (h : GroupsConsistent server) {newAddr : Addr}
    {packetData : Bytes} (hlength : sizeofPacketHeader ≤ packetData.length)
    (htype : (PacketHeader.ofBytes packetData).type = .connect)
    (hnone : server.connections.find (Platform.toString newAddr) = none) (now : Time) :
    let next := server.processReceivedPacket now ⟨newAddr, packetData⟩
    next.connections.find (Platform.toString newAddr) =
        some { address := newAddr, lastReceiveTime := now } ∧
      ∀ groupId, ¬ IsMember next.groups groupId (Platform.toString newAddr) := by
  intro next
  have hnext : next = ((server.setConnection (Platform.toString newAddr)
      { address := newAddr, lastReceiveTime := now }).emit
        (.newConnection (Platform.toString newAddr))).sendAck
          { address := newAddr, lastReceiveTime := now } := by
    have hcontains : server.connections.contains (Platform.toString newAddr) = false := by
      rw [SparseMap.contains, hnone]
      rfl
    simp only [next, processReceivedPacket, if_neg (not_lt.mpr hlength), hnone, htype, if_true,
      handleNewConnection, hcontains, Bool.false_eq_true, if_false]
  constructor
  · rw [hnext]
    exact SparseMap.find_add_self _ _ _
  · intro groupId
    rw [hnext]
    -- the handshake does not touch the groups, and only registered clients are members
    change ¬ IsMember server.groups groupId (Platform.toString newAddr)
    rw [h.member_iff]
    rintro ⟨connection, hfind, -⟩
    rw [hnone] at hfind
    simp at hfind

/-- **Disconnecting erases a client and nothing else.**  In every reachable state of the
server: `DisconnectClient` takes the address out of the connections and of the member map
of every group, takes away the groups left without members, and leaves all else; a list of
clients gives the same state in every order and with repetitions; and when a Connect of the
address is next processed, after any events at the end of which it is not registered, it
starts from a new record and is in no group. -/
theorem disconnect_erases (events : List (ServerEvent Addr)) :
    let server := run HktReliableUdpServer.step {} events
    (∀ addrStr, Erases addrStr server (server.disconnectClient addrStr)) ∧
    (∀ clients others : List String, (∀ addrStr, addrStr ∈ others ↔ addrStr ∈ clients) →
      SameState (clients.foldl (fun server addrStr => server.disconnectClient addrStr) server)
        (others.foldl (fun server addrStr => server.disconnectClient addrStr) server)) ∧
    ∀ (newAddr : Addr) (later : List (ServerEvent Addr)) (packetData : Bytes) (now : Time),
      let before := run HktReliableUdpServer.step
        (server.disconnectClient (Platform.toString newAddr)) later
      before.connections.find (Platform.toString newAddr) = none →
      sizeofPacketHeader ≤ packetData.length → (PacketHeader.ofBytes packetData).type = .connect →
      let next := before.processReceivedPacket now ⟨newAddr, packetData⟩
      next.connections.find (Platform.toString newAddr) =
          some { address := newAddr, lastReceiveTime := now } ∧
        ∀ groupId, ¬ IsMember next.groups groupId (Platform.toString newAddr) := by
  intro server
  have h : GroupsConsistent server := groups_consistent events
  refine ⟨h.erases, fun clients others hsame => h.sameState hsame, ?_⟩
  intro newAddr later packetData now before hnone hlength htype
  have hbefore : GroupsConsistent before :=
    (h.disconnectClient _).moves (run_moves step_moves _ later)
  exact hbefore.connect_fresh hlength htype hnone now

/-- Two clients of a group are disconnected, and one of them connects again. -/
theorem disconnect_erases_reconnect :
    let server := run HktReliableUdpServer.step {}
      [.start true, .receive (⟨1⟩ : LoopbackAddr) (PacketHeader.toBytes { type := .connect }),
        .receive ⟨2⟩ (PacketHeader.toBytes { type := .connect }), .tick ⟨fun _ => 0, 0, 0⟩,
        .joinGroup ⟨1⟩ 5, .joinGroup ⟨2⟩ 5]
    SameState
        (["127.0.0.1:1", "127.0.0.1:2"].foldl
          (fun server addrStr => server.disconnectClient addrStr) server)
        (["127.0.0.1:2", "127.0.0.1:1", "127.0.0.1:2"].foldl
          (fun server addrStr => server.disconnectClient addrStr) server) ∧
      ((server.disconnectClient "127.0.0.1:1").processReceivedPacket 1
          ⟨⟨1⟩, PacketHeader.toBytes { type := .connect }⟩).connections.find "127.0.0.1:1" =
        some { address := ⟨1⟩, lastReceiveTime := 1 } := by
  intro server
  obtain ⟨-, hsame, hconnect⟩ := disconnect_erases
    [.start true, .receive (⟨1⟩ : LoopbackAddr) (PacketHeader.toBytes { type := .connect }),
      .receive ⟨2⟩ (PacketHeader.toBytes { type := .connect }), .tick ⟨fun _ => 0, 0, 0⟩,
      .joinGroup ⟨1⟩ 5, .joinGroup ⟨2⟩ 5]
  constructor
  · apply hsame
    intro addrStr
    simp only [List.mem_cons, List.not_mem_nil, or_false]
    tauto
  · exact (hconnect ⟨1⟩ [] (PacketHeader.toBytes { type := .connect }) 1 (by decide +kernel)
      (by decide +kernel) (by decide +kernel)).1

end HktBase.CustomNet
