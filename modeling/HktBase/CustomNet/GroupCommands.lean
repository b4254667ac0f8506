import HktBase.CustomNet.ClientMoves
import HktBase.CustomNet.Groups
import HktBase.CustomNet.Handshake

/-!
# Group commands from client to server

`JoinGroup` and `LeaveGroup` of the client send a request, and the server reads the
group id from its payload.  The client has no group id to put into a LeaveGroup
request, so it sends an empty payload, and the server drops the request as malformed:
what arrives of a list of commands are its joins.  `meant` is what the commands ask
for, and `groups_as_meant_iff` says for which lists the two agree.

`listsGroup_groupRequest_iff` is one request and `listsGroup_processDatagrams_iff` a list of
them; both are about the lists in the records only, and `GroupsConsistent` carries the result
over to the member maps.  `meant_eq_iff` is about lists of commands and names no endpoint.
-/

namespace HktBase.CustomNet

open HktReliableUdpServer

/-! ## What the commands ask for -/

/-- The group commands of a client. -/
inductive GroupCommand
  | joinGroup (groupId : Int32)
  | leaveGroup
  deriving DecidableEq

namespace GroupCommand

/-- The groups of a client after a command: a join adds one, a leave ends in none. -/
def apply (groups : Set Int32) : GroupCommand → Set Int32
  | joinGroup groupId => insert groupId groups
  | leaveGroup => ∅

/-- The groups that a list of commands asks for. -/
def meant (initial : Set Int32) (commands : List GroupCommand) : Set Int32 :=
  commands.foldl apply initial

/-- What was joined before the last leave, or held from the start, is joined again
after it. -/
def RejoinsAll (initial : Set Int32) (commands : List GroupCommand) : Prop :=
  ∀ before after, commands = before ++ leaveGroup :: after → leaveGroup ∉ after →
    ∀ groupId, (groupId ∈ initial ∨ joinGroup groupId ∈ before) → joinGroup groupId ∈ after

variable {initial : Set Int32} {commands : List GroupCommand} {groupId : Int32}

theorem mem_meant_of_no_leave (h : leaveGroup ∉ commands) :
    groupId ∈ meant initial commands ↔ groupId ∈ initial ∨ joinGroup groupId ∈ commands := by
  induction commands generalizing initial with
  | nil => simp [meant]
  | cons command rest ih =>
      obtain ⟨hcommand, hrest⟩ := not_or.mp (List.mem_cons.not.mp h)
      have hstep : meant initial (command :: rest) = meant (apply initial command) rest := rfl
      rw [hstep, ih hrest, List.mem_cons]
      cases command with
      | joinGroup other =>
          simp only [apply, Set.mem_insert_iff, joinGroup.injEq]
          tauto
      | leaveGroup => exact absurd rfl hcommand

theorem mem_meant_of_leave {before after : List GroupCommand} (h : leaveGroup ∉ after) :
    groupId ∈ meant initial (before ++ leaveGroup :: after) ↔ joinGroup groupId ∈ after := by
  have hfold : meant initial (before ++ leaveGroup :: after) = meant ∅ after := by
    rw [meant, List.foldl_append]
    rfl
  rw [hfold, mem_meant_of_no_leave h]
  simp

theorem exists_last_leave (h : leaveGroup ∈ commands) :
    ∃ before after, commands = before ++ leaveGroup :: after ∧ leaveGroup ∉ after := by
  obtain ⟨before, after, hreverse, hafter⟩ := List.eq_append_cons_of_mem
    (List.mem_reverse.mpr h)
  refine ⟨after.reverse, before.reverse, ?_, by simpa using hafter⟩
  rw [← List.reverse_inj, hreverse]
  simp

/-- Keeping every group that was ever joined is what the commands ask for exactly when
they join everything again after the last leave. -/
theorem meant_eq_iff :
    (∀ groupId, (groupId ∈ initial ∨ joinGroup groupId ∈ commands) ↔
      groupId ∈ meant initial commands) ↔ RejoinsAll initial commands := by
  constructor
  -- what is held at the last leave is asked for only if it is joined again behind it
  · rintro h before after rfl hafter groupId hheld
    refine (mem_meant_of_leave hafter).mp ((h groupId).mp ?_)
    exact hheld.imp id fun hbefore => List.mem_append_left _ hbefore
  · intro h groupId
    by_cases hleave : leaveGroup ∈ commands
    · obtain ⟨before, after, rfl, hafter⟩ := exists_last_leave hleave
      rw [mem_meant_of_leave hafter]
      constructor
      · intro hheld
        rw [List.mem_append, List.mem_cons] at hheld
        rcases hheld with hinitial | hbefore | hsame | hjoin
        · exact h before after rfl hafter groupId (Or.inl hinitial)
        · exact h before after rfl hafter groupId (Or.inr hbefore)
        · exact absurd hsame (by simp)
        · exact hjoin
      · exact fun hjoin => Or.inr (by simp [hjoin])
    · exact (mem_meant_of_no_leave hleave).symm

end GroupCommand

/-! ## What the client sends -/

variable {Addr : Type}

namespace HktReliableUdpClient

variable {client : HktReliableUdpClient Addr}

/-- A client that can send: connected, with a socket and an address. -/
structure CanSend (client : HktReliableUdpClient Addr) : Prop where
  connected : client.bIsConnected = true
  socket : client.clientSocket = true
  address : client.serverAddr.isSome = true

/-- The call of a group command. -/
def groupCommand (client : HktReliableUdpClient Addr) : GroupCommand → HktReliableUdpClient Addr
  | .joinGroup groupId => client.joinGroup groupId
  | .leaveGroup => client.leaveGroup

/-- The request that a group command sends. -/
def groupRequest (client : HktReliableUdpClient Addr) : GroupCommand → Bytes
  | .joinGroup groupId => client.controlDatagram .joinGroup (writeInt32 groupId)
  | .leaveGroup => client.controlDatagram .leaveGroup []

/-- A command sends its request and changes nothing else. -/
theorem groupCommand_eq (h : client.CanSend) (command : GroupCommand) :
    client.groupCommand command = client.emit (.socketSendTo (client.groupRequest command)) := by
  have hsend : (client.clientSocket && client.serverAddr.isSome) = true := by
    rw [h.socket, h.address]
    rfl
  cases command with
  | joinGroup groupId =>
      rw [groupCommand, joinGroup, if_pos h.connected, sendPacket_control client (by simp),
        if_pos hsend, groupRequest]
  | leaveGroup =>
      rw [groupCommand, leaveGroup, if_pos h.connected, sendPacket_control client (by simp),
        if_pos hsend, groupRequest]

theorem trace_foldl_groupCommand (h : client.CanSend) (commands : List GroupCommand) :
    (commands.foldl groupCommand client).trace =
      client.trace ++ commands.map fun command => .socketSendTo (client.groupRequest command) := by
  induction commands generalizing client with
  | nil => simp
  | cons command rest ih =>
      have hnext : (client.emit (.socketSendTo (client.groupRequest command))).CanSend :=
        ⟨h.connected, h.socket, h.address⟩
      rw [List.foldl_cons, groupCommand_eq h, ih hnext, List.map_cons, List.append_cons]
      rfl

end HktReliableUdpClient

/-! ## What the server does -/

section

variable [Platform Addr] {server : HktReliableUdpServer Addr} {clientAddr : Addr}
  {client : HktReliableUdpClient Addr} {addrStr : String} {groupId : Int32}

theorem listsGroup_heard_iff {connection : ClientConnection Addr} (now : Time)
    (header : PacketHeader)
    (hfind : server.connections.find (Platform.toString clientAddr) = some connection) :
    ListsGroup (server.heard now clientAddr header connection).connections addrStr groupId ↔
      ListsGroup server.connections addrStr groupId :=
  listsGroup_add_of_groupIds_eq (connection.afterAck now header) hfind rfl addrStr groupId

/-- A join request reaches `JoinGroup`. -/
theorem processReceivedPacket_joinGroup (now : Time) (joined : Int32)
    {connection : ClientConnection Addr}
    (hfind : server.connections.find (Platform.toString clientAddr) = some connection) :
    server.processReceivedPacket now ⟨clientAddr, client.groupRequest (.joinGroup joined)⟩ =
      (server.heard now clientAddr (PacketHeader.ofBytes (client.groupRequest (.joinGroup joined)))
        connection).joinGroup clientAddr joined := by
  rw [processReceivedPacket_of_some (by simp [HktReliableUdpClient.groupRequest,
    HktReliableUdpClient.controlDatagram]) now hfind]
  simp only [HktReliableUdpClient.groupRequest, HktReliableUdpClient.controlDatagram, dispatch,
    PacketHeader.ofBytes_toBytes_append, readInt32_write, List.length_append,
    PacketHeader.length_toBytes, length_writeInt32, Nat.add_sub_cancel_left, if_true]

/-- A leave request has an empty payload, the server asks for the four bytes of a group
id, and `LeaveGroup` is not reached. -/
theorem processReceivedPacket_leaveGroup (now : Time) {connection : ClientConnection Addr}
    (hfind : server.connections.find (Platform.toString clientAddr) = some connection) :
    server.processReceivedPacket now ⟨clientAddr, client.groupRequest .leaveGroup⟩ =
      server.heard now clientAddr (PacketHeader.ofBytes (client.groupRequest .leaveGroup))
        connection := by
  rw [processReceivedPacket_of_some (by simp [HktReliableUdpClient.groupRequest,
    HktReliableUdpClient.controlDatagram]) now hfind]
  simp only [HktReliableUdpClient.groupRequest, HktReliableUdpClient.controlDatagram, dispatch,
    PacketHeader.ofBytes_toBytes_append, List.length_append, PacketHeader.length_toBytes,
    List.length_nil, Nat.add_zero, Nat.sub_self, sizeofInt32]
  exact if_neg (by decide)

/-- Of a request from a registered client, a join takes effect and a leave is dropped: the
`switch` tests for four bytes of payload, and a LeaveGroup request has none. -/
theorem listsGroup_groupRequest_iff (now : Time) (command : GroupCommand)
    (hregistered : server.connections.contains (Platform.toString clientAddr) = true) :
    ListsGroup (server.processReceivedPacket now
        ⟨clientAddr, client.groupRequest command⟩).connections addrStr groupId ↔
      ListsGroup server.connections addrStr groupId ∨
        (addrStr = Platform.toString clientAddr ∧ command = .joinGroup groupId) := by
  obtain ⟨connection, hfind⟩ := SparseMap.contains_iff.mp hregistered
  cases command with
  | joinGroup joined =>
      rw [processReceivedPacket_joinGroup now joined hfind, listsGroup_joinGroup_iff,
        listsGroup_heard_iff _ _ hfind]
      have hcontains : ∀ header, (server.heard now clientAddr header
          connection).connections.contains (Platform.toString clientAddr) = true :=
        fun header => SparseMap.contains_add.mpr (Or.inl rfl)
      refine or_congr_right ⟨?_, ?_⟩
      · rintro ⟨-, rfl, rfl⟩
        exact ⟨rfl, rfl⟩
      · rintro ⟨rfl, hsame⟩
        obtain rfl := GroupCommand.joinGroup.inj hsame
        exact ⟨hcontains _, rfl, rfl⟩
  | leaveGroup =>
      -- the request is too short, and the switch drops it
      rw [processReceivedPacket_leaveGroup now hfind, listsGroup_heard_iff _ _ hfind]
      simp

/-- A request leaves its sender registered. -/
theorem contains_groupRequest (client : HktReliableUdpClient Addr) (now : Time)
    (command : GroupCommand)
    (hregistered : server.connections.contains (Platform.toString clientAddr) = true) :
    (server.processReceivedPacket now
      ⟨clientAddr, client.groupRequest command⟩).connections.contains
        (Platform.toString clientAddr) = true := by
  obtain ⟨connection, hfind⟩ := SparseMap.contains_iff.mp hregistered
  have hcontains : ∀ header, (server.heard now clientAddr header
      connection).connections.contains (Platform.toString clientAddr) = true :=
    fun header => SparseMap.contains_add.mpr (Or.inl rfl)
  cases command with
  | joinGroup joined =>
      rw [processReceivedPacket_joinGroup now joined hfind,
        (changesGroups_joinGroup clientAddr joined _).contains_connections]
      exact hcontains _
  | leaveGroup =>
      rw [processReceivedPacket_leaveGroup now hfind]
      exact hcontains _

/-- Of a list of requests, the joins take effect.  The sender stays registered throughout, since
no request of the list is a Disconnect. -/
theorem listsGroup_processDatagrams_iff (addrStr : String) (groupId : Int32)
    {arrivals : List (Time × Bytes)} {commands : List GroupCommand}
    (harrivals : arrivals.map Prod.snd = commands.map client.groupRequest)
    (hregistered : server.connections.contains (Platform.toString clientAddr) = true) :
    ListsGroup (processDatagrams clientAddr arrivals server).connections addrStr groupId ↔
      ListsGroup server.connections addrStr groupId ∨
        (addrStr = Platform.toString clientAddr ∧ .joinGroup groupId ∈ commands) := by
  induction commands generalizing server arrivals with
  | nil =>
      obtain rfl := List.map_eq_nil_iff.mp harrivals
      simp [processDatagrams]
  | cons command rest ih =>
      obtain ⟨⟨now, packetData⟩, later, rfl, rfl, hlater⟩ := List.map_eq_cons_iff.mp harrivals
      have hstep := ih hlater (contains_groupRequest client now command hregistered)
      rw [processDatagrams, List.foldl_cons]
      refine hstep.trans ?_
      rw [listsGroup_groupRequest_iff now command hregistered, List.mem_cons, eq_comm (a := command)]
      tauto

/-! ## Agreement -/

/-- The groups that the connection of an address lists. -/
def groupsOf (server : HktReliableUdpServer Addr) (addrStr : String) : Set Int32 :=
  {groupId | ListsGroup server.connections addrStr groupId}

/-- In both indexes the client is in exactly these groups, and the other members of
every group are those from before. -/
structure GroupsBecome (before after : HktReliableUdpServer Addr) (addrStr : String)
    (groups : Set Int32) : Prop where
  groupIds : ∀ groupId, ListsGroup after.connections addrStr groupId ↔ groupId ∈ groups
  members : ∀ groupId, IsMember after.groups groupId addrStr ↔ groupId ∈ groups
  others : ∀ other, other ≠ addrStr → ∀ groupId,
    IsMember after.groups groupId other ↔ IsMember before.groups groupId other

/-- **When group commands mean the same to client and server.**  A registered client
makes any group calls, and the server processes their requests in order.  The server
ends up with the groups that the calls ask for exactly when everything joined before
the last leave is joined again after it: for lists without a leave, always. -/
theorem groups_as_meant_iff (hreachable : Reachable server)
    (hregistered : server.connections.contains (Platform.toString clientAddr) = true)
    (hclient : client.CanSend) (commands : List GroupCommand) {arrivals : List (Time × Bytes)}
    (harrivals : (commands.foldl HktReliableUdpClient.groupCommand client).trace =
      client.trace ++ arrivals.map fun arrival => .socketSendTo arrival.2) :
    GroupsBecome server (processDatagrams clientAddr arrivals server)
        (Platform.toString clientAddr)
        (GroupCommand.meant (groupsOf server (Platform.toString clientAddr)) commands) ↔
      GroupCommand.RejoinsAll (groupsOf server (Platform.toString clientAddr)) commands := by
  have hrequests : arrivals.map Prod.snd = commands.map client.groupRequest := by
    rw [HktReliableUdpClient.trace_foldl_groupCommand hclient] at harrivals
    have hsends := List.append_cancel_left harrivals
    have hdata := congrArg (List.filterMap fun
      | ClientAction.socketSendTo packetData => some packetData
      | _ => none) hsends
    simpa [List.filterMap_map, Function.comp_def] using hdata.symm
  have hlists := fun addrStr groupId =>
    listsGroup_processDatagrams_iff addrStr groupId hrequests hregistered
  have hbefore := hreachable.groupsConsistent
  have hafter := hbefore.moves (processDatagrams_moves clientAddr arrivals server)
  rw [← GroupCommand.meant_eq_iff]
  constructor
  · intro h groupId
    rw [← h.groupIds, hlists]
    simp [groupsOf]
  · -- the member maps follow from the lists, because the server keeps them consistent
    intro h
    refine ⟨?_, ?_, ?_⟩
    · intro groupId
      rw [hlists, ← h]
      simp [groupsOf]
    · intro groupId
      rw [hafter.member_iff, hlists, ← h]
      simp [groupsOf]
    · intro other hother groupId
      rw [hafter.member_iff, hbefore.member_iff, hlists]
      simp [hother]

end

/-- The client of `registerClient` once its handshake is complete. -/
def connectedClient : HktReliableUdpClient LoopbackAddr :=
  Transition.run HktReliableUdpClient.step {}
    [.connect ⟨7777⟩ true true, .receive (PacketHeader.toBytes { type := .ack }), .tick 0]

theorem canSend_connectedClient : connectedClient.CanSend :=
  ⟨by decide +kernel, by decide +kernel, by decide +kernel⟩

/-- The requests of `connectedClient`, each with a clock reading. -/
def groupArrivals (commands : List GroupCommand) : List (Time × Bytes) :=
  commands.map fun command => (1, connectedClient.groupRequest command)

theorem groups_as_meant_iff_rejoin :
    GroupsBecome (Transition.run step {} registerClient)
      (processDatagrams ⟨7778⟩ (groupArrivals [.joinGroup 5, .leaveGroup, .joinGroup 5])
        (Transition.run step {} registerClient)) "127.0.0.1:7778"
      (GroupCommand.meant (groupsOf (Transition.run step {} registerClient) "127.0.0.1:7778")
        [.joinGroup 5, .leaveGroup, .joinGroup 5]) ↔
      GroupCommand.RejoinsAll
        (groupsOf (Transition.run step {} registerClient) "127.0.0.1:7778")
        [.joinGroup 5, .leaveGroup, .joinGroup 5] := by
  have hregistered : (Transition.run step {} registerClient).connections.contains
      (Platform.toString (⟨7778⟩ : LoopbackAddr)) = true := by
    decide +kernel
  have hsent : ([.joinGroup 5, .leaveGroup, .joinGroup 5].foldl
      HktReliableUdpClient.groupCommand connectedClient).trace = connectedClient.trace ++
        (groupArrivals [.joinGroup 5, .leaveGroup, .joinGroup 5]).map fun arrival =>
          .socketSendTo arrival.2 := by
    decide +kernel
  have haddress : Platform.toString (⟨7778⟩ : LoopbackAddr) = "127.0.0.1:7778" := by
    decide +kernel
  rw [← haddress]
  exact groups_as_meant_iff ⟨registerClient, rfl⟩ hregistered canSend_connectedClient _ hsent

/-- A client joins a group and leaves, and is still in it. -/
theorem leaveGroup_not_as_meant :
    ([.joinGroup 5, .leaveGroup].foldl HktReliableUdpClient.groupCommand connectedClient).trace =
        connectedClient.trace ++ ((groupArrivals [.joinGroup 5, .leaveGroup]).map fun arrival =>
          .socketSendTo arrival.2) ∧
      ¬ GroupsBecome (Transition.run step {} registerClient)
        (processDatagrams ⟨7778⟩ (groupArrivals [.joinGroup 5, .leaveGroup])
          (Transition.run step {} registerClient)) "127.0.0.1:7778"
        (GroupCommand.meant (groupsOf (Transition.run step {} registerClient) "127.0.0.1:7778")
          [.joinGroup 5, .leaveGroup]) := by
  refine ⟨by decide +kernel, fun h => ?_⟩
  have hmember : ((processDatagrams ⟨7778⟩ (groupArrivals [.joinGroup 5, .leaveGroup])
      (Transition.run step {} registerClient)).groups.find 5).map
        (fun groupMembers => groupMembers.contains "127.0.0.1:7778") = some true := by
    decide +kernel
  obtain ⟨groupMembers, hgroup, hcontains⟩ := Option.map_eq_some_iff.mp hmember
  simpa [GroupCommand.meant, GroupCommand.apply] using
    (h.members 5).mp ⟨groupMembers, hgroup, hcontains⟩

end HktBase.CustomNet
