import HktBase.CustomNet.ClientMoves
import HktBase.CustomNet.Groups
import HktBase.CustomNet.Sender

/-!
# Transmissions of the endpoints

A connection of the server, over its life, and a client object, over all its attempts,
are senders: `ServerAction.note` and `ClientAction.note` read their traces as the log of a
sender, and every move is a chain of steps of it.  What is proved about senders therefore
holds of both, which is `retransmission_is_bounded`.

`RunsAsSender.move` and `senderSteps_of_move` are the two simulations, one case for each move;
`sendsWithinLimits_of_steps` is what the library of senders says of the result, for both at
once.
-/

namespace HktBase.CustomNet

open Relation Transition

variable {Addr : Type}

/-! ## Connections of the server -/

section Server

open HktReliableUdpServer

variable [Platform Addr]

/-- What an entry of the trace says about the sender of one connection. -/
def ServerAction.note (addrStr : String) : ServerAction Addr → Note
  | .socketSendTo destination packetData =>
      if Platform.toString destination = addrStr then .datagram packetData else .unrelated
  | .sentData other sequence sentTime =>
      if other = addrStr then .sentData sequence sentTime else .unrelated
  | .resent other sequence sentTime =>
      if other = addrStr then .resent sequence sentTime else .unrelated
  | .processAck other header => if other = addrStr then .processAck header else .unrelated
  | _ => .unrelated

/-- The log of the sender of a connection, since it was registered. -/
def HktReliableUdpServer.notes (server : HktReliableUdpServer Addr) (addrStr : String) :
    List Note :=
  (server.life addrStr).map (ServerAction.note addrStr)

/-- A connection as a sender. -/
def ClientConnection.sender (connection : ClientConnection Addr) (log : List Note) : Sender where
  sentSequence := connection.sentSequence
  pendingAckPackets := connection.pendingAckPackets
  log := log

/-- Every registered connection has run as a sender since it was registered. -/
def RunsAsSender (server : HktReliableUdpServer Addr) : Prop :=
  ∀ addrStr connection, server.connections.find addrStr = some connection →
    SenderSteps {} (connection.sender (server.notes addrStr))

omit [Platform Addr] in
theorem isDataPacket_packetData (connection : ClientConnection Addr) (data : Bytes) :
    IsDataPacket (connection.sentSequence + 1) (connection.packetData data) := by
  unfold ClientConnection.packetData
  exact isDataPacket_toBytes_append rfl data

theorem isQuiet_note_of_isReport {addrStr : String} {action : ServerAction Addr}
    (haction : action.IsReport) : (action.note addrStr).IsQuiet := by
  cases action with
  | socketSendTo destination packetData =>
      simp only [ServerAction.note]
      split
      · intro s hdata
        have htype : PacketType.ack = PacketType.data := Eq.trans (Eq.symm haction) hdata.2.1
        simp at htype
      · trivial
  | _ => trivial

theorem isQuiet_note_of_key {addrStr other : String} {action : ServerAction Addr}
    (hkey : action.key = some other) (hne : other ≠ addrStr) : (action.note addrStr).IsQuiet := by
  cases action with
  | processAck _ _ | sentData _ _ _ | resent _ _ _ =>
      obtain rfl := Option.some.inj hkey
      rw [ServerAction.note, if_neg hne]
      trivial
  | socketSendTo _ _ => simp [ServerAction.key] at hkey
  | _ => trivial

theorem isQuiet_note_socketSendTo {addrStr : String} {destination : Addr}
    (hne : Platform.toString destination ≠ addrStr) (packetData : Bytes) :
    ((.socketSendTo destination packetData : ServerAction Addr).note addrStr).IsQuiet := by
  rw [ServerAction.note, if_neg hne]
  trivial

theorem senderSteps_of_isQuiet (connection : ClientConnection Addr) (log : List Note)
    {addrStr : String} {actions : List (ServerAction Addr)}
    (hactions : ∀ action ∈ actions, (action.note addrStr).IsQuiet) :
    SenderSteps (connection.sender log)
      (connection.sender (log ++ actions.map (ServerAction.note addrStr))) := by
  refine senderSteps_quiet (connection.sender log) fun note hnote => ?_
  obtain ⟨action, haction, rfl⟩ := List.mem_map.mp hnote
  exact hactions action haction

/-- One step of a connection is one of its sender. -/
theorem ConnectionStep.senderSteps {hears : String → PacketHeader → Prop} {listenSocket : Bool}
    {addrStr : String} {before after : ClientConnection Addr} {actions : List (ServerAction Addr)}
    (hstep : ConnectionStep hears listenSocket addrStr before actions after) (log : List Note) :
    SenderSteps (before.sender log)
      (after.sender (log ++ actions.map (ServerAction.note addrStr))) := by
  cases hstep with
  | processAck now header _ =>
      simp only [List.map_cons, List.map_nil, ServerAction.note, if_true]
      exact .single (.processAck header)
  | updateReceivedState sequence =>
      rw [List.map_nil, List.append_nil]
      exact .refl
  | sendTo dstAddr now data _ haddress =>
      simp only [List.map_cons, List.map_nil, ServerAction.note, haddress, if_true]
      exact .single (.send (before.packetData data) now (isDataPacket_packetData before data))

/-- A step of another connection leaves nothing in the log. -/
theorem ConnectionStep.isQuiet_note {hears : String → PacketHeader → Prop} {listenSocket : Bool}
    {addrStr other : String} {before after : ClientConnection Addr}
    {actions : List (ServerAction Addr)}
    (hstep : ConnectionStep hears listenSocket other before actions after) (hne : other ≠ addrStr)
    {action : ServerAction Addr} (haction : action ∈ actions) : (action.note addrStr).IsQuiet := by
  cases hstep with
  | processAck now header _ =>
      obtain rfl := List.mem_singleton.mp haction
      exact isQuiet_note_of_key rfl hne
  | updateReceivedState sequence => simp at haction
  | sendTo dstAddr now data _ haddress =>
      rcases List.mem_pair.mp haction with rfl | rfl
      · exact isQuiet_note_socketSendTo (haddress ▸ hne) _
      · exact isQuiet_note_of_key rfl hne

/-! ### The loop of `CheckForResends` -/

omit [Platform Addr] in
/-- The loop leaves the actions of one connection after the other. -/
theorem trace_foldl_resendTo (currentTime : Time) (keys : List String) (hnodup : keys.Nodup)
    (server : HktReliableUdpServer Addr) (clients : List String) :
    (keys.foldl (resendTo currentTime) (server, clients)).1.trace = server.trace ++
      keys.flatMap fun addrStr => ((server.connections.find addrStr).map fun connection =>
        connection.resendActions server.listenSocket addrStr currentTime).getD [] := by
  induction keys generalizing server clients with
  | nil => simp
  | cons addrStr rest ih =>
      obtain ⟨hfresh, hrest⟩ := List.nodup_cons.mp hnodup
      rw [List.foldl_cons, List.flatMap_cons]
      cases hfind : server.connections.find addrStr with
      | none =>
          rw [resendTo_of_none hfind, ih hrest]
          rfl
      | some connection =>
          rw [resendTo_eq hfind, ih hrest, List.append_assoc]
          -- the record that was changed is not visited again
          have hsame : ∀ other ∈ rest, (server.connections.add addrStr
              (connection.afterResend currentTime)).find other = server.connections.find other :=
            fun other hother => SparseMap.find_add_of_ne _ _ fun h => hfresh (h ▸ hother)
          congr 2
          refine List.flatMap_congr fun other hother => ?_
          simp only [setConnection, hsame other hother]

theorem isQuiet_note_resendActions {addrStr other : String} {connection : ClientConnection Addr}
    (haddress : Platform.toString connection.address = other) (hne : other ≠ addrStr)
    {listenSocket : Bool} {currentTime : Time} {action : ServerAction Addr}
    (haction : action ∈ connection.resendActions listenSocket other currentTime) :
    (action.note addrStr).IsQuiet := by
  rcases List.mem_append.mp haction with hresent | hlimit
  · obtain ⟨packet, -, hpacket⟩ := List.mem_flatMap.mp hresent
    rcases List.mem_pair.mp hpacket with rfl | rfl
    · split
      · exact isQuiet_note_socketSendTo (haddress ▸ hne) _
      · trivial
    · exact isQuiet_note_of_key rfl hne
  · split at hlimit
    · obtain rfl := List.mem_singleton.mp hlimit
      trivial
    · simp at hlimit

/-- The round of a connection is a pass of its sender. -/
theorem senderSteps_resendActions (connection : ClientConnection Addr) (log : List Note)
    (listenSocket : Bool) (currentTime : Time) :
    SenderSteps (connection.sender log)
      ((connection.afterResend currentTime).sender (log ++
        (connection.resendActions listenSocket (Platform.toString connection.address)
          currentTime).map (ServerAction.note (Platform.toString connection.address)))) := by
  have hpass := senderSteps_resendPending (connection.sender log) currentTime listenSocket
  have hnotes : (connection.resendActions listenSocket (Platform.toString connection.address)
      currentTime).map (ServerAction.note (Platform.toString connection.address)) =
      resendNotes currentTime listenSocket
        (resendPending currentTime connection.pendingAckPackets).resent ++
        if (resendPending currentTime connection.pendingAckPackets).limitExceeded then
          [.unrelated] else [] := by
    unfold ClientConnection.resendActions resendNotes
    dsimp only
    rw [List.map_append, List.map_flatMap]
    congr 1
    · refine List.flatMap_congr fun packet _ => ?_
      cases listenSocket <;> simp [ServerAction.note]
    · split <;> rfl
  rw [hnotes, ← List.append_assoc]
  refine hpass.trans (senderSteps_quiet _ fun note hnote => ?_)
  split at hnote
  · obtain rfl := List.mem_singleton.mp hnote
    trivial
  · simp at hnote

/-! ### Moves -/

/-- The rounds of other connections leave nothing in the log. -/
theorem isQuiet_note_resends {server : HktReliableUdpServer Addr} (h : GroupsConsistent server)
    {addrStr : String} {keys : List String} (hkeys : addrStr ∉ keys) {currentTime : Time}
    {action : ServerAction Addr}
    (haction : action ∈ keys.flatMap fun other => ((server.connections.find other).map
      fun connection => connection.resendActions server.listenSocket other currentTime).getD []) :
    (action.note addrStr).IsQuiet := by
  obtain ⟨other, hother, haction⟩ := List.mem_flatMap.mp haction
  have hne : other ≠ addrStr := fun hsame => hkeys (hsame ▸ hother)
  cases hfind : server.connections.find other with
  | none =>
      rw [hfind] at haction
      simp at haction
  | some connection =>
      rw [hfind] at haction
      exact isQuiet_note_resendActions (h.connection_address other connection hfind) hne haction

theorem RunsAsSender.resend {server : HktReliableUdpServer Addr} (hgroups : GroupsConsistent server)
    (h : RunsAsSender server) (currentTime : Time) :
    RunsAsSender (server.resendAll currentTime).1 := by
  obtain ⟨resent, hresends⟩ := resends_resendAll currentTime server
  intro addrStr connection hfind
  rw [hresends.find_keys] at hfind
  obtain ⟨before, hbefore, rfl⟩ := Option.map_eq_some_iff.mp hfind
  obtain rfl := hgroups.connection_address addrStr before hbefore
  have hmem : Platform.toString before.address ∈ server.connections.keys :=
    SparseMap.mem_keys.mpr ⟨before, hbefore⟩
  -- the rounds of the other connections come before and after that of this one
  obtain ⟨earlier, later, hkeys⟩ := List.append_of_mem hmem
  have hnodup := server.connections.nodup_keys
  rw [hkeys] at hnodup
  obtain ⟨-, hcons, hdisjoint⟩ := List.nodup_append.mp hnodup
  have hearlier : Platform.toString before.address ∉ earlier :=
    fun hin => hdisjoint _ hin _ (List.mem_cons_self ..) rfl
  have hlater : Platform.toString before.address ∉ later := (List.nodup_cons.mp hcons).1
  have htrace := trace_foldl_resendTo currentTime server.connections.keys
    server.connections.nodup_keys (server.emit (.checkForResends currentTime)) []
  have hlife := hresends.trace
  rw [show (server.resendAll currentTime).1.trace = _ from htrace] at hlife
  have hactions := List.append_cancel_left hlife
  rw [notes, life, hresends.trace, trace_emit, List.append_assoc, List.singleton_append,
    lifeIn_append_of_not_isBoundary, List.map_append, List.map_cons, ← hactions, hkeys,
    List.flatMap_append, List.flatMap_cons, List.map_append, List.map_append]
  · simp only [connections_emit, hbefore, Option.map_some, Option.getD_some, listenSocket_emit]
    rw [List.append_cons, ← List.append_assoc, ← List.append_assoc]
    have hstart : SenderSteps {} (before.sender (server.notes (Platform.toString before.address))) :=
      h _ before hbefore
    refine (((hstart.trans (?_)).trans (senderSteps_of_isQuiet before _ fun action haction =>
      isQuiet_note_resends hgroups hearlier haction)).trans
        (senderSteps_resendActions before _ server.listenSocket currentTime)).trans
        (senderSteps_of_isQuiet _ _ fun action haction =>
          isQuiet_note_resends hgroups hlater haction)
    exact .single (.quiet _ trivial)
  · intro action haction
    rcases List.mem_cons.mp haction with rfl | haction
    · rfl
    · exact (hresends.isResend action haction).isBoundary_eq_false

/-- Where a connection was registered before, with the same sender, and the trace gains
nothing that concerns it. -/
theorem RunsAsSender.of_find {server next : HktReliableUdpServer Addr} (h : RunsAsSender server)
    {actions : List (ServerAction Addr)} (htrace : next.trace = server.trace ++ actions)
    {addrStr : String} {before after : ClientConnection Addr}
    (hfind : server.connections.find addrStr = some before)
    (hsame : ∀ log, after.sender log = before.sender log)
    (hboundary : ∀ action ∈ actions, bounds addrStr action = false)
    (hquiet : ∀ action ∈ actions, (action.note addrStr).IsQuiet) :
    SenderSteps {} (after.sender (next.notes addrStr)) := by
  have hlife : next.life addrStr = server.life addrStr ++ actions := by
    rw [life, life, htrace]
    exact sinceLast_append_of_not hboundary server.trace
  rw [hsame, notes, hlife, List.map_append]
  exact (h addrStr before hfind).trans (senderSteps_of_isQuiet before _ hquiet)

theorem RunsAsSender.of_changesGroups {changed : String} {server next : HktReliableUdpServer Addr}
    (h : RunsAsSender server) (hchanges : ChangesGroups changed server next) :
    RunsAsSender next := by
  intro addrStr connection hfind
  obtain ⟨before, groupIds, hbefore, rfl⟩ := hchanges.find_connections hfind
  have htrace : next.trace = server.trace ++ [] := by
    rw [hchanges.trace, List.append_nil]
  exact h.of_find htrace hbefore (fun _ => rfl) (by simp) (by simp)

/-- Every move of the server is a chain of steps of each connection that stays, on the log of
its life: a new record begins an empty log, and a move of another connection adds quiet lines. -/
theorem RunsAsSender.move {hears : String → PacketHeader → Prop}
    {server next : HktReliableUdpServer Addr} (hmove : Move hears server next)
    (hgroups : GroupsConsistent server) (h : RunsAsSender server) : RunsAsSender next := by
  cases hmove with
  | environment hconnections _ htrace _ =>
      intro addrStr connection hfind
      rw [hconnections] at hfind
      rw [notes, life, htrace]
      exact h addrStr connection hfind
  | report action haction =>
      intro addrStr connection hfind
      refine h.of_find rfl hfind (fun _ => rfl) (fun other hother => ?_) fun other hother => ?_
      · obtain rfl := List.mem_singleton.mp hother
        cases other <;> simp_all [ServerAction.IsReport, bounds, ServerAction.isBoundary]
      · obtain rfl := List.mem_singleton.mp hother
        exact isQuiet_note_of_isReport haction
  | accept now newAddr hnew =>
      intro addrStr connection hfind
      rw [connections_emit, connections_setConnection, SparseMap.find_add] at hfind
      split at hfind
      · -- a life begins
        next hsame =>
          subst hsame
          obtain rfl := Option.some.inj hfind
          rw [notes, life, trace_emit,
            lifeIn_concat_of_bounds (by simp [bounds, ServerAction.isBoundary, ServerAction.key])]
          exact .refl
      · next hne =>
          refine h.of_find rfl hfind (fun _ => rfl) (fun other hother => ?_) fun other hother => ?_
          · obtain rfl := List.mem_singleton.mp hother
            simp [bounds, ServerAction.key, Ne.symm hne]
          · obtain rfl := List.mem_singleton.mp hother
            trivial
  | @connection changed before after actions hbefore hstep =>
      intro addrStr connection hfind
      have hboundary := fun action (haction : action ∈ actions) =>
        (hstep.irrelevant_of_mem haction).1
      rw [connections_setConnection, SparseMap.find_add] at hfind
      split at hfind
      · next hsame =>
          subst hsame
          obtain rfl := Option.some.inj hfind
          rw [notes, life, lifeIn_append_of_not_isBoundary hboundary, List.map_append]
          exact (h addrStr before hbefore).trans (hstep.senderSteps _)
      · next hne =>
          refine h.of_find rfl hfind (fun _ => rfl) (fun action haction => ?_)
            fun action haction => hstep.isQuiet_note (Ne.symm hne) haction
          simp [bounds, hboundary action haction]
  | resend currentTime => exact h.resend hgroups currentTime
  | disconnect changed =>
      intro addrStr connection hfind
      rw [find_connections_disconnectClient] at hfind
      split at hfind
      · simp at hfind
      · next hne =>
          refine h.of_find (trace_disconnectClient changed server) hfind (fun _ => rfl)
            (fun action haction => ?_) fun action haction => ?_
          · split at haction
            · obtain rfl := List.mem_singleton.mp haction
              simp [bounds, ServerAction.key, Ne.symm hne]
            · simp at haction
          · split at haction
            · obtain rfl := List.mem_singleton.mp haction
              trivial
            · simp at haction
  | joinGroup clientAddr groupId =>
      exact h.of_changesGroups (changesGroups_joinGroup clientAddr groupId server)
  | leaveGroup clientAddr groupId =>
      exact h.of_changesGroups (changesGroups_leaveGroup clientAddr groupId server)

/-- After any chain of moves, every connection has run as a sender. -/
theorem runsAsSender_of_moves {hears : String → PacketHeader → Prop}
    {server : HktReliableUdpServer Addr} (hmoves : Moves hears {} server) :
    RunsAsSender server := by
  have hboth : GroupsConsistent server ∧ RunsAsSender server := by
    refine preserved_of_moves
      (P := fun server => GroupsConsistent server ∧ RunsAsSender server) ?_ hmoves ?_
    · rintro before after hmove ⟨hgroups, hsenders⟩
      exact ⟨hgroups.move hmove, RunsAsSender.move hmove hgroups hsenders⟩
    · exact ⟨groupsConsistent_init, by simp [RunsAsSender]⟩
  exact hboth.2

end Server

/-! ## The client -/

section Client

open HktReliableUdpClient

/-- What an entry of the trace says about the sender. -/
def ClientAction.note : ClientAction → Note
  | .socketSendTo packetData => .datagram packetData
  | .sentData sequence sentTime => .sentData sequence sentTime
  | .resent sequence sentTime => .resent sequence sentTime
  | .processAck header => .processAck header
  | _ => .unrelated

/-- A client as a sender: the counter and the pending packets outlive its attempts. -/
def HktReliableUdpClient.sender (client : HktReliableUdpClient Addr) : Sender where
  sentSequence := client.sentSequence
  pendingAckPackets := client.pendingAckPackets
  log := client.trace.map ClientAction.note

theorem isDataPacket_dataDatagram (client : HktReliableUdpClient Addr) (data : Bytes) :
    IsDataPacket (client.sentSequence + 1) (client.dataDatagram data) := by
  unfold dataDatagram
  exact isDataPacket_toBytes_append rfl data

/-- An action that does not concern the sender. -/
theorem senderStep_of_isQuiet {client next : HktReliableUdpClient Addr} {action : ClientAction}
    (htrace : next.trace = client.trace ++ [action])
    (hsequence : next.sentSequence = client.sentSequence)
    (hpending : next.pendingAckPackets = client.pendingAckPackets)
    (hquiet : action.note.IsQuiet) :
    SenderSteps client.sender next.sender := by
  have hstep : SenderStep client.sender
      { client.sender with log := client.sender.log ++ [action.note] } := .quiet _ hquiet
  convert ReflTransGen.single hstep using 1
  simp [HktReliableUdpClient.sender, htrace, hsequence, hpending]

/-- Every move of the client is a chain of steps of its sender.  The client keeps one sender for
all attempts, as `Connect` does not reset it. -/
theorem senderSteps_of_move [Platform Addr] {allowed : HktReliableUdpClient Addr → Prop}
    {arrives : Bytes → Prop} {client next : HktReliableUdpClient Addr}
    (hmove : Move allowed arrives client next) : SenderSteps client.sender next.sender := by
  cases hmove with
  | environment clientSocket serverAddr receiverThread bIsStopping => exact .refl
  | connect serverAddr _ => exact senderStep_of_isQuiet rfl rfl rfl trivial
  | @control type data htype _ =>
      refine senderStep_of_isQuiet rfl rfl rfl fun s hdata => htype ?_
      have hheader := hdata.2.1
      rwa [controlDatagram, PacketHeader.ofBytes_toBytes_append] at hheader
  | disconnect => exact senderStep_of_isQuiet rfl rfl rfl trivial
  | sendNothing data => exact senderStep_of_isQuiet rfl rfl rfl trivial
  | send now data _ =>
      -- the call itself is a line that the sender does not read
      have hcalled : SenderSteps client.sender (client.emit (.send data)).sender :=
        senderStep_of_isQuiet rfl rfl rfl trivial
      have hsend : SenderStep (client.emit (.send data)).sender _ :=
        .send (client.dataDatagram data) now (isDataPacket_dataDatagram client data)
      convert hcalled.tail hsend using 1
      simp only [HktReliableUdpClient.sender, afterSend, List.map_append]
      rfl
  | receive packetData _ => exact senderStep_of_isQuiet rfl rfl rfl trivial
  | skip _ _ => exact .refl
  | handshake _ _ _ => exact senderStep_of_isQuiet rfl rfl rfl trivial
  | @processAck packetData _ _ =>
      have hack : SenderStep client.sender _ := .processAck (PacketHeader.ofBytes packetData)
      convert ReflTransGen.single hack using 1
      simp only [HktReliableUdpClient.sender, HktReliableUdpClient.processAck, trace_emit,
        List.map_append]
      rfl
  | accept _ _ => exact senderStep_of_isQuiet rfl rfl rfl trivial
  | poll _ => exact senderStep_of_isQuiet rfl rfl rfl trivial
  | resend currentTime _ =>
      have hpass := senderSteps_resendPending client.sender currentTime client.clientSocket
      convert hpass using 1
      simp only [HktReliableUdpClient.sender, afterResend, resendActions, resendNotes,
        List.map_append, List.map_flatMap]
      congr 2
      refine List.flatMap_congr fun packet _ => ?_
      cases client.clientSocket <;> rfl

theorem senderSteps_of_moves [Platform Addr] {allowed : HktReliableUdpClient Addr → Prop}
    {arrives : Bytes → Prop} {client : HktReliableUdpClient Addr}
    (hmoves : Moves allowed arrives {} client) : SenderSteps {} client.sender :=
  preserved_of_moves
    (P := fun client => SenderSteps {} client.sender)
    (fun _ _ hmove h => h.trans (senderSteps_of_move hmove)) hmoves .refl

end Client

/-! ## Both endpoints -/

/-- **Bounded, byte-identical retransmission.**  At every moment of the life of a
connection of the server, and of a client object over all its attempts, with fewer than
2^32 data sends: the Data datagrams of one sequence number are the same bytes, stem from
one call, are at most `1 + maxRetries` and lie more than `resendTimeout` apart, and none
follows an acknowledgement that was processed since the number was given out.  Every
pending entry is a Data packet with the number of its key and at most `maxRetries` retries. -/
theorem retransmission_is_bounded [Platform Addr] :
    (∀ (events : List (ServerEvent Addr)) (server : HktReliableUdpServer Addr),
      HktReliableUdpServer.Moves anyHeader (run HktReliableUdpServer.step {} events) server →
      ∀ addrStr connection, server.connections.find addrStr = some connection →
        (sentNumbers (server.notes addrStr)).length < 2 ^ 32 →
        SendsWithinLimits (server.notes addrStr) connection.pendingAckPackets) ∧
    ∀ (events : List (ClientEvent Addr)) (client : HktReliableUdpClient Addr),
      HktReliableUdpClient.Moves HktReliableUdpClient.anyState HktReliableUdpClient.anyDatagram
        (run HktReliableUdpClient.step {} events) client →
      (sentNumbers client.sender.log).length < 2 ^ 32 →
      SendsWithinLimits client.sender.log client.pendingAckPackets := by
  constructor
  · intro events server hmoves addrStr connection hfind hcount
    have hrun := run_moves HktReliableUdpServer.step_moves {} events
    exact sendsWithinLimits_of_steps
      (runsAsSender_of_moves (hrun.trans hmoves) addrStr connection hfind) hcount
  · intro events client hmoves hcount
    have hrun := run_moves HktReliableUdpClient.step_moves {} events
    exact sendsWithinLimits_of_steps (senderSteps_of_moves (hrun.trans hmoves)) hcount

/-- A client connects, sends a packet and sends it again 300 ms later. -/
def sendAndResend : List (ClientEvent LoopbackAddr) :=
  [.connect ⟨7777⟩ true true, .receive (PacketHeader.toBytes { type := .ack }), .tick 0,
    .send 0 [42], .tick (3/10)]

theorem retransmission_is_bounded_acknowledgeSecond :
    Retransmits 1 ((run HktReliableUdpServer.step {} acknowledgeSecond).notes "127.0.0.1:7778") ∧
      Retransmits 1 (run HktReliableUdpClient.step {} sendAndResend).sender.log := by
  have hsome : ((run HktReliableUdpServer.step {} acknowledgeSecond).connections.find
      "127.0.0.1:7778").isSome := by
    decide +kernel
  obtain ⟨connection, hfind⟩ := Option.isSome_iff_exists.mp hsome
  constructor
  · exact (retransmission_is_bounded.1 acknowledgeSecond _ .refl _ connection hfind
      (by decide +kernel)).retransmits 1
  · exact (retransmission_is_bounded.2 sendAndResend _ .refl (by decide +kernel)).retransmits 1

/-- A peer is sent one packet, acknowledges it, disconnects and connects again; the next packet
from its address still carries that acknowledgement, and the server then sends the first packet of
the new connection. -/
def ackOfEarlierLife : List (ServerEvent LoopbackAddr) :=
  [.start true,
    .receive ⟨7778⟩ (PacketHeader.toBytes { type := .connect }),
    .tick ⟨fun _ => 0, 0, 0⟩,
    .sendTo 0 (some ⟨7778⟩) [1],
    .receive ⟨7778⟩ (PacketHeader.toBytes { type := .disconnect, lastAckedSequence := 1 }),
    .receive ⟨7778⟩ (PacketHeader.toBytes { type := .connect, lastAckedSequence := 1 }),
    .receive ⟨7778⟩
      (PacketHeader.toBytes { type := .joinGroup, lastAckedSequence := 1 } ++ writeInt32 5),
    .tick ⟨fun _ => 0, 0, 0⟩,
    .sendTo 0 (some ⟨7778⟩) [2]]

/-- A packet is transmitted although an acknowledgement of its number was processed before
the number was given out. -/
theorem transmitted_after_early_ack :
    ¬ Historically (fun before note => ∀ packetData, note = .datagram packetData →
      IsDataPacket 1 packetData → ∀ header, .processAck header ∈ before → 1 ∉ header.acks)
      ((run HktReliableUdpServer.step {} ackOfEarlierLife).notes "127.0.0.1:7778") := by
  intro h
  have hlog : (run HktReliableUdpServer.step {} ackOfEarlierLife).notes "127.0.0.1:7778" =
      [.datagram (PacketHeader.toBytes { type := .ack }),
        .processAck { type := .joinGroup, lastAckedSequence := 1 }, .unrelated] ++
        .datagram (PacketHeader.toBytes { type := .data, sequence := 1 } ++ [2]) ::
          [.sentData 1 0] := by
    decide +kernel
  exact h _ _ _ hlog _ rfl (by decide +kernel) { type := .joinGroup, lastAckedSequence := 1 }
    (by simp) (by decide +kernel)

end HktBase.CustomNet
