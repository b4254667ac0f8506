import HktBase.CustomNet.Groups
import HktBase.CustomNet.Received
import HktBase.CustomNet.Sessions
import HktBase.CustomNet.Delivery

/-!
# Payload integrity

Every payload that `Poll` returns is the data of a `SendTo` to the client's address.  A
Data datagram comes into being in `SendTo` only: every other function of the server sends
control packets and copies of pending packets, which is `SendsNothingNew`.  On the link,
`PayloadsSent` follows the payloads from the server through the network into the two
queues of the client.

`PollsArrivals` adds that the client makes payloads of Data datagrams only, each of them
once and in order.

The server side has two halves: `CarriesOnly.of_nothingNew` for the functions that bring in no
payload, and `CarriesOnly.sendTo` with `CarriesOnly.broadcastToGroup` for those that do.  The
client side is `HoldsPayloads.move`.  `PayloadsSent.step` joins them along the link, where
what has been sent earlier is allowed from then on.
-/

namespace HktBase.CustomNet

open Transition

variable {Addr : Type}

/-! ## What the server sends -/

section Server

open HktReliableUdpServer

variable [Platform Addr]

omit [Platform Addr] in
/-- A pending packet of the connection has these bytes. -/
def Pends (addrStr : String) (server : HktReliableUdpServer Addr) (packetData : Bytes) : Prop :=
  ∃ connection s packet, server.connections.find addrStr = some connection ∧
    connection.pendingAckPackets.find s = some packet ∧ packet.packetData = packetData

/-- What the server has sent to the address since is no Data datagram, or a copy of a
packet that was pending. -/
structure SendsNothingNew (addrStr : String) (before after : HktReliableUdpServer Addr) :
    Prop where
  pends : ∀ packetData, Pends addrStr after packetData → Pends addrStr before packetData
  trace : ∃ actions, after.trace = before.trace ++ actions ∧
    ∀ destination packetData, .socketSendTo destination packetData ∈ actions →
      Platform.toString destination = addrStr →
      dataPayload packetData = none ∨ Pends addrStr before packetData

namespace SendsNothingNew

variable {addrStr : String} {before middle after server : HktReliableUdpServer Addr}

theorem of_trace_eq (hpends : ∀ packetData, Pends addrStr after packetData →
      Pends addrStr before packetData)
    (htrace : after.trace = before.trace) : SendsNothingNew addrStr before after where
  pends := hpends
  trace := ⟨[], by rw [htrace, List.append_nil], by simp⟩

theorem refl (addrStr : String) (server : HktReliableUdpServer Addr) :
    SendsNothingNew addrStr server server :=
  of_trace_eq (fun _ => id) rfl

theorem trans (hfirst : SendsNothingNew addrStr before middle)
    (hsecond : SendsNothingNew addrStr middle after) : SendsNothingNew addrStr before after := by
  obtain ⟨first, hmiddle, hsends⟩ := hfirst.trace
  obtain ⟨second, hafter, hsends'⟩ := hsecond.trace
  refine ⟨fun packetData hpends => hfirst.pends _ (hsecond.pends _ hpends), first ++ second, ?_, ?_⟩
  · rw [hafter, hmiddle, List.append_assoc]
  · intro destination packetData hmem haddress
    rcases List.mem_append.mp hmem with hmem | hmem
    · exact hsends destination packetData hmem haddress
    · exact (hsends' destination packetData hmem haddress).imp id (hfirst.pends packetData)

theorem foldl {α : Type} {body : HktReliableUdpServer Addr → α → HktReliableUdpServer Addr}
    (hbody : ∀ current item, SendsNothingNew addrStr current (body current item))
    (items : List α) (server : HktReliableUdpServer Addr) :
    SendsNothingNew addrStr server (items.foldl body server) := by
  induction items generalizing server with
  | nil => exact .refl addrStr server
  | cons item rest ih => exact (hbody server item).trans (ih (body server item))

theorem emit {action : ServerAction Addr}
    (haction : ∀ destination packetData, action ≠ .socketSendTo destination packetData)
    (server : HktReliableUdpServer Addr) : SendsNothingNew addrStr server (server.emit action) := by
  refine ⟨fun packetData hpends => hpends, [action], rfl, fun destination packetData hmem => ?_⟩
  exact absurd (List.mem_singleton.mp hmem).symm (haction destination packetData)

theorem sendAck (connection : ClientConnection Addr) (server : HktReliableUdpServer Addr) :
    SendsNothingNew addrStr server (server.sendAck connection) := by
  refine ⟨fun packetData hpends => hpends, _, rfl, fun destination packetData hmem _ => ?_⟩
  split at hmem
  · obtain ⟨-, rfl⟩ : destination = connection.address ∧ packetData = _ := by simpa using hmem
    refine Or.inl (dataPayload_eq_none fun s hdata => ?_)
    have htype := hdata.2.1
    rw [PacketHeader.ofBytes_toBytes] at htype
    simp at htype
  · simp at hmem

/-- Writing a record back that has lost pending packets at most. -/
theorem writeBack {other : String} {record changed : ClientConnection Addr}
    (hfind : server.connections.find other = some record)
    (hpending : ∀ s packet, changed.pendingAckPackets.find s = some packet →
      record.pendingAckPackets.find s = some packet) :
    SendsNothingNew addrStr server (server.setConnection other changed) := by
  refine of_trace_eq ?_ rfl
  rintro packetData ⟨connection, s, packet, hconnection, hpacket, hdata⟩
  rw [connections_setConnection, SparseMap.find_add] at hconnection
  split at hconnection
  · next hsame =>
      obtain rfl := Option.some.inj hconnection
      exact ⟨record, s, packet, hsame ▸ hfind, hpending s packet hpacket, hdata⟩
  · exact ⟨connection, s, packet, hconnection, hpacket, hdata⟩

theorem disconnectClient (other : String) (server : HktReliableUdpServer Addr) :
    SendsNothingNew addrStr server (server.disconnectClient other) := by
  refine ⟨?_, _, trace_disconnectClient other server, fun destination packetData hmem => ?_⟩
  · rintro packetData ⟨connection, s, packet, hconnection, hpacket, hdata⟩
    rw [find_connections_disconnectClient] at hconnection
    split at hconnection
    · simp at hconnection
    · exact ⟨connection, s, packet, hconnection, hpacket, hdata⟩
  · split at hmem <;> simp at hmem

theorem changesGroups {changed : String} {server next : HktReliableUdpServer Addr}
    (h : ChangesGroups changed server next) : SendsNothingNew addrStr server next := by
  refine of_trace_eq ?_ h.trace
  rintro packetData ⟨connection, s, packet, hconnection, hpacket, hdata⟩
  obtain ⟨record, groupIds, hrecord, rfl⟩ := h.find_connections hconnection
  exact ⟨record, s, packet, hrecord, hpacket, hdata⟩

theorem joinGroup (clientAddr : Addr) (groupId : Int32) (server : HktReliableUdpServer Addr) :
    SendsNothingNew addrStr server (server.joinGroup clientAddr groupId) :=
  changesGroups (changesGroups_joinGroup clientAddr groupId server)

theorem leaveGroup (clientAddr : Addr) (groupId : Int32) (server : HktReliableUdpServer Addr) :
    SendsNothingNew addrStr server (server.leaveGroup clientAddr groupId) :=
  changesGroups (changesGroups_leaveGroup clientAddr groupId server)

theorem handleNewConnection (now : Time) (newAddr : Addr) (server : HktReliableUdpServer Addr) :
    SendsNothingNew addrStr server (server.handleNewConnection now newAddr) := by
  unfold HktReliableUdpServer.handleNewConnection
  dsimp only
  split
  · exact .refl addrStr server
  · refine SendsNothingNew.trans ?_ (.sendAck _ _)
    refine SendsNothingNew.trans ?_ (.emit ?_ _)
    · refine of_trace_eq ?_ rfl
      -- the new record has no pending packets
      rintro packetData ⟨connection, s, packet, hconnection, hpacket, hdata⟩
      rw [connections_setConnection, SparseMap.find_add] at hconnection
      split at hconnection
      · obtain rfl := Option.some.inj hconnection
        simp at hpacket
      · exact ⟨connection, s, packet, hconnection, hpacket, hdata⟩
    · simp

theorem dispatch {packet : ReceivedPacket Addr} {connection : ClientConnection Addr}
    (hfind : server.connections.find (Platform.toString packet.peerAddress) = some connection) :
    SendsNothingNew addrStr server (server.dispatch packet connection) := by
  unfold HktReliableUdpServer.dispatch
  dsimp only
  split
  · refine SendsNothingNew.trans ?_ (.sendAck _ _)
    exact writeBack hfind fun _ _ => id
  · exact .refl addrStr server
  · exact .disconnectClient _ server
  · split
    · exact .joinGroup _ _ server
    · exact .refl addrStr server
  · split
    · exact .leaveGroup _ _ server
    · exact .refl addrStr server
  · exact .refl addrStr server

theorem processReceivedPacket (now : Time) (packet : ReceivedPacket Addr)
    (server : HktReliableUdpServer Addr) :
    SendsNothingNew addrStr server (server.processReceivedPacket now packet) := by
  unfold HktReliableUdpServer.processReceivedPacket
  dsimp only
  split
  · exact .refl addrStr server
  · split
    · split
      · exact .handleNewConnection now _ server
      · exact .refl addrStr server
    · next connection hfind =>
        refine SendsNothingNew.trans ?_ (.dispatch (SparseMap.find_add_self _ _ _))
        refine (writeBack hfind fun s pending hpending => ?_).trans (.emit ?_ _)
        -- what the acknowledgement leaves pending was pending before
        · rw [ClientConnection.processAck, find_processAck] at hpending
          split at hpending
          · simp at hpending
          · exact hpending
        · simp

theorem processReceivedPackets (clock : ℕ → Time) (server : HktReliableUdpServer Addr) :
    SendsNothingNew addrStr server (server.processReceivedPackets clock) := by
  have hqueue : SendsNothingNew addrStr server { server with receivedPackets := [] } :=
    of_trace_eq (fun _ => id) rfl
  exact hqueue.trans (foldl (fun current packet => .processReceivedPacket _ _ current) _ _)

/-- The loop of `CheckForResends` sends copies of pending packets. -/
theorem resendAll (h : GroupsConsistent server) (currentTime : Time) :
    SendsNothingNew addrStr server (server.resendAll currentTime).1 := by
  obtain ⟨actions, hresends⟩ := resends_resendAll currentTime server
  refine ⟨?_, .checkForResends currentTime :: actions, ?_, ?_⟩
  · rintro packetData ⟨connection, s, packet, hconnection, hpacket, rfl⟩
    rw [hresends.find_keys] at hconnection
    obtain ⟨record, hrecord, rfl⟩ := Option.map_eq_some_iff.mp hconnection
    obtain ⟨original, horiginal, hdata⟩ := packetData_of_find_resendPending _ _ hpacket
    exact ⟨record, s, original, hrecord, horiginal, hdata⟩
  · rw [hresends.trace, trace_emit, List.append_assoc, List.singleton_append]
  · intro destination packetData hmem haddress
    have hsent := List.mem_of_ne_of_mem (by simp) hmem
    obtain ⟨other, connection, s, packet, hfind, rfl, hpacket, hdata⟩ :=
      hresends.sends destination packetData hsent
    -- the connection that sends it is that of the address
    obtain rfl := (h.connection_address other connection hfind).symm.trans haddress
    exact Or.inr ⟨connection, s, packet, hfind, hpacket, hdata⟩

theorem tick (h : GroupsConsistent server) (clock : TickClock) :
    SendsNothingNew addrStr server (server.tick clock) := by
  have hmoves : Moves anyHeader server (server.processReceivedPackets clock.packet) :=
    processReceivedPackets_moves clock.packet fun _ _ => trivial
  have hsweep : SendsNothingNew addrStr _ _ := resendAll (h.moves hmoves) clock.resend
  have hdisconnect : ∀ (clients : List String) (current : HktReliableUdpServer Addr),
      SendsNothingNew addrStr current
        (clients.foldl (fun server other => server.disconnectClient other) current) :=
    foldl fun current other => .disconnectClient other current
  have hresend : SendsNothingNew addrStr (server.processReceivedPackets clock.packet)
      ((server.processReceivedPackets clock.packet).checkForResends clock.resend) :=
    hsweep.trans (hdisconnect _ _)
  exact ((processReceivedPackets clock.packet server).trans hresend).trans (hdisconnect _ _)

end SendsNothingNew

/-! ### Calls of `SendTo` -/

omit [Platform Addr] in
/-- If the datagram is a Data packet, its payload is one of these. -/
def Carries (allowed : Bytes → Prop) (packetData : Bytes) : Prop :=
  ∀ payload, dataPayload packetData = some payload → allowed payload

omit [Platform Addr] in
theorem Carries.mono {allowed more : Bytes → Prop} {packetData : Bytes}
    (h : Carries allowed packetData) (hmore : ∀ payload, allowed payload → more payload) :
    Carries more packetData :=
  fun payload hpayload => hmore payload (h payload hpayload)

/-- The server keeps and has sent only these payloads for the address. -/
structure CarriesOnly (addrStr : String) (allowed : Bytes → Prop)
    (server : HktReliableUdpServer Addr) : Prop where
  pending : ∀ packetData, Pends addrStr server packetData → Carries allowed packetData
  sent : ∀ destination packetData, .socketSendTo destination packetData ∈ server.trace →
    Platform.toString destination = addrStr → Carries allowed packetData

/-- The event calls `SendTo` with the data for the address: directly, or for a member of
the group that is broadcast to. -/
def CallsSendTo (addrStr : String) (server : HktReliableUdpServer Addr) (data : Bytes) :
    ServerEvent Addr → Prop
  | .sendTo _ (some dstAddr) sent => Platform.toString dstAddr = addrStr ∧ sent = data
  | .broadcastToGroup _ groupId sent excludeAddr =>
      sent = data ∧ ∃ groupMembers, server.groups.find groupId = some groupMembers ∧
        ∃ member ∈ groupMembers.entries, Platform.toString member.2 = addrStr ∧
          excludeAddr.all (fun address => !Platform.compareEndpoints member.2 address) = true
  | _ => False

namespace CarriesOnly

variable {addrStr : String} {allowed : Bytes → Prop} {server : HktReliableUdpServer Addr}

theorem init : CarriesOnly addrStr allowed ({} : HktReliableUdpServer Addr) where
  pending := by
    rintro packetData ⟨connection, s, packet, hconnection, -⟩
    simp at hconnection
  sent := by simp

theorem mono (h : CarriesOnly addrStr allowed server) {more : Bytes → Prop}
    (hmore : ∀ payload, allowed payload → more payload) : CarriesOnly addrStr more server where
  pending packetData hpends := (h.pending packetData hpends).mono hmore
  sent destination packetData hmem haddress :=
    (h.sent destination packetData hmem haddress).mono hmore

theorem of_nothingNew {next : HktReliableUdpServer Addr} (h : CarriesOnly addrStr allowed server)
    (hnothing : SendsNothingNew addrStr server next) : CarriesOnly addrStr allowed next := by
  obtain ⟨actions, htrace, hsends⟩ := hnothing.trace
  refine ⟨fun packetData hpends => h.pending packetData (hnothing.pends packetData hpends), ?_⟩
  intro destination packetData hmem haddress
  rw [htrace] at hmem
  rcases List.mem_append.mp hmem with hmem | hmem
  · exact h.sent destination packetData hmem haddress
  · rcases hsends destination packetData hmem haddress with hcontrol | hpends
    · intro payload hpayload
      simp [hcontrol] at hpayload
    · exact h.pending packetData hpends

omit [Platform Addr] in
theorem carries_packetData {data : Bytes} (hdata : allowed data)
    (connection : ClientConnection Addr) : Carries allowed (connection.packetData data) := by
  intro payload hpayload
  obtain ⟨-, hsame⟩ := Option.ite_none_right_eq_some.mp hpayload
  obtain rfl := Option.some.inj hsame
  unfold ClientConnection.packetData
  rw [payloadOf_toBytes_append]
  exact hdata

theorem sendTo (h : CarriesOnly addrStr allowed server) (now : Time) {dstAddr : Addr}
    {data : Bytes} (hdata : Platform.toString dstAddr = addrStr → allowed data) :
    CarriesOnly addrStr allowed (server.sendTo now (some dstAddr) data) := by
  unfold HktReliableUdpServer.sendTo
  split
  · next address hsocket haddress =>
      obtain rfl := Option.some.inj haddress
      dsimp only
      split
      · exact h
      · next connection hfind =>
          constructor
          · rintro packetData ⟨record, s, packet, hrecord, hpacket, rfl⟩
            rw [connections_emit, connections_setConnection, SparseMap.find_add] at hrecord
            split at hrecord
            · next hsame =>
                obtain rfl := Option.some.inj hrecord
                dsimp only at hpacket
                rw [SparseMap.find_add] at hpacket
                split at hpacket
                · obtain rfl := Option.some.inj hpacket
                  exact carries_packetData (hdata hsame.symm) connection
                -- an older pending packet of the same record
                · exact h.pending _ ⟨connection, s, packet, hsame ▸ hfind, hpacket, rfl⟩
            · exact h.pending _ ⟨record, s, packet, hrecord, hpacket, rfl⟩
          · intro destination packetData hmem hdestination
            rw [trace_emit, trace_setConnection, trace_socketSendTo, hsocket, if_pos rfl,
              List.append_assoc, List.mem_append] at hmem
            rcases hmem with hmem | hmem
            · exact h.sent destination packetData hmem hdestination
            · obtain ⟨rfl, rfl⟩ : destination = dstAddr ∧ packetData = _ := by simpa using hmem
              exact carries_packetData (hdata hdestination) connection
  · exact h

/-- A broadcast calls `SendTo` for the members that it does not exclude.  The induction is over
the part of the member list that is still to be visited. -/
theorem broadcastToGroup (h : CarriesOnly addrStr allowed server) (clock : ℕ → Time)
    {groupId : Int32} {data : Bytes} {excludeAddr : Option Addr}
    (hdata : ∀ payload, CallsSendTo addrStr server payload
      (.broadcastToGroup clock groupId data excludeAddr) → allowed payload) :
    CarriesOnly addrStr allowed (server.broadcastToGroup clock groupId data excludeAddr) := by
  unfold HktReliableUdpServer.broadcastToGroup
  split
  · exact h
  · next groupMembers hgroup =>
      suffices hloop : ∀ (members : List ((String × Addr) × ℕ)) (current : HktReliableUdpServer Addr),
          (∀ member ∈ members, member.1 ∈ groupMembers.entries) →
          CarriesOnly addrStr allowed current →
          CarriesOnly addrStr allowed (members.foldl (fun server member =>
            if excludeAddr.all fun address => !Platform.compareEndpoints member.1.2 address then
              server.sendTo (clock member.2) (some member.1.2) data
            else server) current) from
        hloop _ server (fun member hmember => List.fst_mem_of_mem_zipIdx hmember) h
      intro members
      induction members with
      | nil => exact fun current _ hcurrent => hcurrent
      | cons member rest ih =>
          intro current hmembers hcurrent
          rw [List.foldl_cons]
          refine ih _ (fun other hother => hmembers other (List.mem_cons_of_mem _ hother)) ?_
          split
          · next hincluded =>
              refine hcurrent.sendTo _ fun haddress => hdata data ⟨rfl, groupMembers, hgroup, ?_⟩
              exact ⟨member.1, hmembers member (List.mem_cons_self ..), haddress, hincluded⟩
          · exact hcurrent

/-- An event brings in no payload but those that it calls `SendTo` with. -/
theorem step (h : CarriesOnly addrStr allowed server) (hgroups : GroupsConsistent server)
    (event : ServerEvent Addr) (hdata : ∀ data, CallsSendTo addrStr server data event → allowed data) :
    CarriesOnly addrStr allowed (server.step event) := by
  cases event with
  | start bound => exact ⟨h.pending, h.sent⟩
  | stop =>
      refine h.of_nothingNew ?_
      simp only [HktReliableUdpServer.step, stop]
      split
      · exact .refl addrStr server
      · exact .of_trace_eq (fun _ => id) rfl
  | receive peerAddress receivedData =>
      refine h.of_nothingNew ?_
      simp only [HktReliableUdpServer.step, receive]
      split
      · exact .of_trace_eq (fun _ => id) rfl
      · exact .refl addrStr server
  | tick clock => exact h.of_nothingNew (.tick hgroups clock)
  | sendTo now dstAddr data =>
      cases dstAddr with
      | none =>
          have hnull : server.sendTo now none data = server := by
            unfold HktReliableUdpServer.sendTo
            split <;> simp_all
          rw [HktReliableUdpServer.step, hnull]
          exact h
      | some dstAddr => exact h.sendTo now fun haddress => hdata data ⟨haddress, rfl⟩
  | broadcastToGroup clock groupId data excludeAddr => exact h.broadcastToGroup clock hdata
  | joinGroup clientAddr groupId => exact h.of_nothingNew (.joinGroup clientAddr groupId server)
  | leaveGroup clientAddr groupId => exact h.of_nothingNew (.leaveGroup clientAddr groupId server)

end CarriesOnly

end Server

/-! ## What the client holds -/

section Client

open HktReliableUdpClient

/-- The two queues of the client hold only these payloads. -/
structure HoldsPayloads (allowed : Bytes → Prop) (client : HktReliableUdpClient Addr) : Prop where
  incoming : ∀ packetData ∈ client.incomingPackets, Carries allowed packetData
  received : ∀ payload ∈ client.receivedDataPackets, allowed payload

/-- The datagrams that wait in the queue and the payloads that wait for `Poll`, after the
payloads that it has returned, are those of the Data datagrams that have arrived. -/
def PollsArrivals (client : HktReliableUdpClient Addr) : Prop :=
  polledPayloads client.trace ++ client.receivedDataPackets ++
    client.incomingPackets.filterMap dataPayload = receivedPayloads client.trace

variable {client next : HktReliableUdpClient Addr}

theorem HoldsPayloads.mono {allowed more : Bytes → Prop} (h : HoldsPayloads allowed client)
    (hmore : ∀ payload, allowed payload → more payload) : HoldsPayloads more client where
  incoming packetData hmem := (h.incoming packetData hmem).mono hmore
  received payload hmem := hmore payload (h.received payload hmem)

/-- Every move takes payloads from Data datagrams that may arrive.  A payload enters
`ReceivedDataPackets` from the head of the other queue and nowhere else. -/
theorem HoldsPayloads.move [Platform Addr] {allowed : Bytes → Prop}
    {states : HktReliableUdpClient Addr → Prop} (hmove : Move states (Carries allowed) client next)
    (h : HoldsPayloads allowed client) : HoldsPayloads allowed next := by
  cases hmove with
  | receive packetData harrives =>
      refine ⟨fun other hother => ?_, h.received⟩
      rcases List.mem_append.mp hother with hother | hother
      · exact h.incoming other hother
      · rw [List.mem_singleton.mp hother]
        exact harrives
  | skip hqueue _ =>
      refine ⟨fun other hother => h.incoming other ?_, h.received⟩
      rw [hqueue]
      exact List.mem_cons_of_mem _ hother
  | @accept packetData rest sequence hqueue hdata =>
      refine ⟨fun other hother => h.incoming other ?_, fun payload hpayload => ?_⟩
      · rw [hqueue]
        exact List.mem_cons_of_mem _ hother
      · rcases List.mem_append.mp hpayload with hpayload | hpayload
        · exact h.received payload hpayload
        · have hhead : Carries allowed packetData := h.incoming packetData (by simp [hqueue])
          rw [List.mem_singleton.mp hpayload]
          exact hhead _ (dataPayload_of_isDataPacket hdata)
  | @poll payload rest hqueue =>
      refine ⟨h.incoming, fun other hother => h.received other ?_⟩
      rw [hqueue]
      exact List.mem_cons_of_mem _ hother
  | _ => exact ⟨h.incoming, h.received⟩

/-- An action that is neither a poll nor an arrival. -/
theorem PollsArrivals.append (h : PollsArrivals client) {more : List ClientAction}
    (htrace : next.trace = client.trace ++ more)
    (hpolled : polledPayloads more = []) (hreceived : receivedPayloads more = [])
    (hqueues : next.receivedDataPackets ++ next.incomingPackets.filterMap dataPayload =
      client.receivedDataPackets ++ client.incomingPackets.filterMap dataPayload) :
    PollsArrivals next := by
  unfold PollsArrivals polledPayloads receivedPayloads at *
  rw [htrace, List.filterMap_append, List.filterMap_append, hpolled, hreceived, List.append_nil,
    List.append_nil, List.append_assoc, hqueues, ← List.append_assoc]
  exact h

theorem PollsArrivals.move [Platform Addr] {states : HktReliableUdpClient Addr → Prop}
    {arrives : Bytes → Prop} (hmove : Move states arrives client next) (h : PollsArrivals client) :
    PollsArrivals next := by
  cases hmove with
  | environment clientSocket serverAddr receiverThread bIsStopping => exact h
  | connect serverAddr _ => exact h.append rfl rfl rfl rfl
  | control data _ _ => exact h.append rfl rfl rfl rfl
  | disconnect => exact h.append rfl rfl rfl rfl
  | sendNothing data => exact h.append rfl rfl rfl rfl
  | send now data _ =>
      have htrace : ((client.emit (.send data)).afterSend now data).trace = client.trace ++
          [.send data, .socketSendTo (client.dataDatagram data),
            .sentData (client.sentSequence + 1) now] := List.append_assoc ..
      exact h.append htrace rfl rfl rfl
  | receive packetData _ =>
      unfold PollsArrivals polledPayloads receivedPayloads at *
      simp only [trace_emit, List.filterMap_append, ← h]
      cases hpayload : dataPayload packetData <;>
        simp [HktReliableUdpClient.emit, hpayload]
  | skip hqueue hskip =>
      refine h.append (List.append_nil _).symm rfl rfl ?_
      rw [hqueue, List.filterMap_cons_none (dataPayload_eq_none hskip)]
  | handshake _ _ _ => exact h.append rfl rfl rfl rfl
  | processAck _ => exact h.append rfl rfl rfl rfl
  | accept hqueue hdata =>
      refine h.append rfl rfl rfl ?_
      rw [hqueue, List.filterMap_cons_some (dataPayload_of_isDataPacket hdata)]
      simp [HktReliableUdpClient.emit]
  | poll hqueue =>
      unfold PollsArrivals polledPayloads receivedPayloads at *
      simp only [trace_emit, List.filterMap_append, ← h, hqueue]
      simp [HktReliableUdpClient.emit]
  | resend currentTime _ =>
      refine h.append rfl ?_ ?_ rfl
      · refine List.filterMap_eq_nil_iff.mpr fun action haction => ?_
        rcases mem_resendActions_cases haction with ⟨packetData, rfl⟩ | rfl | ⟨s, rfl⟩ <;> rfl
      · refine List.filterMap_eq_nil_iff.mpr fun action haction => ?_
        rcases mem_resendActions_cases haction with ⟨packetData, rfl⟩ | rfl | ⟨s, rfl⟩ <;> rfl

end Client

/-! ## The link -/

namespace Link

variable [Platform Addr] {clientAddr : Addr}

/-- The event calls the server's `SendTo` with the data for the client's address. -/
def CallsSendTo (link : Link Addr) (data : Bytes) : LinkEvent clientAddr → Prop
  | .server event =>
      CustomNet.CallsSendTo (Platform.toString clientAddr) link.server data event.1
  | _ => False

/-- `SendTo` was called with the data for the client's address. -/
def SentEarlier (events : List (LinkEvent clientAddr)) (data : Bytes) : Prop :=
  ∃ earlier event later, events = earlier ++ event :: later ∧ (after earlier).CallsSendTo data event

theorem SentEarlier.concat {events : List (LinkEvent clientAddr)} {data : Bytes}
    (h : SentEarlier events data) (event : LinkEvent clientAddr) :
    SentEarlier (events ++ [event]) data := by
  obtain ⟨earlier, call, later, rfl, hcalls⟩ := h
  exact ⟨earlier, call, later ++ [event], by simp, hcalls⟩

/-- Wherever a payload is, `SendTo` was called with it. -/
structure PayloadsSent (events : List (LinkEvent clientAddr)) (link : Link Addr) : Prop where
  groups : GroupsConsistent link.server
  server : CarriesOnly (Platform.toString clientAddr) (SentEarlier events) link.server
  replies : ∀ reply ∈ link.replies, Carries (SentEarlier events) reply.packetData
  client : HoldsPayloads (SentEarlier events) link.client

namespace PayloadsSent

variable {events : List (LinkEvent clientAddr)}

theorem concat {link : Link Addr} (h : PayloadsSent events link) (event : LinkEvent clientAddr) :
    PayloadsSent (events ++ [event]) link where
  groups := h.groups
  server := h.server.mono fun _ hsent => hsent.concat event
  replies reply hreply := (h.replies reply hreply).mono fun _ hsent => hsent.concat event
  client := h.client.mono fun _ hsent => hsent.concat event

theorem serverStep {link : Link Addr} (h : PayloadsSent events link) {event : ServerEvent Addr}
    (hdata : ∀ data, CustomNet.CallsSendTo (Platform.toString clientAddr) link.server data event →
      SentEarlier events data) : PayloadsSent events (link.serverStep clientAddr event) := by
  have hserver := h.server.step h.groups event hdata
  refine ⟨h.groups.moves (HktReliableUdpServer.step_moves link.server event), hserver, ?_, h.client⟩
  intro reply hreply
  rcases List.mem_append.mp hreply with hreply | hreply
  · exact h.replies reply hreply
  · obtain ⟨-, destination, haddress, hmem⟩ := exists_socketSendTo_of_mem_repliesIn hreply
    exact hserver.sent destination reply.packetData (List.mem_of_mem_drop hmem) haddress

theorem clientStep {link : Link Addr} (h : PayloadsSent events link) {event : ClientEvent Addr}
    (harrives : ∀ packetData, event = .receive packetData →
      Carries (SentEarlier events) packetData) :
    HoldsPayloads (SentEarlier events) (link.client.step event) := by
  have hmoves : HktReliableUdpClient.Moves HktReliableUdpClient.anyState
      (Carries (SentEarlier events)) link.client (link.client.step event) :=
    HktReliableUdpClient.step_moves_of_allowed link.client event (fun _ _ => trivial) harrives
  exact preserved_of_moves (P := HoldsPayloads (SentEarlier events))
    (fun _ _ => HoldsPayloads.move) hmoves h.client

theorem step (h : PayloadsSent events (after events)) (event : LinkEvent clientAddr) :
    PayloadsSent (events ++ [event]) (after (events ++ [event])) := by
  have hlink := h.concat event
  rw [after, run_concat]
  cases event with
  | server event =>
      refine hlink.serverStep fun data hcalls => ?_
      exact ⟨events, .server event, [], rfl, hcalls⟩
  | client event =>
      refine ⟨hlink.groups, hlink.server, hlink.replies, hlink.clientStep fun packetData hevent => ?_⟩
      exact absurd event.2 (by simp [hevent, ClientEvent.IsCall])
  | toServer i =>
      simp only [Link.step]
      split
      · exact hlink
      · next request _ =>
          have hreceive : PayloadsSent (events ++ [.toServer i]) ((after events).serverStep
              clientAddr (.receive clientAddr request.packetData)) :=
            hlink.serverStep fun data hcalls => hcalls.elim
          exact ⟨hreceive.groups, hreceive.server, hlink.replies, hlink.client⟩
  | toClient i =>
      simp only [Link.step]
      split
      · exact hlink
      · next reply hreply =>
          have hreceive : HoldsPayloads (SentEarlier (events ++ [.toClient i]))
              ((after events).client.step (.receive reply.packetData)) := by
            refine hlink.clientStep fun packetData hevent => ?_
            obtain rfl := ClientEvent.receive.inj hevent
            exact hlink.replies reply (List.mem_of_getElem? hreply)
          exact ⟨hlink.groups, hlink.server, hlink.replies, hreceive⟩

end PayloadsSent

theorem payloadsSent_after (events : List (LinkEvent clientAddr)) :
    PayloadsSent events (after events) := by
  induction events using List.reverseRecOn with
  | nil =>
      exact ⟨groupsConsistent_init, .init, by simp, by simp, by simp⟩
  | append_singleton before event ih => exact ih.step event

theorem pollsArrivals_after (events : List (LinkEvent clientAddr)) :
    PollsArrivals (after events).client :=
  client_invariant (P := PollsArrivals) rfl (fun _ _ => PollsArrivals.move) events

/-- `Poll` is called on the client and returns the payload. -/
def Polls (link : Link Addr) (payload : Bytes) (event : LinkEvent clientAddr) : Prop :=
  (∃ call, event = .client call ∧ call.1 = .poll) ∧ link.client.poll.2 = some payload

/-- **Payload integrity.**  In every run of a server, a client and the network: every
payload that `Poll` returns is the data of an earlier `SendTo` to the client's address.
The payloads polled so far, then those that wait for `Poll`, then those of the Data
datagrams in `IncomingPackets`, are in order the payloads of the Data datagrams that have
arrived, so that no control datagram makes one. -/
theorem payload_integrity (events : List (LinkEvent clientAddr)) :
    Historically (fun before event => ∀ payload, Polls (after before) payload event →
      SentEarlier before payload) events ∧
    PollsArrivals (after events).client := by
  refine ⟨fun before event later _ payload hpolls => ?_, pollsArrivals_after events⟩
  have hpoll := hpolls.2
  unfold HktReliableUdpClient.poll at hpoll
  split at hpoll
  · simp at hpoll
  · next first rest hqueue =>
      obtain rfl := Option.some.inj hpoll
      exact (payloadsSent_after before).client.received _ (by simp [hqueue])

/-- A client connects and is sent a packet, which the network delivers twice. -/
def deliveredTwice : List (LinkEvent (⟨7778⟩ : LoopbackAddr)) :=
  connectEvents ++ [.server ⟨.sendTo 0 (some ⟨7778⟩) [42], trivial⟩, .toClient 1, .toClient 1,
    .client ⟨.tick (1/10), trivial⟩, .client ⟨.poll, trivial⟩]

theorem payload_integrity_deliveredTwice : SentEarlier deliveredTwice [42] := by
  have hpolls : Polls (after deliveredTwice) [42]
      (.client ⟨.poll, trivial⟩ : LinkEvent (⟨7778⟩ : LoopbackAddr)) :=
    ⟨⟨_, rfl, rfl⟩, by decide +kernel⟩
  exact (payload_integrity (deliveredTwice ++ [.client ⟨.poll, trivial⟩])).1 deliveredTwice _ []
    rfl [42] hpolls

end Link

end HktBase.CustomNet
