import HktBase.Library.Broker
import HktBase.CustomNet.Broadcast

/-!
# The server as a broker

What a client of the server is to the game: whether it is registered, the groups it has
joined, and the data it has been sent since it was registered.  This file shows that the
server keeps exactly this for each of its clients, as a broker whose topics are the groups:
every event is a short list of commands to the broker (`commands`), which can be read off the
packets in the queue and the arguments of the calls, apart from the clients that the sweeps
drop, and each function of the server does to every client what its commands do.

What a client has been sent is read off the trace: `firstTransmissions` are the datagrams
that the next line names as newly sent.  They are numbered from 1 in the order in which the
broker has passed them on, and the numbers come round at 2^32.
-/

namespace HktBase.CustomNet

open HktReliableUdpServer Transition Broker

variable {Addr : Type}

/-! ## First transmissions -/

/-- One line of the log, after a datagram that waits for the line that names it. -/
def transmitFirst (found : Option Bytes × List (UInt32 × Bytes)) :
    Note → Option Bytes × List (UInt32 × Bytes)
  | .datagram packetData => (some packetData, found.2)
  | .sentData sequence _ =>
      (none, found.2 ++ found.1.toList.map fun packetData => (sequence, packetData))
  | _ => (none, found.2)

/-- The packets that were numbered and sent, with their numbers. -/
def firstTransmissions (log : List Note) : List (UInt32 × Bytes) :=
  (log.foldl transmitFirst (none, [])).2

theorem firstTransmissions_append (log notes : List Note) :
    firstTransmissions (log ++ notes) =
      (notes.foldl transmitFirst (log.foldl transmitFirst (none, []))).2 := by
  rw [firstTransmissions, List.foldl_append]

theorem firstTransmissions_sentData (log : List Note) (packetData : Bytes) (sequence : UInt32)
    (sentTime : Time) :
    firstTransmissions (log ++ [.datagram packetData, .sentData sequence sentTime]) =
      firstTransmissions log ++ [(sequence, packetData)] := by
  rw [firstTransmissions_append]
  rfl

/-- Lines that number no packet add no transmission. -/
theorem firstTransmissions_append_of_ne {notes : List Note}
    (hnotes : ∀ note ∈ notes, ∀ sequence sentTime, note ≠ .sentData sequence sentTime)
    (log : List Note) : firstTransmissions (log ++ notes) = firstTransmissions log := by
  induction notes using List.reverseRecOn with
  | nil => rw [List.append_nil]
  | append_singleton before note ih =>
      rw [← List.append_assoc, firstTransmissions_append, List.foldl_cons, List.foldl_nil]
      refine Eq.trans ?_ (ih fun other hother => hnotes other (by simp [hother]))
      cases note with
      | sentData sequence sentTime =>
          exact absurd rfl (hnotes (.sentData sequence sentTime) (by simp) sequence sentTime)
      | _ => rfl

variable [Platform Addr]

/-- What a client has been sent since it was registered, with the numbers. -/
def HktReliableUdpServer.published (server : HktReliableUdpServer Addr) (addrStr : String) :
    List (UInt32 × Bytes) :=
  firstTransmissions (server.notes addrStr)

/-- The entry neither begins or ends a life of the client nor numbers a packet for it. -/
def ServerAction.PublishesNothing (addrStr : String) (action : ServerAction Addr) : Prop :=
  bounds addrStr action = false ∧
    ∀ sequence sentTime, action ≠ .sentData addrStr sequence sentTime

omit [Platform Addr] in
theorem ServerAction.publishesNothing_of_key {addrStr other : String} {action : ServerAction Addr}
    (hkey : action.key = some other) (hne : addrStr ≠ other) :
    action.PublishesNothing addrStr := by
  refine ⟨?_, ?_⟩
  · simp [bounds, hkey, Ne.symm hne]
  · intro sequence sentTime hsame
    rw [hsame, ServerAction.key] at hkey
    exact hne (Option.some.inj hkey)

omit [Platform Addr] in
theorem ServerAction.publishesNothing_of_key_eq_none {action : ServerAction Addr}
    (hkey : action.key = none) (addrStr : String) : action.PublishesNothing addrStr := by
  refine ⟨?_, ?_⟩
  · simp [bounds, hkey]
  · intro sequence sentTime hsame
    rw [hsame, ServerAction.key] at hkey
    simp at hkey

theorem note_ne_sentData {addrStr : String} {action : ServerAction Addr}
    (h : ∀ sequence sentTime, action ≠ .sentData addrStr sequence sentTime) (sequence : UInt32)
    (sentTime : Time) : action.note addrStr ≠ .sentData sequence sentTime := by
  cases action with
  | sentData other number time =>
      by_cases hsame : other = addrStr
      · subst hsame
        exact absurd rfl (h number time)
      · simp [ServerAction.note, hsame]
  | socketSendTo | resent | processAck =>
      simp only [ServerAction.note]
      split <;> simp
  | _ => simp [ServerAction.note]

theorem published_of_trace {server next : HktReliableUdpServer Addr} {addrStr : String}
    {actions : List (ServerAction Addr)} (htrace : next.trace = server.trace ++ actions)
    (hactions : ∀ action ∈ actions, action.PublishesNothing addrStr) :
    next.published addrStr = server.published addrStr := by
  have hlife : next.life addrStr = server.life addrStr ++ actions := by
    rw [life, life, htrace]
    exact sinceLast_append_of_not (fun action haction => (hactions action haction).1) server.trace
  rw [published, notes, hlife, List.map_append]
  refine firstTransmissions_append_of_ne (fun note hnote => ?_) _
  obtain ⟨action, haction, rfl⟩ := List.mem_map.mp hnote
  exact note_ne_sentData (hactions action haction).2

/-! ## Clients of the broker -/

/-- A registered client as a subscriber: the groups it has joined and the data it was sent. -/
noncomputable def HktReliableUdpServer.subscription (server : HktReliableUdpServer Addr)
    (addrStr : String) : Option (Subscription Int32 Bytes) :=
  (server.connections.find addrStr).map fun connection =>
    { topics := {groupId | connection.groupIds.contains groupId = true}
      published := (server.published addrStr).map fun sent => payloadOf sent.2 }

section Subscription

variable {server next : HktReliableUdpServer Addr} {addrStr : String}

/-- Where a record keeps its groups and nothing is numbered for its client, the subscription is
as before: the two things that it is read off have not changed. -/
theorem subscription_of_trace (actions : List (ServerAction Addr))
    (htrace : next.trace = server.trace ++ actions)
    (hactions : ∀ action ∈ actions, action.PublishesNothing addrStr)
    (hgroups : (next.connections.find addrStr).map ClientConnection.groupIds =
      (server.connections.find addrStr).map ClientConnection.groupIds) :
    next.subscription addrStr = server.subscription addrStr := by
  have hpublished := published_of_trace htrace hactions
  unfold HktReliableUdpServer.subscription
  rw [hpublished]
  have hview := congrArg (Option.map fun groupIds : TSet Int32 =>
    ({ topics := {groupId | groupIds.contains groupId = true}
       published := (server.published addrStr).map fun sent => payloadOf sent.2 } :
      Subscription Int32 Bytes)) hgroups
  rw [Option.map_map, Option.map_map] at hview
  exact hview

theorem subscription_sendAck (connection : ClientConnection Addr)
    (server : HktReliableUdpServer Addr) (addrStr : String) :
    (server.sendAck connection).subscription addrStr = server.subscription addrStr := by
  refine subscription_of_trace _ rfl (fun action haction => ?_) rfl
  obtain rfl := List.mem_singleton.mp haction
  refine ServerAction.publishesNothing_of_key_eq_none ?_ addrStr
  split <;> rfl

theorem subscription_setConnection {before : ClientConnection Addr} {changed : String}
    (hfind : server.connections.find changed = some before) {after : ClientConnection Addr}
    (hgroups : after.groupIds = before.groupIds) (addrStr : String) :
    (server.setConnection changed after).subscription addrStr = server.subscription addrStr := by
  refine subscription_of_trace [] (List.append_nil _).symm (by simp) ?_
  rw [connections_setConnection, SparseMap.find_add]
  split
  · next hsame => rw [hsame, hfind, Option.map_some, Option.map_some, hgroups]
  · rfl

theorem subscription_of_changesGroups {changed : String}
    (hchanges : ChangesGroups changed server next) (hne : addrStr ≠ changed) :
    next.subscription addrStr = server.subscription addrStr := by
  refine subscription_of_trace [] ?_ (fun _ => False.elim ∘ List.not_mem_nil) ?_
  · rw [hchanges.trace, List.append_nil]
  · rw [hchanges.find_connections_of_ne hne]

theorem subscription_joinGroup (clientAddr : Addr) (groupId : Int32)
    (server : HktReliableUdpServer Addr) (addrStr : String) :
    (server.joinGroup clientAddr groupId).subscription addrStr =
      perform addrStr (server.subscription addrStr)
        (.subscribe (Platform.toString clientAddr) groupId) := by
  by_cases hsame : Platform.toString clientAddr = addrStr
  · subst hsame
    rw [perform, if_pos rfl]
    unfold HktReliableUdpServer.subscription HktReliableUdpServer.published
      HktReliableUdpServer.notes HktReliableUdpServer.life
    rw [trace_joinGroup]
    unfold HktReliableUdpServer.joinGroup
    dsimp only
    cases hfind : server.connections.find (Platform.toString clientAddr) with
    | none => simp [hfind]
    | some connection =>
        dsimp only
        split
        · next hlisted =>
            have hmem : groupId ∈ {other | connection.groupIds.contains other = true} := hlisted
            rw [hfind, Option.map_some, Option.map_some, Set.insert_eq_of_mem hmem]
        · simp only [SparseMap.find_add_self, Option.map_some, Option.some.injEq,
            Subscription.mk.injEq, and_true]
          ext other
          simp [SparseMap.contains_add]
  · rw [subscription_of_changesGroups (changesGroups_joinGroup clientAddr groupId server)
      (Ne.symm hsame), perform, if_neg hsame]

theorem subscription_leaveGroup (clientAddr : Addr) (groupId : Int32)
    (server : HktReliableUdpServer Addr) (addrStr : String) :
    (server.leaveGroup clientAddr groupId).subscription addrStr =
      perform addrStr (server.subscription addrStr)
        (.unsubscribe (Platform.toString clientAddr) groupId) := by
  by_cases hsame : Platform.toString clientAddr = addrStr
  · subst hsame
    rw [perform, if_pos rfl]
    unfold HktReliableUdpServer.subscription HktReliableUdpServer.published
      HktReliableUdpServer.notes HktReliableUdpServer.life
    rw [trace_leaveGroup]
    unfold HktReliableUdpServer.leaveGroup
    dsimp only
    cases hfind : server.connections.find (Platform.toString clientAddr) with
    | none => simp [hfind]
    | some connection =>
        dsimp only
        split
        · simp only [SparseMap.find_add_self, Option.map_some, Option.some.injEq,
            Subscription.mk.injEq, and_true]
          ext other
          simp [SparseMap.contains_remove, and_comm]
        · next hlisted =>
            have hmem : groupId ∉ {other | connection.groupIds.contains other = true} := hlisted
            rw [hfind, Option.map_some, Option.map_some, Set.sdiff_singleton_eq_self hmem]
  · rw [subscription_of_changesGroups (changesGroups_leaveGroup clientAddr groupId server)
      (Ne.symm hsame), perform, if_neg hsame]

theorem subscription_disconnectClient (changed : String) (server : HktReliableUdpServer Addr)
    (addrStr : String) :
    (server.disconnectClient changed).subscription addrStr =
      perform addrStr (server.subscription addrStr) (.disconnect changed) := by
  by_cases hsame : changed = addrStr
  · rw [perform, if_pos hsame, HktReliableUdpServer.subscription,
      find_connections_disconnectClient, if_pos hsame.symm, Option.map_none]
  · rw [perform, if_neg hsame]
    refine subscription_of_trace _ (trace_disconnectClient changed server) ?_ ?_
    · intro action haction
      split at haction
      · obtain rfl := List.mem_singleton.mp haction
        exact ServerAction.publishesNothing_of_key rfl (Ne.symm hsame)
      · simp at haction
    · rw [find_connections_disconnectClient, if_neg (Ne.symm hsame)]

theorem subscription_foldl_disconnectClient (clients : List String)
    (server : HktReliableUdpServer Addr) (addrStr : String) :
    (clients.foldl (fun server client => server.disconnectClient client) server).subscription
        addrStr =
      performAll addrStr (server.subscription addrStr) (clients.map .disconnect) := by
  induction clients generalizing server with
  | nil => rfl
  | cons client rest ih =>
      rw [List.foldl_cons, ih, subscription_disconnectClient]
      rfl

theorem subscription_handleNewConnection (now : Time) (newAddr : Addr)
    (server : HktReliableUdpServer Addr) (addrStr : String) :
    (server.handleNewConnection now newAddr).subscription addrStr =
      perform addrStr (server.subscription addrStr) (.connect (Platform.toString newAddr)) := by
  unfold HktReliableUdpServer.handleNewConnection
  dsimp only
  split
  -- who is registered already stays as it is
  · next hcontains =>
      obtain ⟨connection, hfind⟩ := SparseMap.contains_iff.mp hcontains
      rw [perform]
      split
      · next hsame =>
          subst hsame
          simp [HktReliableUdpServer.subscription, hfind]
      · rfl
  · next hnew =>
      rw [subscription_sendAck, perform]
      split
      · next hsame =>
          subst hsame
          have hnone : server.subscription (Platform.toString newAddr) = none := by
            rw [HktReliableUdpServer.subscription, Option.map_eq_none_iff]
            simpa [SparseMap.contains] using hnew
          rw [hnone]
          -- a new life begins, with no group and nothing sent
          unfold HktReliableUdpServer.subscription HktReliableUdpServer.published
            HktReliableUdpServer.notes HktReliableUdpServer.life
          rw [trace_emit,
            lifeIn_concat_of_bounds (by simp [bounds, ServerAction.isBoundary, ServerAction.key]),
            connections_emit, connections_setConnection, SparseMap.find_add_self]
          simp [firstTransmissions]
      · next hne =>
          refine subscription_of_trace [.newConnection (Platform.toString newAddr)]
            rfl (fun action haction => ?_) ?_
          · obtain rfl := List.mem_singleton.mp haction
            exact ServerAction.publishesNothing_of_key rfl (Ne.symm hne)
          · rw [connections_emit, connections_setConnection,
              SparseMap.find_add_of_ne _ _ (Ne.symm hne)]

/-! ## Sending -/

/-- `SendTo` on an open socket is the command of that name: the client gets the data if it is
registered, and nobody else does. -/
theorem subscription_sendTo (hopen : server.listenSocket = true) (now : Time) (dstAddr : Addr)
    (data : Bytes) (addrStr : String) :
    (server.sendTo now (some dstAddr) data).subscription addrStr =
      perform addrStr (server.subscription addrStr) (.send (Platform.toString dstAddr) data) := by
  cases hfind : server.connections.find (Platform.toString dstAddr) with
  | none =>
      have hsame : server.sendTo now (some dstAddr) data = server := by
        simp [HktReliableUdpServer.sendTo, hopen, hfind]
      rw [hsame, perform]
      split
      · next hto =>
          subst hto
          simp [HktReliableUdpServer.subscription, hfind]
      · rfl
  | some connection =>
      rw [sendTo_eq hopen hfind, perform]
      split
      · next hto =>
          subst hto
          have hlife : ∀ actions : List (ServerAction Addr),
              (∀ action ∈ actions, action.isBoundary = false) →
              lifeIn (Platform.toString dstAddr) (server.trace ++ actions) =
                lifeIn (Platform.toString dstAddr) server.trace ++ actions :=
            fun actions hactions => lifeIn_append_of_not_isBoundary hactions
          -- the packet is noted once, as the last first transmission
          unfold HktReliableUdpServer.subscription HktReliableUdpServer.published
            HktReliableUdpServer.notes HktReliableUdpServer.life
          rw [hlife _ (by simp [ServerAction.isBoundary]), List.map_append, List.map_cons,
            List.map_singleton, ServerAction.note, ServerAction.note, if_pos rfl, if_pos rfl,
            firstTransmissions_sentData, List.map_append, List.map_singleton]
          simp [hfind, SparseMap.find_add_self, setConnection, ClientConnection.afterSendTo,
            Subscription.receive, ClientConnection.packetData]
      · next hne =>
          refine subscription_of_trace _ rfl (fun action haction => ?_) ?_
          · rcases List.mem_pair.mp haction with rfl | rfl
            · exact ServerAction.publishesNothing_of_key_eq_none rfl addrStr
            · exact ServerAction.publishesNothing_of_key rfl (Ne.symm hne)
          · rw [connections_setConnection, SparseMap.find_add_of_ne _ _ (Ne.symm hne)]

theorem listenSocket_sendTo (server : HktReliableUdpServer Addr) (now : Time)
    (dstAddr : Option Addr) (data : Bytes) :
    (server.sendTo now dstAddr data).listenSocket = server.listenSocket := by
  unfold HktReliableUdpServer.sendTo
  split
  · next hopen =>
      dsimp only
      split
      · rfl
      · simp [hopen]
  · rfl

/-- The loop of `BroadcastToGroup` sends to the members that it includes, once each: the keys of
the members are distinct, and each is what the address prints to. -/
theorem subscription_foldl_sendTo (clock : ℕ → Time) (data : Bytes) (included : Addr → Bool)
    (members : List ((String × Addr) × ℕ)) (hnodup : (members.map fun member => member.1.1).Nodup)
    (haddress : ∀ member ∈ members, Platform.toString member.1.2 = member.1.1)
    (server : HktReliableUdpServer Addr) (hopen : server.listenSocket = true) (addrStr : String) :
    (members.foldl (fun server member =>
        if included member.1.2 then server.sendTo (clock member.2) (some member.1.2) data
        else server) server).subscription addrStr =
      if addrStr ∈ (members.filter fun member => included member.1.2).map fun member => member.1.1
      then (server.subscription addrStr).map fun subscription => subscription.receive data
      else server.subscription addrStr := by
  induction members generalizing server with
  | nil => rfl
  | cons member rest ih =>
      rw [List.map_cons] at hnodup
      obtain ⟨hfresh, hrest⟩ := List.nodup_cons.mp hnodup
      have hlater := fun other (hother : other ∈ rest) =>
        haddress other (List.mem_cons_of_mem _ hother)
      have hmember : Platform.toString member.1.2 = member.1.1 :=
        haddress member (List.mem_cons_self ..)
      rw [List.foldl_cons]
      by_cases hincluded : included member.1.2 = true
      · have hstill : (server.sendTo (clock member.2) (some member.1.2) data).listenSocket = true :=
          (listenSocket_sendTo server _ _ data).trans hopen
        rw [if_pos hincluded, ih hrest hlater _ hstill,
          List.filter_cons_of_pos (by exact hincluded), subscription_sendTo hopen, perform, hmember]
        by_cases hsame : member.1.1 = addrStr
        · -- the other members have other names
          have hnot : addrStr ∉
              (rest.filter fun member => included member.1.2).map fun member => member.1.1 := by
            intro hmem
            obtain ⟨other, hother, hkey⟩ := List.mem_map.mp hmem
            refine hfresh (List.mem_map.mpr ⟨other, List.mem_of_mem_filter hother, ?_⟩)
            exact hkey.trans hsame.symm
          rw [if_neg hnot, if_pos hsame, List.map_cons, if_pos]
          exact List.mem_cons.mpr (Or.inl hsame.symm)
        · simp only [if_neg hsame, List.map_cons, List.mem_cons, Ne.symm hsame, false_or]
      · rw [if_neg hincluded, List.filter_cons_of_neg (by exact hincluded)]
        exact ih hrest hlater server hopen

/-- Who is not registered in a group is not published to. -/
theorem subscription_publish_of_not (groupId : Int32) (data : Bytes) (excluded : Option String)
    (hnot : ¬ ListsGroup server.connections addrStr groupId) :
    perform addrStr (server.subscription addrStr) (.publish groupId data excluded) =
      server.subscription addrStr := by
  rw [perform, HktReliableUdpServer.subscription]
  cases hfind : server.connections.find addrStr with
  | none => rfl
  | some connection =>
      rw [Option.map_some, Option.map_some, if_neg]
      rintro ⟨hlisted, -⟩
      exact hnot ⟨connection, hfind, hlisted⟩

/-- A member is passed over exactly when its own address is the excluded one. -/
theorem not_excluded_iff
    (hendpoints : ∀ first second : Addr,
      Platform.compareEndpoints first second = true ↔
        Platform.toString first = Platform.toString second)
    (excludeAddr : Option Addr) (address : Addr) :
    (excludeAddr.all fun excluded => !Platform.compareEndpoints address excluded) = true ↔
      excludeAddr.map Platform.toString ≠ some (Platform.toString address) := by
  cases excludeAddr with
  | none => simp
  | some excluded =>
      rw [Option.all_some, Bool.not_eq_true', ← Bool.not_eq_true, hendpoints, Option.map_some,
        ne_eq, Option.some.injEq]
      exact not_congr eq_comm

/-- A broadcast on an open socket publishes on the group.  Who is in the member map has the
group in its record, and the endpoint that is excluded is the client of that key. -/
theorem subscription_broadcastToGroup (h : GroupsConsistent server)
    (hopen : server.listenSocket = true)
    (hendpoints : ∀ first second : Addr,
      Platform.compareEndpoints first second = true ↔
        Platform.toString first = Platform.toString second)
    (clock : ℕ → Time) (groupId : Int32) (data : Bytes) (excludeAddr : Option Addr)
    (addrStr : String) :
    (server.broadcastToGroup clock groupId data excludeAddr).subscription addrStr =
      perform addrStr (server.subscription addrStr)
        (.publish groupId data (excludeAddr.map Platform.toString)) := by
  have hmember := h.member_iff groupId addrStr
  unfold HktReliableUdpServer.broadcastToGroup
  cases hfind : server.groups.find groupId with
  | none =>
      refine (subscription_publish_of_not groupId data _ ?_).symm
      rw [← hmember]
      rintro ⟨groupMembers, hgroup, -⟩
      rw [hfind] at hgroup
      simp at hgroup
  | some groupMembers =>
      have hentry : ∀ member ∈ groupMembers.entries.zipIdx,
          groupMembers.find member.1.1 = some member.1.2 :=
        fun member hmem => SparseMap.find_eq_some_iff.mpr (List.fst_mem_of_mem_zipIdx hmem)
      have haddress : ∀ member ∈ groupMembers.entries.zipIdx,
          Platform.toString member.1.2 = member.1.1 := fun member hmem =>
        h.member_address groupId groupMembers _ _ hfind (hentry member hmem)
      refine (subscription_foldl_sendTo clock data
        (fun memberAddr => excludeAddr.all fun address =>
          !Platform.compareEndpoints memberAddr address)
        groupMembers.entries.zipIdx (nodup_keys_zipIdx groupMembers) haddress server hopen
        addrStr).trans ?_
      have hreached := mem_included_iff (fun memberAddr => excludeAddr.all fun address =>
        !Platform.compareEndpoints memberAddr address) groupMembers addrStr
      by_cases hlisted : ListsGroup server.connections addrStr groupId
      · obtain ⟨found, hgroup, hcontains⟩ := hmember.mpr hlisted
        obtain rfl := Option.some.inj (hfind.symm.trans hgroup)
        obtain ⟨address, hstored⟩ := SparseMap.contains_iff.mp hcontains
        obtain ⟨connection, hconnection, hlists⟩ := hlisted
        have hprinted : Platform.toString address = addrStr :=
          h.member_address groupId groupMembers addrStr address hfind hstored
        have hexcluded : addrStr ∈ ((groupMembers.entries.zipIdx.filter fun member =>
              excludeAddr.all fun address =>
                !Platform.compareEndpoints member.1.2 address).map fun member => member.1.1) ↔
            excludeAddr.map Platform.toString ≠ some addrStr := by
          rw [hreached, ← hprinted, ← not_excluded_iff hendpoints]
          constructor
          · rintro ⟨other, hother, hall⟩
            obtain rfl := Option.some.inj (hstored.symm.trans (hprinted ▸ hother))
            exact hall
          · exact fun hall => ⟨address, hprinted ▸ hstored, hall⟩
        rw [perform]
        by_cases hskip : excludeAddr.map Platform.toString = some addrStr
        · rw [if_neg (by simpa [hskip] using hexcluded), HktReliableUdpServer.subscription,
            hconnection, Option.map_some, Option.map_some, if_neg (by simp [hskip])]
        · rw [if_pos (hexcluded.mpr hskip), HktReliableUdpServer.subscription, hconnection,
            Option.map_some, Option.map_some, Option.map_some, if_pos ⟨hlists, hskip⟩]
      · rw [subscription_publish_of_not groupId data _ hlisted, if_neg]
        rw [hreached]
        rintro ⟨address, hstored, -⟩
        refine hlisted (hmember.mp ⟨groupMembers, hfind, ?_⟩)
        exact SparseMap.contains_iff.mpr ⟨address, hstored⟩

/-! ## Received packets -/

/-- What a packet says to the broker. -/
def ReceivedPacket.commands (packet : ReceivedPacket Addr) :
    List (Command String Int32 Bytes) :=
  let clientAddrStr := Platform.toString packet.peerAddress
  if packet.data.length < sizeofPacketHeader then []
  else
    match (PacketHeader.ofBytes packet.data).type with
    | .connect => [.connect clientAddrStr]
    | .disconnect => [.disconnect clientAddrStr]
    | .joinGroup =>
        if packet.data.length - sizeofPacketHeader = sizeofInt32 then
          [.subscribe clientAddrStr (readInt32 packet.data sizeofPacketHeader)]
        else []
    | .leaveGroup =>
        if packet.data.length - sizeofPacketHeader = sizeofInt32 then
          [.unsubscribe clientAddrStr (readInt32 packet.data sizeofPacketHeader)]
        else []
    | _ => []

/-- A stranger is heard only if it wants to connect: for all other packets its commands are
those of a client that is not there. -/
theorem performAll_commands_of_stranger {packet : ReceivedPacket Addr}
    (hstranger : server.connections.find (Platform.toString packet.peerAddress) = none)
    (htype : (PacketHeader.ofBytes packet.data).type ≠ .connect) (addrStr : String) :
    performAll addrStr (server.subscription addrStr) packet.commands =
      server.subscription addrStr := by
  have hnone : server.subscription (Platform.toString packet.peerAddress) = none := by
    rw [HktReliableUdpServer.subscription, hstranger, Option.map_none]
  unfold ReceivedPacket.commands
  dsimp only
  split
  · rfl
  · cases hheader : (PacketHeader.ofBytes packet.data).type with
    | connect => exact absurd hheader htype
    | disconnect =>
        rw [performAll_singleton, perform]
        split
        · next hsame => rw [← hsame, hnone]
        · rfl
    | joinGroup | leaveGroup =>
        dsimp only
        split
        · rw [performAll_singleton, perform]
          split
          · next hsame =>
              rw [← hsame, hnone]
              rfl
          · rfl
        · rfl
    | _ => rfl

theorem subscription_dispatch {packet : ReceivedPacket Addr} {connection : ClientConnection Addr}
    (hfind : server.connections.find (Platform.toString packet.peerAddress) = some connection)
    (hlength : ¬ packet.data.length < sizeofPacketHeader) (addrStr : String) :
    (server.dispatch packet connection).subscription addrStr =
      performAll addrStr (server.subscription addrStr) packet.commands := by
  unfold HktReliableUdpServer.dispatch ReceivedPacket.commands
  dsimp only
  rw [if_neg hlength]
  cases (PacketHeader.ofBytes packet.data).type with
  | data =>
      dsimp only
      rw [subscription_sendAck]
      exact subscription_setConnection hfind (by rfl) addrStr
  | connect =>
      -- a registered client that connects again stays what it is
      dsimp only
      rw [performAll_singleton, perform]
      split
      · next hsame =>
          rw [← hsame, HktReliableUdpServer.subscription, hfind]
          rfl
      · rfl
  | disconnect => exact subscription_disconnectClient _ server addrStr
  | joinGroup =>
      dsimp only
      split
      · exact subscription_joinGroup _ _ server addrStr
      · rfl
  | leaveGroup =>
      dsimp only
      split
      · exact subscription_leaveGroup _ _ server addrStr
      · rfl
  | _ => rfl

theorem subscription_processReceivedPacket (now : Time) (packet : ReceivedPacket Addr)
    (server : HktReliableUdpServer Addr) (addrStr : String) :
    (server.processReceivedPacket now packet).subscription addrStr =
      performAll addrStr (server.subscription addrStr) packet.commands := by
  unfold HktReliableUdpServer.processReceivedPacket
  dsimp only
  by_cases hlength : packet.data.length < sizeofPacketHeader
  · rw [if_pos hlength, ReceivedPacket.commands]
    simp only [if_pos hlength, performAll_nil]
  · rw [if_neg hlength]
    cases hfind : server.connections.find (Platform.toString packet.peerAddress) with
    | none =>
        dsimp only
        by_cases htype : (PacketHeader.ofBytes packet.data).type = .connect
        · rw [if_pos htype, subscription_handleNewConnection, ReceivedPacket.commands]
          simp only [if_neg hlength, htype, performAll_singleton]
        · rw [if_neg htype]
          exact (performAll_commands_of_stranger hfind htype addrStr).symm
    | some connection =>
        dsimp only
        rw [subscription_dispatch (by rw [connections_emit, connections_setConnection,
          SparseMap.find_add_self]) hlength]
        congr 1
        -- the acknowledgements change no groups
        refine subscription_of_trace [.processAck (Platform.toString packet.peerAddress)
          (PacketHeader.ofBytes packet.data)] rfl (fun action haction => ?_) ?_
        · obtain rfl := List.mem_singleton.mp haction
          exact ⟨rfl, by simp⟩
        · rw [connections_emit, connections_setConnection, SparseMap.find_add]
          split
          · next hsame => rw [hsame, hfind]; rfl
          · rfl

theorem subscription_processReceivedPackets (clock : ℕ → Time) (server : HktReliableUdpServer Addr)
    (addrStr : String) :
    (server.processReceivedPackets clock).subscription addrStr =
      performAll addrStr (server.subscription addrStr)
        (server.receivedPackets.flatMap ReceivedPacket.commands) := by
  have hloop : ∀ (packets : List (ReceivedPacket Addr × ℕ)) (current : HktReliableUdpServer Addr),
      (packets.foldl (fun server packet => server.processReceivedPacket (clock packet.2) packet.1)
        current).subscription addrStr =
      performAll addrStr (current.subscription addrStr)
        (packets.flatMap fun packet => packet.1.commands) := by
    intro packets
    induction packets with
    | nil => exact fun _ => rfl
    | cons packet rest ih =>
        intro current
        rw [List.foldl_cons, ih, subscription_processReceivedPacket, List.flatMap_cons,
          performAll_append]
  have hpackets : (server.receivedPackets.zipIdx.flatMap fun packet => packet.1.commands) =
      server.receivedPackets.flatMap ReceivedPacket.commands := by
    calc (server.receivedPackets.zipIdx.flatMap fun packet => packet.1.commands)
        = (server.receivedPackets.zipIdx.map Prod.fst).flatMap ReceivedPacket.commands := by
          rw [List.flatMap_map]
      _ = server.receivedPackets.flatMap ReceivedPacket.commands := by
          rw [List.zipIdx_map_fst]
  rw [HktReliableUdpServer.processReceivedPackets, hloop, hpackets]
  rfl

/-! ## The sweeps -/

theorem subscription_resendAll (currentTime : Time) (server : HktReliableUdpServer Addr)
    (addrStr : String) :
    (server.resendAll currentTime).1.subscription addrStr = server.subscription addrStr := by
  obtain ⟨actions, hresends⟩ := resends_resendAll currentTime server
  refine subscription_of_trace (.checkForResends currentTime :: actions) ?_
    (fun action haction => ?_) ?_
  · rw [hresends.trace, trace_emit, List.append_assoc]
    rfl
  · rcases List.mem_cons.mp haction with rfl | haction
    · exact ServerAction.publishesNothing_of_key_eq_none rfl addrStr
    · have hresend := hresends.isResend action haction
      refine ⟨by simp [bounds, hresend.isBoundary_eq_false], ?_⟩
      rintro sequence sentTime rfl
      exact hresend
  · rw [hresends.find_keys, Option.map_map]
    rfl

theorem subscription_checkForResends (currentTime : Time) (server : HktReliableUdpServer Addr)
    (addrStr : String) :
    (server.checkForResends currentTime).subscription addrStr =
      performAll addrStr (server.subscription addrStr)
        ((server.resendAll currentTime).2.map .disconnect) := by
  rw [← subscription_resendAll currentTime server addrStr]
  exact subscription_foldl_disconnectClient (server.resendAll currentTime).2 _ addrStr

theorem subscription_checkForTimeouts (currentTime : Time) (server : HktReliableUdpServer Addr)
    (addrStr : String) :
    (server.checkForTimeouts currentTime).subscription addrStr =
      performAll addrStr (server.subscription addrStr)
        ((timedOutClients currentTime server).map .disconnect) :=
  subscription_foldl_disconnectClient (timedOutClients currentTime server) server addrStr

/-! ## Events -/

/-- What an event says to the broker: what the packets in the queue say, in order, whom the two
sweeps drop, and the calls, where those that send need an open socket. -/
def HktReliableUdpServer.commands (server : HktReliableUdpServer Addr) :
    ServerEvent Addr → List (Command String Int32 Bytes)
  | .start _ | .stop | .receive _ _ => []
  | .tick clock =>
      let processed := server.processReceivedPackets clock.packet
      server.receivedPackets.flatMap ReceivedPacket.commands ++
        (processed.resendAll clock.resend).2.map .disconnect ++
        (timedOutClients clock.timeout (processed.checkForResends clock.resend)).map .disconnect
  | .sendTo _ dstAddr data =>
      if server.listenSocket then
        dstAddr.toList.map fun address => .send (Platform.toString address) data
      else []
  | .broadcastToGroup _ groupId data excludeAddr =>
      if server.listenSocket then
        [.publish groupId data (excludeAddr.map Platform.toString)]
      else []
  | .joinGroup clientAddr groupId => [.subscribe (Platform.toString clientAddr) groupId]
  | .leaveGroup clientAddr groupId => [.unsubscribe (Platform.toString clientAddr) groupId]

theorem sendTo_of_closed (hclosed : server.listenSocket = false) (now : Time)
    (dstAddr : Option Addr) (data : Bytes) : server.sendTo now dstAddr data = server := by
  unfold HktReliableUdpServer.sendTo
  rw [hclosed]

theorem broadcastToGroup_of_closed (hclosed : server.listenSocket = false) (clock : ℕ → Time)
    (groupId : Int32) (data : Bytes) (excludeAddr : Option Addr) :
    server.broadcastToGroup clock groupId data excludeAddr = server := by
  unfold HktReliableUdpServer.broadcastToGroup
  split
  · rfl
  · next groupMembers _ =>
      generalize groupMembers.entries.zipIdx = members
      induction members with
      | nil => rfl
      | cons member rest ih =>
          rw [List.foldl_cons]
          dsimp only at ih ⊢
          rw [sendTo_of_closed hclosed, ite_self, ih]

/-- Every event does to every client what its commands do.  The commands of a `Tick` are those
of the packets that it works off and of the clients that its sweeps drop. -/
theorem subscription_step (h : GroupsConsistent server)
    (hendpoints : ∀ first second : Addr,
      Platform.compareEndpoints first second = true ↔
        Platform.toString first = Platform.toString second)
    (event : ServerEvent Addr) (addrStr : String) :
    (server.step event).subscription addrStr =
      performAll addrStr (server.subscription addrStr) (server.commands event) := by
  cases event with
  | start bound => rfl
  | stop =>
      simp only [step, stop]
      split <;> rfl
  | receive peerAddress receivedData =>
      simp only [step, receive]
      split <;> rfl
  -- packets that were received, then who exceeds the retries, then who was silent for too long
  | tick clock =>
      rw [step, tick, subscription_checkForTimeouts, subscription_checkForResends,
        subscription_processReceivedPackets, ← performAll_append, ← performAll_append,
        HktReliableUdpServer.commands, List.append_assoc]
  | sendTo now dstAddr data =>
      rw [step, HktReliableUdpServer.commands]
      cases hsocket : server.listenSocket with
      | false =>
          rw [sendTo_of_closed hsocket]
          rfl
      | true =>
          cases dstAddr with
          | none =>
              have hnone : server.sendTo now none data = server := by
                simp [HktReliableUdpServer.sendTo]
              rw [hnone]
              rfl
          | some address => exact subscription_sendTo hsocket now address data addrStr
  | broadcastToGroup clock groupId data excludeAddr =>
      rw [step, HktReliableUdpServer.commands]
      cases hsocket : server.listenSocket with
      | false =>
          rw [broadcastToGroup_of_closed hsocket]
          rfl
      | true =>
          exact subscription_broadcastToGroup h hsocket hendpoints clock groupId data excludeAddr
            addrStr
  | joinGroup clientAddr groupId => exact subscription_joinGroup clientAddr groupId server addrStr
  | leaveGroup clientAddr groupId =>
      exact subscription_leaveGroup clientAddr groupId server addrStr

end Subscription

/-! ## Numbers -/

/-- The packets that a client was sent carry the numbers that its connection has given out. -/
structure PublishesNumbered (addrStr : String) (life : List (ServerAction Addr))
    (_connection : ClientConnection Addr) : Prop where
  numbers : (firstTransmissions (life.map (ServerAction.note addrStr))).map Prod.fst =
    sentSequences addrStr life
  isDataPacket : ∀ sent ∈ firstTransmissions (life.map (ServerAction.note addrStr)),
    IsDataPacket sent.1 sent.2

theorem PublishesNumbered.append {addrStr : String} {life actions : List (ServerAction Addr)}
    {before after : ClientConnection Addr} (h : PublishesNumbered addrStr life before)
    (hactions : ∀ action ∈ actions, ∀ sequence sentTime,
      action ≠ .sentData addrStr sequence sentTime) :
    PublishesNumbered addrStr (life ++ actions) after := by
  have hsent : firstTransmissions ((life ++ actions).map (ServerAction.note addrStr)) =
      firstTransmissions (life.map (ServerAction.note addrStr)) := by
    rw [List.map_append]
    refine firstTransmissions_append_of_ne (fun note hnote => ?_) _
    obtain ⟨action, haction, rfl⟩ := List.mem_map.mp hnote
    exact note_ne_sentData (hactions action haction)
  have hnone : sentSequences addrStr actions = [] := by
    rw [List.eq_nil_iff_forall_not_mem]
    intro s hmem
    obtain ⟨action, haction, now, rfl⟩ := mem_sentSequences.mp hmem
    exact hactions _ haction s now rfl
  have hnumbers : sentSequences addrStr (life ++ actions) = sentSequences addrStr life := by
    rw [sentSequences_append, hnone, List.append_nil]
  constructor
  · rw [hsent, hnumbers]
    exact h.numbers
  · rw [hsent]
    exact h.isDataPacket

theorem PublishesNumbered.step {hears : String → PacketHeader → Prop} {listenSocket : Bool}
    {addrStr : String} {before after : ClientConnection Addr}
    {life actions : List (ServerAction Addr)}
    (hstep : ConnectionStep hears listenSocket addrStr before actions after)
    (h : PublishesNumbered addrStr life before) :
    PublishesNumbered addrStr (life ++ actions) after := by
  cases hstep with
  | processAck now header _ => exact h.append (by simp)
  | updateReceivedState sequence => exact h.append (by simp)
  | sendTo dstAddr now data _ haddress =>
      have hnote : (life ++ [ServerAction.socketSendTo dstAddr (before.packetData data),
          .sentData addrStr (before.sentSequence + 1) now]).map (ServerAction.note addrStr) =
          life.map (ServerAction.note addrStr) ++ [.datagram (before.packetData data),
            .sentData (before.sentSequence + 1) now] := by
        simp [ServerAction.note, haddress]
      constructor
      · rw [hnote, firstTransmissions_sentData, List.map_append, h.numbers, sentSequences_append]
        simp [sentSequences]
      · rw [hnote, firstTransmissions_sentData]
        intro sent hsent
        rcases List.mem_append.mp hsent with hsent | hsent
        · exact h.isDataPacket sent hsent
        · obtain rfl := List.mem_singleton.mp hsent
          exact isDataPacket_packetData before data

theorem connectionInvariant_publishesNumbered {hears : String → PacketHeader → Prop} :
    ConnectionInvariant hears (@PublishesNumbered Addr _) where
  fresh now newAddr := ⟨rfl, by simp [firstTransmissions]⟩
  step hstep h := h.step hstep
  resend hactions _ h := by
    refine h.append fun action haction sequence sentTime => ?_
    rcases List.mem_cons.mp haction with rfl | haction
    · simp
    · rintro rfl
      exact hactions _ haction
  groups _ h := ⟨h.numbers, h.isDataPacket⟩
  irrelevant hirrelevant h := by
    refine h.append fun action haction sequence sentTime => ?_
    obtain rfl := List.mem_singleton.mp haction
    rintro rfl
    exact hirrelevant.1 rfl

/-! ## Runs -/

/-- The numbers of the packets that a registered client has been sent are 1, 2, 3, ... in its
present life, each in the header of the packet that was recorded for it. -/
theorem numbers_published {events : List (ServerEvent Addr)} {addrStr : String}
    {connection : ClientConnection Addr}
    (hfind : (run HktReliableUdpServer.step {} events).connections.find addrStr =
      some connection) :
    ((run HktReliableUdpServer.step {} events).published addrStr).map Prod.fst =
        sequencesUpTo ((run HktReliableUdpServer.step {} events).published addrStr).length ∧
      ∀ sent ∈ (run HktReliableUdpServer.step {} events).published addrStr,
        IsDataPacket sent.1 sent.2 := by
  have hmoves := run_moves step_moves ({} : HktReliableUdpServer Addr) events
  have hnumbered := connectionInvariant_publishesNumbered.moves hmoves addrStr connection hfind
  have htracks := connectionInvariant_tracksAcks.moves hmoves addrStr connection hfind
  refine ⟨?_, hnumbered.isDataPacket⟩
  have hnumbers : ((run HktReliableUdpServer.step {} events).published addrStr).map Prod.fst = _ :=
    hnumbered.numbers
  calc ((run HktReliableUdpServer.step {} events).published addrStr).map Prod.fst
      = sentSequences addrStr ((run HktReliableUdpServer.step {} events).life addrStr) := hnumbers
    _ = sequencesUpTo (sentSequences addrStr
          ((run HktReliableUdpServer.step {} events).life addrStr)).length := htracks.sequences
    _ = _ := by rw [← hnumbers, List.length_map]

/-- **The server is a broker.**  On a platform where endpoints are equal when they print the
same, after any events: a client is registered, is in the groups and has been sent the data
that the commands of the events make of it, whatever has been acknowledged, resent or lost.
The packets that carried the data first are Data packets, numbered from 1 in this order. -/
theorem server_is_broker
    (hendpoints : ∀ first second : Addr,
      Platform.compareEndpoints first second = true ↔
        Platform.toString first = Platform.toString second)
    (events : List (ServerEvent Addr)) (addrStr : String) :
    let server := run HktReliableUdpServer.step {} events
    server.subscription addrStr =
        performAll addrStr none (outputs HktReliableUdpServer.step commands {} events) ∧
      (server.connections.contains addrStr = true →
        (server.published addrStr).map Prod.fst =
            sequencesUpTo (server.published addrStr).length ∧
          ∀ sent ∈ server.published addrStr, IsDataPacket sent.1 sent.2) := by
  intro server
  constructor
  · induction events using List.reverseRecOn with
    | nil => rfl
    | append_singleton before event ih =>
        have hafter : server = (run HktReliableUdpServer.step {} before).step event :=
          run_concat before event
        rw [hafter, subscription_step (groups_consistent before) hendpoints, ih, outputs_concat,
          performAll_append]
  · intro hcontains
    obtain ⟨connection, hfind⟩ := SparseMap.contains_iff.mp hcontains
    exact numbers_published hfind

/-- Two of three clients join a group, and one of them is excluded from a broadcast. -/
def broadcastToOne : List (ServerEvent LoopbackAddr) :=
  twoOfThreeJoin ++ [.broadcastToGroup (fun _ => 0) 5 [7] (some ⟨1⟩)]

theorem server_is_broker_broadcastToOne :
    (run HktReliableUdpServer.step {} broadcastToOne).subscription "127.0.0.1:2" =
        some { topics := {5}, published := [[7]] } ∧
      (run HktReliableUdpServer.step {} broadcastToOne).subscription "127.0.0.1:1" =
        some { topics := {5}, published := [] } := by
  have hcommands : outputs HktReliableUdpServer.step commands {} broadcastToOne =
      [.connect "127.0.0.1:1", .connect "127.0.0.1:2", .connect "127.0.0.1:3",
        .subscribe "127.0.0.1:1" 5, .subscribe "127.0.0.1:2" 5,
        .publish 5 [7] (some "127.0.0.1:1")] := by
    decide +kernel
  have hbroker := fun addrStr =>
    (server_is_broker compareEndpoints_loopback broadcastToOne addrStr).1
  constructor
  · rw [hbroker, hcommands]
    simp [performAll, run, perform, Subscription.receive]
  · rw [hbroker, hcommands]
    simp [performAll, run, perform]

end HktBase.CustomNet
