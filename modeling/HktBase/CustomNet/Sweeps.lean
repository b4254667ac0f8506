import HktBase.CustomNet.Disconnects
import HktBase.CustomNet.Transmissions

/-!
# Whom the sweeps drop

`CheckForResends` and `CheckForTimeouts`, one after the other, as a `Tick` runs them.  Each
of them loops over all connections and disconnects some of them afterwards: the first one
those that have a packet out of retries, the second one those that have been silent.  What
happens to a connection depends on its own record only, so neither the order of the two
maps nor what happens to another client matters: `sweeps_drop_exactly`.

`datagramsTo` reads off a trace what was sent to one address.

`clients_foldl_resendTo` and `trace_foldl_resendTo` follow the loop of `CheckForResends`, which
changes a record that it does not visit again; `mem_resendAll_iff` and
`mem_timedOutClients_iff` say which clients each sweep drops.  `GroupsConsistent.trace_sweeps`
puts the two traces together, and `find_of_staysRegistered` with its converse the two maps.
-/

namespace HktBase.CustomNet

open HktReliableUdpServer Transition

variable {Addr : Type}

/-! ## Datagrams to an address -/

/-- The datagrams that were sent to an address, in order. -/
def datagramsTo [Platform Addr] (addrStr : String) (actions : List (ServerAction Addr)) :
    List Bytes :=
  actions.filterMap fun
    | .socketSendTo destination packetData =>
        if Platform.toString destination = addrStr then some packetData else none
    | _ => none

section

variable [Platform Addr]

theorem datagramsTo_append (addrStr : String) (first second : List (ServerAction Addr)) :
    datagramsTo addrStr (first ++ second) =
      datagramsTo addrStr first ++ datagramsTo addrStr second :=
  List.filterMap_append

theorem datagramsTo_flatMap {α : Type} (addrStr : String) (items : List α)
    (actions : α → List (ServerAction Addr)) :
    datagramsTo addrStr (items.flatMap actions) =
      items.flatMap fun item => datagramsTo addrStr (actions item) := by
  induction items with
  | nil => rfl
  | cons item rest ih => rw [List.flatMap_cons, datagramsTo_append, ih, List.flatMap_cons]

/-- The round of a connection sends the packets of its pass to its own address. -/
theorem datagramsTo_resendActions (addrStr other : String) (connection : ClientConnection Addr)
    (currentTime : Time) :
    datagramsTo addrStr (connection.resendActions true other currentTime) =
      if Platform.toString connection.address = addrStr then
        (resendPending currentTime connection.pendingAckPackets).resent.map Prod.snd
      else [] := by
  unfold ClientConnection.resendActions
  dsimp only
  have hlimit : datagramsTo addrStr (if (resendPending currentTime
      connection.pendingAckPackets).limitExceeded then
        [(.resendLimit other : ServerAction Addr)] else []) = [] := by
    split <;> rfl
  rw [datagramsTo_append, hlimit, List.append_nil, datagramsTo_flatMap]
  simp only [datagramsTo, if_true, List.filterMap_cons, List.filterMap_nil]
  split
  · exact List.map_eq_flatMap.symm
  · exact List.flatMap_eq_nil_iff.mpr fun _ _ => rfl

/-- Rounds over a list of connections send to an address what its own round does: the record of
another key has another address. -/
theorem datagramsTo_rounds {server : HktReliableUdpServer Addr} (h : GroupsConsistent server)
    {addrStr : String} {connection : ClientConnection Addr}
    (hfind : server.connections.find addrStr = some connection) {keys : List String}
    (hnodup : keys.Nodup) (hmem : addrStr ∈ keys) (currentTime : Time) :
    datagramsTo addrStr (keys.flatMap fun other => ((server.connections.find other).map
        fun connection => connection.resendActions true other currentTime).getD []) =
      (resendPending currentTime connection.pendingAckPackets).resent.map Prod.snd := by
  have hother : ∀ other, other ≠ addrStr → datagramsTo addrStr
      (((server.connections.find other).map fun connection =>
        connection.resendActions true other currentTime).getD []) = [] := by
    intro other hne
    cases hfound : server.connections.find other with
    | none => rfl
    | some found =>
        rw [Option.map_some, Option.getD_some, datagramsTo_resendActions, if_neg]
        rwa [h.connection_address other found hfound]
  obtain ⟨earlier, later, rfl⟩ := List.append_of_mem hmem
  obtain ⟨-, hcons, hdisjoint⟩ := List.nodup_append.mp hnodup
  have hearlier : earlier.flatMap (fun other => datagramsTo addrStr
      (((server.connections.find other).map fun connection =>
        connection.resendActions true other currentTime).getD [])) = [] :=
    List.flatMap_eq_nil_iff.mpr fun other hin =>
      hother other (hdisjoint other hin addrStr (List.mem_cons_self ..))
  have hlater : later.flatMap (fun other => datagramsTo addrStr
      (((server.connections.find other).map fun connection =>
        connection.resendActions true other currentTime).getD [])) = [] :=
    List.flatMap_eq_nil_iff.mpr fun other hin =>
      hother other fun hsame => (List.nodup_cons.mp hcons).1 (hsame ▸ hin)
  rw [datagramsTo_flatMap, List.flatMap_append, List.flatMap_cons, hearlier, hlater, hfind,
    Option.map_some, Option.getD_some, datagramsTo_resendActions,
    if_pos (h.connection_address addrStr connection hfind), List.nil_append, List.append_nil]

/-- Disconnecting sends nothing. -/
theorem trace_foldl_disconnectClient (clients : List String) (server : HktReliableUdpServer Addr) :
    ∃ actions, (clients.foldl (fun server addrStr => server.disconnectClient addrStr) server).trace =
        server.trace ++ actions ∧ ∀ addrStr, datagramsTo addrStr actions = [] := by
  induction clients generalizing server with
  | nil => exact ⟨[], (List.append_nil _).symm, fun _ => rfl⟩
  | cons client rest ih =>
      obtain ⟨actions, htrace, hnone⟩ := ih (server.disconnectClient client)
      rw [trace_disconnectClient, List.append_assoc] at htrace
      refine ⟨_, htrace, fun addrStr => ?_⟩
      rw [datagramsTo_append, hnone, List.append_nil]
      split <;> rfl

end

/-! ## The two lists of clients -/

/-- `ClientsToDisconnect` of `CheckForResends`: the keys, in their order, whose record has a
packet out of retries when the loop starts. -/
theorem clients_foldl_resendTo (currentTime : Time) (keys : List String) (hnodup : keys.Nodup)
    (server : HktReliableUdpServer Addr) (clients : List String) :
    (keys.foldl (resendTo currentTime) (server, clients)).2 = clients ++
      keys.filter fun addrStr => (server.connections.find addrStr).any fun connection =>
        (resendPending currentTime connection.pendingAckPackets).limitExceeded := by
  induction keys generalizing server clients with
  | nil => simp
  | cons addrStr rest ih =>
      obtain ⟨hfresh, hrest⟩ := List.nodup_cons.mp hnodup
      rw [List.foldl_cons]
      cases hfind : server.connections.find addrStr with
      | none =>
          rw [resendTo_of_none hfind, ih hrest, List.filter_cons_of_neg (by simp [hfind])]
      | some connection =>
          rw [resendTo_eq hfind, ih hrest, List.append_assoc]
          congr 1
          -- the record that was changed is not visited again
          have hsame : ∀ other ∈ rest, (server.connections.add addrStr
              (connection.afterResend currentTime)).find other = server.connections.find other :=
            fun other hother => SparseMap.find_add_of_ne _ _ fun h => hfresh (h ▸ hother)
          have hkept : rest.filter (fun other => ((server.connections.add addrStr
              (connection.afterResend currentTime)).find other).any fun connection =>
                (resendPending currentTime connection.pendingAckPackets).limitExceeded) =
              rest.filter fun other => (server.connections.find other).any fun connection =>
                (resendPending currentTime connection.pendingAckPackets).limitExceeded :=
            List.filter_congr fun other hother => by rw [hsame other hother]
          simp only [setConnection, hkept]
          by_cases hlimit : (resendPending currentTime
              connection.pendingAckPackets).limitExceeded = true
          · rw [if_pos hlimit, List.filter_cons_of_pos (by simpa [hfind] using hlimit),
              List.singleton_append]
          · rw [if_neg hlimit, List.filter_cons_of_neg (by simpa [hfind] using hlimit),
              List.nil_append]

/-- The clients that `CheckForResends` drops have a packet out of retries. -/
theorem mem_resendAll_iff {currentTime : Time} {server : HktReliableUdpServer Addr}
    {addrStr : String} :
    addrStr ∈ (server.resendAll currentTime).2 ↔
      ∃ connection, server.connections.find addrStr = some connection ∧
        ∃ s packet, connection.pendingAckPackets.find s = some packet ∧
          packet.Exhausted currentTime := by
  unfold resendAll
  rw [clients_foldl_resendTo currentTime _ server.connections.nodup_keys, List.nil_append,
    List.mem_filter, SparseMap.mem_keys, connections_emit]
  constructor
  · rintro ⟨⟨connection, hfind⟩, hlimit⟩
    rw [hfind, Option.any_some] at hlimit
    exact ⟨connection, hfind, (limitExceeded_resendPending_iff _ _).mp hlimit⟩
  · rintro ⟨connection, hfind, hexhausted⟩
    refine ⟨⟨connection, hfind⟩, ?_⟩
    rw [hfind, Option.any_some]
    exact (limitExceeded_resendPending_iff _ _).mpr hexhausted

/-- `TimedOutClients` of `CheckForTimeouts`. -/
def timedOutClients (currentTime : Time) (server : HktReliableUdpServer Addr) : List String :=
  (server.connections.entries.filter fun elem =>
    currentTime - elem.2.lastReceiveTime > clientTimeoutDuration).map Prod.fst

theorem mem_timedOutClients_iff {currentTime : Time} {server : HktReliableUdpServer Addr}
    {addrStr : String} :
    addrStr ∈ timedOutClients currentTime server ↔
      ∃ connection, server.connections.find addrStr = some connection ∧
        currentTime - connection.lastReceiveTime > clientTimeoutDuration := by
  unfold timedOutClients
  simp only [List.mem_map, List.mem_filter, decide_eq_true_eq]
  constructor
  · rintro ⟨⟨key, connection⟩, ⟨hentry, hsilent⟩, rfl⟩
    exact ⟨connection, SparseMap.find_eq_some_iff.mpr hentry, hsilent⟩
  · rintro ⟨connection, hfind, hsilent⟩
    exact ⟨(addrStr, connection), ⟨SparseMap.find_eq_some_iff.mp hfind, hsilent⟩, rfl⟩

/-! ## Both sweeps -/

/-- Both sweeps leave the connection in place. -/
def StaysRegistered (resendTime timeoutTime : Time) (connection : ClientConnection Addr) : Prop :=
  (¬ ∃ s packet, connection.pendingAckPackets.find s = some packet ∧
      packet.Exhausted resendTime) ∧
    timeoutTime - connection.lastReceiveTime ≤ clientTimeoutDuration

/-- A connection that went through a pass of `CheckForResends`: every overdue packet has its
clock set and its retries counted, and nothing else is changed. -/
structure Resent (currentTime : Time) (before after : ClientConnection Addr) : Prop where
  same : after = { before with pendingAckPackets := after.pendingAckPackets }
  find : ∀ s, after.pendingAckPackets.find s =
    (before.pendingAckPackets.find s).map fun packet => packet.afterPass currentTime

/-- The overdue packets of a connection, in the order of the map. -/
def overduePackets (currentTime : Time) (connection : ClientConnection Addr) : List Bytes :=
  (connection.pendingAckPackets.entries.filter fun entry =>
    entry.2.Overdue currentTime).map fun entry => entry.2.packetData

section

variable {server : HktReliableUdpServer Addr}

theorem resent_afterResend {currentTime : Time} {connection : ClientConnection Addr}
    (h : ¬ ∃ s packet, connection.pendingAckPackets.find s = some packet ∧
      packet.Exhausted currentTime) :
    Resent currentTime connection (connection.afterResend currentTime) := by
  rw [← limitExceeded_resendPending_iff, Bool.not_eq_true] at h
  exact ⟨rfl, find_resendPending_of_not_limitExceeded _ _ h⟩

variable [Platform Addr]

theorem GroupsConsistent.find_checkForResends (h : GroupsConsistent server) (currentTime : Time)
    (addrStr : String) :
    (server.checkForResends currentTime).connections.find addrStr =
      if addrStr ∈ (server.resendAll currentTime).2 then none
      else (server.connections.find addrStr).map fun connection =>
        connection.afterResend currentTime := by
  obtain ⟨actions, hresends⟩ := resends_resendAll currentTime server
  rw [← hresends.find_keys]
  exact ((h.resend currentTime).erasesAll (server.resendAll currentTime).2).1.connections addrStr

theorem GroupsConsistent.checkForResends (h : GroupsConsistent server) (currentTime : Time) :
    GroupsConsistent (server.checkForResends currentTime) :=
  ((h.resend currentTime).erasesAll (server.resendAll currentTime).2).2

theorem GroupsConsistent.find_checkForTimeouts (h : GroupsConsistent server) (currentTime : Time)
    (addrStr : String) :
    (server.checkForTimeouts currentTime).connections.find addrStr =
      if addrStr ∈ timedOutClients currentTime server then none
      else server.connections.find addrStr :=
  (h.erasesAll (timedOutClients currentTime server)).1.connections addrStr

theorem GroupsConsistent.checkForTimeouts (h : GroupsConsistent server) (currentTime : Time) :
    GroupsConsistent (server.checkForTimeouts currentTime) :=
  (h.erasesAll (timedOutClients currentTime server)).2

/-- The record of a connection that neither sweep drops. -/
theorem GroupsConsistent.find_of_staysRegistered (h : GroupsConsistent server)
    {resendTime timeoutTime : Time} {addrStr : String} {connection : ClientConnection Addr}
    (hfind : server.connections.find addrStr = some connection)
    (hstays : StaysRegistered resendTime timeoutTime connection) :
    ((server.checkForResends resendTime).checkForTimeouts timeoutTime).connections.find addrStr =
      some (connection.afterResend resendTime) := by
  obtain ⟨hretries, hheard⟩ := hstays
  have hkept : addrStr ∉ (server.resendAll resendTime).2 := by
    rw [mem_resendAll_iff]
    intro ⟨found, hfound, hexhausted⟩
    obtain rfl := Option.some.inj (hfind.symm.trans hfound)
    exact hretries hexhausted
  have hresent : (server.checkForResends resendTime).connections.find addrStr =
      some (connection.afterResend resendTime) := by
    rw [h.find_checkForResends, if_neg hkept, hfind, Option.map_some]
  rw [(h.checkForResends resendTime).find_checkForTimeouts, if_neg, hresent]
  rw [mem_timedOutClients_iff]
  intro ⟨found, hfound, hsilent⟩
  obtain rfl := Option.some.inj (hresent.symm.trans hfound)
  exact not_lt.mpr hheard hsilent

/-- Any other connection is dropped by one of the sweeps.  The second looks at the record that
the first leaves, which has the time of the last packet that the first one found. -/
theorem GroupsConsistent.find_of_not_staysRegistered (h : GroupsConsistent server)
    {resendTime timeoutTime : Time} {addrStr : String} {connection : ClientConnection Addr}
    (hfind : server.connections.find addrStr = some connection)
    (hdropped : ¬ StaysRegistered resendTime timeoutTime connection) :
    ((server.checkForResends resendTime).checkForTimeouts timeoutTime).connections.find addrStr =
      none := by
  rw [(h.checkForResends resendTime).find_checkForTimeouts]
  by_cases hexhausted : addrStr ∈ (server.resendAll resendTime).2
  · rw [h.find_checkForResends, if_pos hexhausted, ite_self]
  · have hresent : (server.checkForResends resendTime).connections.find addrStr =
        some (connection.afterResend resendTime) := by
      rw [h.find_checkForResends, if_neg hexhausted, hfind, Option.map_some]
    rw [if_pos]
    rw [mem_timedOutClients_iff]
    refine ⟨_, hresent, ?_⟩
    by_contra hheard
    apply hdropped
    -- a record that the resends keep is dropped for its silence, or not at all
    refine ⟨fun hpacket => hexhausted ?_, not_lt.mp hheard⟩
    exact mem_resendAll_iff.mpr ⟨connection, hfind, hpacket⟩

/-- What the two sweeps send is what the passes over the pending packets send: the drops behind
either sweep are reports, and send nothing. -/
theorem GroupsConsistent.trace_sweeps (h : GroupsConsistent server)
    (hopen : server.listenSocket = true) (resendTime timeoutTime : Time) :
    ∃ actions, ((server.checkForResends resendTime).checkForTimeouts timeoutTime).trace =
        server.trace ++ actions ∧
      ∀ addrStr connection, server.connections.find addrStr = some connection →
        datagramsTo addrStr actions =
          (resendPending resendTime connection.pendingAckPackets).resent.map Prod.snd := by
  have hloop := trace_foldl_resendTo resendTime server.connections.keys
    server.connections.nodup_keys (server.emit (.checkForResends resendTime)) []
  obtain ⟨resendDrops, hfirst, hfirstNone⟩ := trace_foldl_disconnectClient
    (server.resendAll resendTime).2 (server.resendAll resendTime).1
  obtain ⟨timeoutDrops, hsecond, hsecondNone⟩ := trace_foldl_disconnectClient
    (timedOutClients timeoutTime (server.checkForResends resendTime))
    (server.checkForResends resendTime)
  have htrace : ((server.checkForResends resendTime).checkForTimeouts timeoutTime).trace =
      (((server.trace ++ [.checkForResends resendTime]) ++ _) ++ resendDrops) ++ timeoutDrops :=
    hsecond.trans (congrArg (· ++ timeoutDrops)
      (hfirst.trans (congrArg (· ++ resendDrops) hloop)))
  simp only [List.append_assoc] at htrace
  refine ⟨_, htrace, fun addrStr connection hfind => ?_⟩
  rw [datagramsTo_append, datagramsTo_append, datagramsTo_append, hfirstNone, hsecondNone,
    List.append_nil, List.append_nil]
  simp only [connections_emit, listenSocket_emit, hopen]
  exact datagramsTo_rounds h hfind server.connections.nodup_keys
    (SparseMap.mem_keys.mpr ⟨connection, hfind⟩) resendTime

/-- **The sweeps drop exactly the right clients.**  In every reachable state of the server
with an open socket, `CheckForResends` and then `CheckForTimeouts` keep a connection exactly
when it has no packet out of retries and was heard within the timeout.  A connection that
stays keeps its keys and packets, has each overdue packet sent once, and no other one, with
its clock set and its retries counted, and is otherwise unchanged.  A dropped client is in no
group, and no client comes back. -/
theorem sweeps_drop_exactly (events : List (ServerEvent Addr)) (resendTime timeoutTime : Time)
    (hopen : (run HktReliableUdpServer.step {} events).listenSocket = true) :
    let server := run HktReliableUdpServer.step {} events
    let next := (server.checkForResends resendTime).checkForTimeouts timeoutTime
    ∃ actions, next.trace = server.trace ++ actions ∧
      (∀ addrStr connection, server.connections.find addrStr = some connection →
        ((next.connections.find addrStr).isSome ↔
          StaysRegistered resendTime timeoutTime connection) ∧
        ∀ after, next.connections.find addrStr = some after →
          Resent resendTime connection after ∧
            datagramsTo addrStr actions = overduePackets resendTime connection) ∧
      ∀ addrStr, (server.connections.find addrStr = none →
          next.connections.find addrStr = none) ∧
        (next.connections.find addrStr = none → ∀ groupId, ¬ IsMember next.groups groupId addrStr) := by
  intro server next
  have h : GroupsConsistent server := groups_consistent events
  have hnext : GroupsConsistent next := (h.checkForResends resendTime).checkForTimeouts timeoutTime
  obtain ⟨actions, htrace, hsent⟩ := h.trace_sweeps hopen resendTime timeoutTime
  refine ⟨actions, htrace, fun addrStr connection hfind => ?_, fun addrStr => ⟨fun hnone => ?_,
    fun hnone groupId hmember => ?_⟩⟩
  · by_cases hstays : StaysRegistered resendTime timeoutTime connection
    · have hafter : next.connections.find addrStr = some (connection.afterResend resendTime) :=
        h.find_of_staysRegistered hfind hstays
      refine ⟨by simp [hafter, hstays], fun after hfound => ?_⟩
      obtain rfl := Option.some.inj (hafter.symm.trans hfound)
      refine ⟨resent_afterResend hstays.1, ?_⟩
      -- the pass goes through all pending packets, since none of them is out of retries
      have hlimit : (resendPending resendTime connection.pendingAckPackets).limitExceeded =
          false := by
        rw [← Bool.not_eq_true, limitExceeded_resendPending_iff]
        exact hstays.1
      rw [hsent addrStr connection hfind, resent_resendPending_of_not_limitExceeded _ _ hlimit,
        List.map_map]
      rfl
    · have hnone : next.connections.find addrStr = none :=
        h.find_of_not_staysRegistered hfind hstays
      refine ⟨by simp [hnone, hstays], fun after hfound => ?_⟩
      rw [hnone] at hfound
      simp at hfound
  · have hresent : (server.checkForResends resendTime).connections.find addrStr = none := by
      rw [h.find_checkForResends, hnone, Option.map_none, ite_self]
    rw [(h.checkForResends resendTime).find_checkForTimeouts, hresent, ite_self]
  · obtain ⟨connection, hfound, -⟩ := (hnext.member_iff groupId addrStr).mp hmember
    rw [hnone] at hfound
    simp at hfound

end

/-- Two clients connect, and one of them is heard again and sent a packet. -/
def oneClientSilent : List (ServerEvent LoopbackAddr) :=
  [.start true,
    .receive ⟨1⟩ (PacketHeader.toBytes { type := .connect }),
    .receive ⟨2⟩ (PacketHeader.toBytes { type := .connect }),
    .tick ⟨fun _ => 0, 0, 0⟩,
    .receive ⟨1⟩ (PacketHeader.toBytes { type := .ack }),
    .tick ⟨fun _ => 4, 4, 4⟩,
    .sendTo 4 (some ⟨1⟩) [7]]

theorem sweeps_drop_exactly_oneClientSilent :
    let server := run HktReliableUdpServer.step {} oneClientSilent
    let next := (server.checkForResends 6).checkForTimeouts 6
    (next.connections.find "127.0.0.1:2").isSome = false ∧
      ∃ actions, next.trace = server.trace ++ actions ∧
        datagramsTo "127.0.0.1:1" actions =
          [PacketHeader.toBytes { type := .data, sequence := 1 } ++ [7]] := by
  intro server next
  have hsome : (server.connections.find "127.0.0.1:1").isSome := by decide +kernel
  have hpacket : (server.connections.find "127.0.0.1:1").map (overduePackets 6) =
      some [PacketHeader.toBytes { type := .data, sequence := 1 } ++ [7]] := by
    decide +kernel
  obtain ⟨connection, hfind⟩ := Option.isSome_iff_exists.mp hsome
  have hstays : (next.connections.find "127.0.0.1:1").isSome := by decide +kernel
  obtain ⟨after, hafter⟩ := Option.isSome_iff_exists.mp hstays
  obtain ⟨actions, htrace, hkept, -⟩ := sweeps_drop_exactly oneClientSilent 6 6 (by decide +kernel)
  refine ⟨by decide +kernel, actions, htrace, ?_⟩
  rw [((hkept "127.0.0.1:1" connection hfind).2 after hafter).2]
  rw [hfind] at hpacket
  exact Option.some.inj hpacket

end HktBase.CustomNet
