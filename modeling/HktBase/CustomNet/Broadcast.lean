import HktBase.CustomNet.Sweeps

/-!
# Whom a broadcast reaches

`BroadcastToGroup` loops over the members of a group and calls `SendTo` for each of them,
which looks the connection up by its address.  Since the two indexes of membership agree,
every member is registered, and the loop sends one packet for each connection that lists
the group: `Broadcasts` collects what the loop does.

The new packet has a key of its own among the pending packets as long as the numbers of the
connection have not come round.

`broadcasts_foldl` follows the loop over the members, each of which is registered and is
reached once; `GroupsConsistent.broadcasts` reads it for the group, and
`numbers_afterSendTo` says what one `SendTo` does to a record that has numbers left.
-/

namespace HktBase.CustomNet

open HktReliableUdpServer Transition

variable {Addr : Type} [Platform Addr]

/-! ## The loop -/

/-- `SendTo` on an open socket, for an address that is registered. -/
theorem sendTo_eq {server : HktReliableUdpServer Addr} {dstAddr : Addr}
    {connection : ClientConnection Addr} (hopen : server.listenSocket = true)
    (hfind : server.connections.find (Platform.toString dstAddr) = some connection) (now : Time)
    (data : Bytes) :
    server.sendTo now (some dstAddr) data =
      { server.setConnection (Platform.toString dstAddr) (connection.afterSendTo now data) with
        trace := server.trace ++
          [.socketSendTo dstAddr (connection.packetData data),
            .sentData (Platform.toString dstAddr) (connection.sentSequence + 1) now] } := by
  simp [HktReliableUdpServer.sendTo, hopen, hfind, emit, socketSendTo, setConnection,
    ClientConnection.packetData, ClientConnection.afterSendTo]

theorem datagramsTo_sendTo (addrStr : String) (dstAddr : Addr) (packetData : Bytes)
    (sequence : UInt32) (now : Time) :
    datagramsTo addrStr [.socketSendTo dstAddr packetData,
        .sentData (Platform.toString dstAddr) sequence now] =
      if Platform.toString dstAddr = addrStr then [packetData] else [] := by
  unfold datagramsTo
  split <;> simp_all

/-- Each of the recipients is sent one packet, which is numbered and kept in its record, and
nobody else is sent anything. -/
structure Broadcasts (data : Bytes) (recipients : List String) (before : HktReliableUdpServer Addr)
    (actions : List (ServerAction Addr)) (after : HktReliableUdpServer Addr) : Prop where
  trace : after.trace = before.trace ++ actions
  groups : after.groups = before.groups
  reached : ∀ addrStr ∈ recipients, ∃ connection now,
    before.connections.find addrStr = some connection ∧
      datagramsTo addrStr actions = [connection.packetData data] ∧
      after.connections.find addrStr = some (connection.afterSendTo now data)
  untouched : ∀ addrStr, addrStr ∉ recipients →
    datagramsTo addrStr actions = [] ∧
      after.connections.find addrStr = before.connections.find addrStr

theorem broadcasts_nil (data : Bytes) (server : HktReliableUdpServer Addr) :
    Broadcasts data [] server [] server where
  trace := (List.append_nil _).symm
  groups := rfl
  reached := by simp
  untouched := fun _ _ => ⟨rfl, rfl⟩

/-- One recipient before others. -/
theorem Broadcasts.cons {data : Bytes} {recipients : List String}
    {server next : HktReliableUdpServer Addr} {actions : List (ServerAction Addr)} {dstAddr : Addr}
    {connection : ClientConnection Addr} {now : Time} (hopen : server.listenSocket = true)
    (hfresh : Platform.toString dstAddr ∉ recipients)
    (hfind : server.connections.find (Platform.toString dstAddr) = some connection)
    (h : Broadcasts data recipients (server.sendTo now (some dstAddr) data) actions next) :
    ∃ sent, Broadcasts data (Platform.toString dstAddr :: recipients) server (sent ++ actions)
      next := by
  have hother : ∀ addrStr, addrStr ≠ Platform.toString dstAddr →
      (server.sendTo now (some dstAddr) data).connections.find addrStr =
        server.connections.find addrStr := by
    intro addrStr hne
    rw [sendTo_eq hopen hfind]
    exact SparseMap.find_add_of_ne _ _ hne
  refine ⟨[.socketSendTo dstAddr (connection.packetData data),
    .sentData (Platform.toString dstAddr) (connection.sentSequence + 1) now], ?_, ?_, ?_, ?_⟩
  · rw [h.trace, sendTo_eq hopen hfind, List.append_assoc]
  · rw [h.groups, sendTo_eq hopen hfind]
    rfl
  · intro addrStr hmem
    rcases List.mem_cons.mp hmem with rfl | hmem
    · obtain ⟨hnone, hkept⟩ := h.untouched _ hfresh
      refine ⟨connection, now, hfind, ?_, ?_⟩
      · rw [datagramsTo_append, datagramsTo_sendTo, if_pos rfl, hnone, List.append_nil]
      · rw [hkept, sendTo_eq hopen hfind]
        exact SparseMap.find_add_self _ _ _
    · have hne : addrStr ≠ Platform.toString dstAddr := fun hsame => hfresh (hsame ▸ hmem)
      obtain ⟨found, time, hfound, hsent, hafter⟩ := h.reached addrStr hmem
      rw [hother addrStr hne] at hfound
      refine ⟨found, time, hfound, ?_, hafter⟩
      rw [datagramsTo_append, datagramsTo_sendTo, if_neg (Ne.symm hne), List.nil_append, hsent]
  · intro addrStr hmem
    obtain ⟨hne, hrest⟩ := List.ne_and_not_mem_of_not_mem_cons hmem
    obtain ⟨hnone, hkept⟩ := h.untouched addrStr hrest
    constructor
    · rw [datagramsTo_append, datagramsTo_sendTo, if_neg (Ne.symm hne), hnone, List.nil_append]
    · rw [hkept, hother addrStr hne]

/-- The loop over the members of a group. -/
theorem broadcasts_foldl (clock : ℕ → Time) (data : Bytes) (included : Addr → Bool)
    (members : List ((String × Addr) × ℕ)) (hnodup : (members.map fun member => member.1.1).Nodup)
    (haddress : ∀ member ∈ members, Platform.toString member.1.2 = member.1.1)
    (server : HktReliableUdpServer Addr) (hopen : server.listenSocket = true)
    (hregistered : ∀ member ∈ members, server.connections.contains member.1.1 = true) :
    ∃ actions, Broadcasts data
      ((members.filter fun member => included member.1.2).map fun member => member.1.1)
      server actions
      (members.foldl (fun server member =>
        if included member.1.2 then server.sendTo (clock member.2) (some member.1.2) data
        else server) server) := by
  induction members generalizing server with
  | nil => exact ⟨[], broadcasts_nil data server⟩
  | cons member rest ih =>
      rw [List.map_cons] at hnodup
      obtain ⟨hfresh, hrest⟩ := List.nodup_cons.mp hnodup
      have hlater := fun other (hother : other ∈ rest) =>
        haddress other (List.mem_cons_of_mem _ hother)
      rw [List.foldl_cons]
      by_cases hincluded : included member.1.2 = true
      · have hmember : Platform.toString member.1.2 = member.1.1 :=
          haddress member (List.mem_cons_self ..)
        obtain ⟨connection, hfind⟩ := SparseMap.contains_iff.mp
          (hregistered member (List.mem_cons_self ..))
        rw [← hmember] at hfind hfresh
        -- the other members are registered as before
        have hothers : ∀ other ∈ rest, (server.sendTo (clock member.2) (some member.1.2)
            data).connections.contains other.1.1 = true := by
          intro other hother
          rw [sendTo_eq hopen hfind]
          refine SparseMap.contains_add.mpr (Or.inr ?_)
          exact hregistered other (List.mem_cons_of_mem _ hother)
        have hstill : (server.sendTo (clock member.2) (some member.1.2) data).listenSocket =
            true := by
          rw [sendTo_eq hopen hfind]
          exact hopen
        obtain ⟨actions, hloop⟩ := ih hrest hlater _ hstill hothers
        rw [if_pos hincluded, List.filter_cons_of_pos (by exact hincluded), List.map_cons,
          ← hmember]
        -- no member is reached twice: the keys of a member map are distinct
        have hnew : Platform.toString member.1.2 ∉
            (rest.filter fun member => included member.1.2).map fun member => member.1.1 := by
          intro hmem
          obtain ⟨other, hother, hsame⟩ := List.mem_map.mp hmem
          exact hfresh (List.mem_map.mpr ⟨other, List.mem_of_mem_filter hother, hsame⟩)
        obtain ⟨sent, hboth⟩ := hloop.cons hopen hnew hfind
        exact ⟨_, hboth⟩
      · rw [if_neg hincluded, List.filter_cons_of_neg (by exact hincluded)]
        exact ih hrest hlater server hopen fun other hother =>
          hregistered other (List.mem_cons_of_mem _ hother)

/-! ## The recipients -/

/-- The connection lists the group and is not the excluded endpoint. -/
def Receives (groupId : Int32) (excludeAddr : Option Addr) (connection : ClientConnection Addr) :
    Prop :=
  connection.groupIds.contains groupId = true ∧
    ∀ address ∈ excludeAddr, Platform.compareEndpoints connection.address address = false

/-- The record has numbered a packet with this data and keeps it under the new number, with
its own state of acknowledgement in the header, and is otherwise as before. -/
structure Numbers (data : Bytes) (before after : ClientConnection Addr) : Prop where
  sentSequence : after.sentSequence.toNat = before.sentSequence.toNat + 1
  fresh : before.pendingAckPackets.find after.sentSequence = none
  find : ∃ now, ∀ s, after.pendingAckPackets.find s =
    if s = after.sentSequence then some { packetData := before.packetData data, sentTime := now }
    else before.pendingAckPackets.find s
  same : after =
    { before with
      sentSequence := after.sentSequence, pendingAckPackets := after.pendingAckPackets }

omit [Platform Addr] in
/-- A number that has not been given out is not pending.  Below 2^32 - 1 sends the next number
is one more than the last and fresh, so that the record gains an entry and loses none. -/
theorem numbers_afterSendTo {connection : ClientConnection Addr} {log : List Note}
    (hsteps : SenderSteps {} (connection.sender log))
    (hcount : (sentNumbers log).length < 2 ^ 32 - 1) (now : Time) (data : Bytes) :
    Numbers data connection (connection.afterSendTo now data) := by
  have htracks : SenderTracks (connection.sender log) :=
    SenderTracks.of_steps hsteps (Nat.lt_of_lt_pred hcount)
  have hsequence : connection.sentSequence = UInt32.ofNat (sentNumbers log).length :=
    htracks.sentSequence_eq
  have hnumber : connection.sentSequence + 1 = UInt32.ofNat ((sentNumbers log).length + 1) := by
    rw [hsequence, UInt32.ofNat_add]
    rfl
  have hfresh : connection.sentSequence + 1 ∉ sentNumbers log := by
    have hnumbers : sentNumbers log = sequencesUpTo (sentNumbers log).length := htracks.numbers
    have hnodup : (sequencesUpTo ((sentNumbers log).length + 1)).Nodup :=
      nodup_sequencesUpTo (by omega)
    rw [sequencesUpTo_succ, ← hnumbers, ← hnumber] at hnodup
    exact fun hmem => List.disjoint_of_nodup_append hnodup hmem (List.mem_singleton_self _)
  refine ⟨?_, ?_, ⟨now, fun s => SparseMap.find_add _ _ _ _⟩, rfl⟩
  · change (connection.sentSequence + 1).toNat = connection.sentSequence.toNat + 1
    have hsize : UInt32.size = 2 ^ 32 := rfl
    rw [hnumber, hsequence, UInt32.toNat_ofNat_of_lt' (by omega),
      UInt32.toNat_ofNat_of_lt' (by omega)]
  · by_contra hsome
    obtain ⟨packet, hpacket⟩ := Option.ne_none_iff_exists'.mp hsome
    refine hfresh ((htracks.tracks _).numbered (Or.inr ?_))
    exact Option.isSome_iff_exists.mpr ⟨packet, hpacket⟩

omit [Platform Addr] in
/-- The keys of the members that the loop calls `SendTo` for. -/
theorem mem_included_iff (included : Addr → Bool) (groupMembers : TMap String Addr)
    (addrStr : String) :
    addrStr ∈ ((groupMembers.entries.zipIdx.filter fun member => included member.1.2).map
        fun member => member.1.1) ↔
      ∃ address, groupMembers.find addrStr = some address ∧ included address = true := by
  simp only [List.mem_map, List.mem_filter]
  constructor
  · rintro ⟨member, ⟨hmem, hincluded⟩, hkey⟩
    have hentry : (addrStr, member.1.2) ∈ groupMembers.entries :=
      hkey ▸ List.fst_mem_of_mem_zipIdx hmem
    exact ⟨member.1.2, SparseMap.find_eq_some_iff.mpr hentry, hincluded⟩
  · rintro ⟨address, hstored, hincluded⟩
    obtain ⟨i, hi⟩ := List.mem_iff_getElem?.mp (SparseMap.find_eq_some_iff.mp hstored)
    exact ⟨((addrStr, address), i), ⟨List.mem_zipIdx_iff_getElem?.mpr hi, hincluded⟩, rfl⟩

omit [Platform Addr] in
theorem nodup_keys_zipIdx (groupMembers : TMap String Addr) :
    (groupMembers.entries.zipIdx.map fun member => member.1.1).Nodup := by
  have hkeys : (groupMembers.entries.zipIdx.map fun member => member.1.1) =
      (groupMembers.entries.zipIdx.map Prod.fst).map Prod.fst := by
    rw [List.map_map]
    rfl
  rw [hkeys, List.zipIdx_map_fst]
  exact groupMembers.nodup_keys

/-- The addresses that are equal endpoints print the same, and so compare the same. -/
theorem compareEndpoints_congr
    (hendpoints : ∀ first second : Addr,
      Platform.compareEndpoints first second = true ↔
        Platform.toString first = Platform.toString second)
    {first second : Addr} (hprinted : Platform.toString first = Platform.toString second)
    (address : Addr) :
    Platform.compareEndpoints first address = Platform.compareEndpoints second address := by
  rw [Bool.eq_iff_iff, hendpoints, hendpoints, hprinted]

/-- The loop reaches the connections that list the group.  Members and connections agree in
every reachable state, and what a member map stores under an address prints to it, so that the
test for the excluded endpoint can be made on either side. -/
theorem GroupsConsistent.broadcasts {server : HktReliableUdpServer Addr}
    (h : GroupsConsistent server) (hopen : server.listenSocket = true)
    (hendpoints : ∀ first second : Addr,
      Platform.compareEndpoints first second = true ↔
        Platform.toString first = Platform.toString second)
    (clock : ℕ → Time) (groupId : Int32) (data : Bytes) (excludeAddr : Option Addr) :
    ∃ recipients actions, Broadcasts data recipients server actions
        (server.broadcastToGroup clock groupId data excludeAddr) ∧
      ∀ addrStr, addrStr ∈ recipients ↔ ∃ connection,
        server.connections.find addrStr = some connection ∧
          Receives groupId excludeAddr connection := by
  have hmember := h.member_iff groupId
  unfold HktReliableUdpServer.broadcastToGroup
  cases hfind : server.groups.find groupId with
  | none =>
      refine ⟨[], [], broadcasts_nil data server, fun addrStr => ?_⟩
      simp only [List.not_mem_nil, false_iff]
      rintro ⟨connection, hconnection, hlisted, _⟩
      obtain ⟨groupMembers, hgroup, -⟩ := (hmember addrStr).mpr ⟨connection, hconnection, hlisted⟩
      rw [hfind] at hgroup
      simp at hgroup
  | some groupMembers =>
      have hstored : ∀ addrStr address, groupMembers.find addrStr = some address →
          Platform.toString address = addrStr ∧ ListsGroup server.connections addrStr groupId := by
        intro addrStr address haddress
        refine ⟨h.member_address groupId groupMembers addrStr address hfind haddress, ?_⟩
        rw [← hmember]
        exact ⟨groupMembers, hfind, SparseMap.contains_iff.mpr ⟨address, haddress⟩⟩
      have hentry : ∀ member ∈ groupMembers.entries.zipIdx,
          groupMembers.find member.1.1 = some member.1.2 :=
        fun member hmem => SparseMap.find_eq_some_iff.mpr (List.fst_mem_of_mem_zipIdx hmem)
      have hregistered : ∀ member ∈ groupMembers.entries.zipIdx,
          server.connections.contains member.1.1 = true := by
        intro member hmem
        obtain ⟨connection, hconnection, -⟩ := (hstored _ _ (hentry member hmem)).2
        exact SparseMap.contains_iff.mpr ⟨connection, hconnection⟩
      obtain ⟨actions, hloop⟩ := broadcasts_foldl clock data
        (fun memberAddr => excludeAddr.all fun address =>
          !Platform.compareEndpoints memberAddr address)
        groupMembers.entries.zipIdx (nodup_keys_zipIdx groupMembers)
        (fun member hmem => (hstored _ _ (hentry member hmem)).1) server hopen hregistered
      refine ⟨_, actions, hloop, fun addrStr => ?_⟩
      refine (mem_included_iff (fun memberAddr => excludeAddr.all fun address =>
        !Platform.compareEndpoints memberAddr address) groupMembers addrStr).trans ?_
      simp only [Option.all_eq_true, Bool.not_eq_true']
      constructor
      -- the loop compares the address in the member map, the statement that in the record
      · rintro ⟨address, haddress, hincluded⟩
        obtain ⟨hprinted, connection, hconnection, hlisted⟩ := hstored addrStr address haddress
        refine ⟨connection, hconnection, hlisted, fun excluded hexcluded => ?_⟩
        have hsame := hprinted.trans (h.connection_address addrStr connection hconnection).symm
        rw [← compareEndpoints_congr hendpoints hsame]
        exact hincluded excluded hexcluded
      · rintro ⟨connection, hconnection, hlisted, hincluded⟩
        obtain ⟨found, hgroup, hcontains⟩ :=
          (hmember addrStr).mpr ⟨connection, hconnection, hlisted⟩
        obtain rfl := Option.some.inj (hfind.symm.trans hgroup)
        obtain ⟨address, haddress⟩ := SparseMap.contains_iff.mp hcontains
        refine ⟨address, haddress, fun excluded hexcluded => ?_⟩
        have hsame := (h.connection_address addrStr connection hconnection).trans
          (hstored addrStr address haddress).1.symm
        rw [← compareEndpoints_congr hendpoints hsame]
        exact hincluded excluded hexcluded

/-- **Broadcast reaches exactly the group.**  In every reachable state of the server with an
open socket, in which no connection has made 2^32 - 1 sends or more, and on a platform where
endpoints are equal when they print the same: a broadcast sends one datagram with the data
to each connection that lists the group and is not the excluded endpoint, which numbers it
and keeps it in its record, and nothing to anyone else; every other record and the groups
are as before. -/
theorem broadcast_reaches_group (events : List (ServerEvent Addr)) (clock : ℕ → Time)
    (groupId : Int32) (data : Bytes) (excludeAddr : Option Addr)
    (hopen : (run HktReliableUdpServer.step {} events).listenSocket = true)
    (hsends : ∀ addrStr,
      (run HktReliableUdpServer.step {} events).connections.contains addrStr = true →
        (sentNumbers ((run HktReliableUdpServer.step {} events).notes addrStr)).length <
          2 ^ 32 - 1)
    (hendpoints : ∀ first second : Addr,
      Platform.compareEndpoints first second = true ↔
        Platform.toString first = Platform.toString second) :
    let server := run HktReliableUdpServer.step {} events
    let next := server.broadcastToGroup clock groupId data excludeAddr
    ∃ actions, next.trace = server.trace ++ actions ∧ next.groups = server.groups ∧
      ∀ addrStr,
        (∀ connection, server.connections.find addrStr = some connection →
          Receives groupId excludeAddr connection →
            datagramsTo addrStr actions = [connection.packetData data] ∧
              ∃ after, next.connections.find addrStr = some after ∧
                Numbers data connection after) ∧
        ((∀ connection, server.connections.find addrStr = some connection →
            ¬ Receives groupId excludeAddr connection) →
          datagramsTo addrStr actions = [] ∧
            next.connections.find addrStr = server.connections.find addrStr) := by
  intro server next
  have h : GroupsConsistent server := groups_consistent events
  have hsenders : RunsAsSender server := runsAsSender_of_moves (run_moves step_moves {} events)
  obtain ⟨recipients, actions, hloop, hmem⟩ :=
    h.broadcasts hopen hendpoints clock groupId data excludeAddr
  refine ⟨actions, hloop.trace, hloop.groups, fun addrStr => ⟨?_, ?_⟩⟩
  · intro connection hfind hreceives
    obtain ⟨found, now, hfound, hsent, hafter⟩ :=
      hloop.reached addrStr ((hmem addrStr).mpr ⟨connection, hfind, hreceives⟩)
    obtain rfl := Option.some.inj (hfind.symm.trans hfound)
    refine ⟨hsent, _, hafter, numbers_afterSendTo (hsenders addrStr connection hfind) ?_ now data⟩
    exact hsends addrStr (SparseMap.contains_iff.mpr ⟨connection, hfind⟩)
  · intro hnone
    apply hloop.untouched
    intro hin
    obtain ⟨connection, hfind, hreceives⟩ := (hmem addrStr).mp hin
    exact hnone connection hfind hreceives

/-- Ports print differently. -/
theorem compareEndpoints_loopback (first second : LoopbackAddr) :
    Platform.compareEndpoints first second = true ↔
      Platform.toString first = Platform.toString second := by
  obtain ⟨port⟩ := first
  obtain ⟨other⟩ := second
  constructor
  · intro hsame
    rw [eq_of_beq hsame]
  · intro hprinted
    have hdigits : Nat.toDigits 10 port.toNat = Nat.toDigits 10 other.toNat := by
      have hport : ToString.toString port = ToString.toString other :=
        (String.append_right_inj _).mp hprinted
      rw [← Nat.toList_repr, ← Nat.toList_repr]
      exact congrArg String.toList hport
    have hnumber : port.toNat = other.toNat := by
      have hread := congrArg (Nat.ofDigitChars 10 · 0) hdigits
      simpa only [Nat.ofDigitChars_ten_toDigits] using hread
    obtain rfl := UInt16.toNat_inj.mp hnumber
    exact beq_self_eq_true _

/-- Three clients connect, and two of them join a group. -/
def twoOfThreeJoin : List (ServerEvent LoopbackAddr) :=
  [.start true,
    .receive ⟨1⟩ (PacketHeader.toBytes { type := .connect }),
    .receive ⟨2⟩ (PacketHeader.toBytes { type := .connect }),
    .receive ⟨3⟩ (PacketHeader.toBytes { type := .connect }),
    .tick ⟨fun _ => 0, 0, 0⟩,
    .joinGroup ⟨1⟩ 5,
    .joinGroup ⟨2⟩ 5]

theorem broadcast_reaches_group_twoOfThree :
    let server := run HktReliableUdpServer.step {} twoOfThreeJoin
    let next := server.broadcastToGroup (fun _ => 0) 5 [7] (some ⟨1⟩)
    ∃ actions, next.trace = server.trace ++ actions ∧
      datagramsTo "127.0.0.1:2" actions =
        [PacketHeader.toBytes { type := .data, sequence := 1 } ++ [7]] := by
  intro server next
  have hsends : ∀ addrStr ∈ server.connections.keys,
      (sentNumbers (server.notes addrStr)).length < 2 ^ 32 - 1 := by
    decide +kernel
  have hmember : (server.connections.find "127.0.0.1:2").map (fun connection =>
      (connection.groupIds.contains 5, connection.address, connection.packetData [7])) =
      some (true, ⟨2⟩, PacketHeader.toBytes { type := .data, sequence := 1 } ++ [7]) := by
    decide +kernel
  obtain ⟨connection, hfind, hrecord⟩ := Option.map_eq_some_iff.mp hmember
  obtain ⟨hlisted, haddress, hpacket⟩ : connection.groupIds.contains 5 = true ∧
      connection.address = ⟨2⟩ ∧ connection.packetData [7] = _ := by
    simpa only [Prod.mk.injEq] using hrecord
  obtain ⟨actions, htrace, -, hreached⟩ := broadcast_reaches_group twoOfThreeJoin (fun _ => 0) 5 [7]
    (some ⟨1⟩) (by decide +kernel)
    (fun addrStr hcontains => hsends addrStr (SparseMap.mem_keys.mpr
      (SparseMap.contains_iff.mp hcontains))) compareEndpoints_loopback
  refine ⟨actions, htrace, ?_⟩
  rw [← hpacket]
  refine ((hreached "127.0.0.1:2").1 connection hfind ⟨hlisted, fun address hexcluded => ?_⟩).1
  obtain rfl := Option.some.inj hexcluded
  rw [haddress]
  rfl

end HktBase.CustomNet
