import HktBase.CustomNet.Received
import HktBase.CustomNet.Sweeps
import HktBase.CustomNet.Window

/-!
# What the server says

Every datagram of the server goes to a registered client, and what is in it is determined by the
life of that client's connection.  Its header carries the window that the numbers of the client's
Data packets have made of a fresh one, this time since the client was registered.  An Ack answers
a Connect packet of a stranger or a Data packet, at once; everything else is a Data packet, new
with the next number of the connection, or a copy of one that was sent in the same life.

`Says` lists these datagrams, and `SaysOnly` is the invariant: it relates the members of each
record that a datagram is made from to the life of the connection.
-/

namespace HktBase.CustomNet

open Transition HktReliableUdpServer

variable {Addr : Type}

/-! ## Datagrams -/

/-- The number of a Data packet from the client. -/
def ServerAction.dataSequence (addrStr : String) : ServerAction Addr → Option UInt32
  | .processAck other header =>
      if other = addrStr ∧ header.type = .data then some header.sequence else none
  | _ => none

/-- The receive window that the life of a connection leaves. -/
def windowIn (undefinedShift : UInt32 → UInt32) (addrStr : String)
    (life : List (ServerAction Addr)) : ReceiveWindow :=
  ReceiveWindow.feed undefinedShift {} (life.filterMap (ServerAction.dataSequence addrStr))

/-- The header of a packet to the client, with the window that the life leaves. -/
def headerIn (undefinedShift : UInt32 → UInt32) (addrStr : String)
    (life : List (ServerAction Addr)) (type : PacketType) (sequence : UInt32) : PacketHeader :=
  { type := type
    sequence := sequence
    lastAckedSequence := (windowIn undefinedShift addrStr life).receivedSequence
    ackBitfield := (windowIn undefinedShift addrStr life).receivedAckBitfield }

/-- The client was registered and has not been dropped since. -/
def RegisteredAfter (addrStr : String) (trace : List (ServerAction Addr)) : Prop :=
  Outstanding (fun action => action = .newConnection addrStr)
    (fun action => action = .disconnected addrStr) trace

/-- The last thing that happened calls for an Ack. -/
inductive CallsForAck (addrStr : String) (before : List (ServerAction Addr)) : Prop
  | connect {earlier : List (ServerAction Addr)} : before = earlier ++ [.newConnection addrStr] →
      CallsForAck addrStr before
  | data {earlier : List (ServerAction Addr)} {header : PacketHeader} : header.type = .data →
      before = earlier ++ [.processAck addrStr header] → CallsForAck addrStr before

variable [Platform Addr]

/-- The datagrams that the server may send to a client after a trace. -/
inductive Says (addrStr : String) (before : List (ServerAction Addr)) : Bytes → Prop
  | ack : CallsForAck addrStr before → Says addrStr before
      (headerIn (Platform.undefinedShift Addr) addrStr (lifeIn addrStr before) .ack 0).toBytes
  | data (data : Bytes) : Says addrStr before
      ((headerIn (Platform.undefinedShift Addr) addrStr (lifeIn addrStr before) .data
        (UInt32.ofNat ((sentSequences addrStr (lifeIn addrStr before)).length + 1))).toBytes ++ data)
  | again {destination : Addr} {packetData : Bytes} {s : UInt32} :
      Platform.toString destination = addrStr →
      .socketSendTo destination packetData ∈ lifeIn addrStr before → IsDataPacket s packetData →
      Says addrStr before packetData

/-- Every datagram of a trace goes to a client that is registered then, and may be sent to it. -/
def SaysThroughout (trace : List (ServerAction Addr)) : Prop :=
  Historically (fun before action => ∀ destination packetData,
    action = .socketSendTo destination packetData →
      RegisteredAfter (Platform.toString destination) before ∧
        Says (Platform.toString destination) before packetData) trace

/-- The members of a record that datagrams are made from are those that the trace leaves. -/
structure Recorded (addrStr : String) (trace : List (ServerAction Addr))
    (connection : ClientConnection Addr) : Prop where
  address : Platform.toString connection.address = addrStr
  registered : RegisteredAfter addrStr trace
  window : connection.toReceiveWindow =
    windowIn (Platform.undefinedShift Addr) addrStr (lifeIn addrStr trace)
  sentSequence : connection.sentSequence =
    UInt32.ofNat (sentSequences addrStr (lifeIn addrStr trace)).length
  pending : ∀ s packet, connection.pendingAckPackets.find s = some packet →
    (∃ destination, Platform.toString destination = addrStr ∧
      .socketSendTo destination packet.packetData ∈ lifeIn addrStr trace) ∧
        IsDataPacket s packet.packetData

/-- What the server has said is what it may say, and the records are those that it goes by. -/
structure SaysOnly (server : HktReliableUdpServer Addr) : Prop where
  datagrams : SaysThroughout server.trace
  record : ∀ addrStr connection, server.connections.find addrStr = some connection →
    Recorded addrStr server.trace connection

theorem saysOnly_init : SaysOnly ({} : HktReliableUdpServer Addr) where
  datagrams := historically_nil _
  record := by simp

/-! ## Actions that leave a record's datagrams as they are -/

section Neutral

omit [Platform Addr]

/-- The action changes nothing of a connection that datagrams are made from. -/
structure Neutral (addrStr : String) (action : ServerAction Addr) : Prop where
  bounds : bounds addrStr action = false
  dataSequence : action.dataSequence addrStr = none
  sentData : ∀ s now, action ≠ .sentData addrStr s now

variable {addrStr : String} {action : ServerAction Addr}

/-- What happens on another connection, or on none. -/
theorem neutral_of_key (hkey : action.key ≠ some addrStr) : Neutral addrStr action where
  bounds := by simp [CustomNet.bounds, hkey]
  dataSequence := by
    cases action with
    | processAck other header =>
        rw [ServerAction.dataSequence, if_neg]
        rintro ⟨rfl, -⟩
        exact hkey rfl
    | _ => rfl
  sentData := by
    rintro s now rfl
    exact hkey rfl

theorem neutral_of_ne {other : String} (hkey : action.key = some addrStr) (hne : other ≠ addrStr) :
    Neutral other action := by
  refine neutral_of_key fun hsame => hne ?_
  exact Option.some.inj (hsame.symm.trans hkey)

theorem neutral_of_isResend (h : action.IsResend) (addrStr : String) :
    Neutral addrStr action where
  bounds := by simp [CustomNet.bounds, h.isBoundary_eq_false]
  dataSequence := by
    cases action with
    | processAck other header => exact h.elim
    | _ => rfl
  sentData := by
    rintro s now rfl
    exact h

theorem neutral_processAck {other : String} {header : PacketHeader} (htype : header.type ≠ .data) :
    Neutral addrStr (.processAck other header : ServerAction Addr) where
  bounds := rfl
  dataSequence := if_neg fun h => htype h.2
  sentData := by simp

namespace Neutral

theorem registeredAfter (h : Neutral addrStr action) {trace : List (ServerAction Addr)}
    (hregistered : RegisteredAfter addrStr trace) :
    RegisteredAfter addrStr (trace ++ [action]) := by
  refine outstanding_concat.mpr (Or.inr ⟨hregistered, ?_⟩)
  rintro rfl
  simpa [CustomNet.bounds, ServerAction.isBoundary, ServerAction.key] using h.bounds

theorem lifeIn_eq (h : Neutral addrStr action) (trace : List (ServerAction Addr)) :
    lifeIn addrStr (trace ++ [action]) = lifeIn addrStr trace ++ [action] :=
  sinceLast_concat_of_not h.bounds trace

theorem windowIn_eq (h : Neutral addrStr action) (undefinedShift : UInt32 → UInt32)
    (trace : List (ServerAction Addr)) :
    windowIn undefinedShift addrStr (lifeIn addrStr (trace ++ [action])) =
      windowIn undefinedShift addrStr (lifeIn addrStr trace) := by
  rw [h.lifeIn_eq, windowIn, List.filterMap_append, List.filterMap_cons_none h.dataSequence,
    List.filterMap_nil, List.append_nil]
  rfl

theorem sentSequences_eq (h : Neutral addrStr action) (trace : List (ServerAction Addr)) :
    sentSequences addrStr (lifeIn addrStr (trace ++ [action])) =
      sentSequences addrStr (lifeIn addrStr trace) := by
  have hnone : sentSequences addrStr [action] = [] := by
    refine List.eq_nil_iff_forall_not_mem.mpr fun s hs => ?_
    obtain ⟨other, hother, now, hsent⟩ := mem_sentSequences.mp hs
    obtain rfl := List.mem_singleton.mp hother
    exact h.sentData s now hsent
  rw [h.lifeIn_eq, sentSequences_append, hnone, List.append_nil]

end Neutral

end Neutral

/-! ## Records -/

omit [Platform Addr] in
/-- A record is written in members only that no datagram is made from, or loses packets. -/
structure Keeps (before after : ClientConnection Addr) : Prop where
  address : after.address = before.address
  window : after.toReceiveWindow = before.toReceiveWindow
  sentSequence : after.sentSequence = before.sentSequence
  pending : ∀ s packet, after.pendingAckPackets.find s = some packet →
    ∃ original, before.pendingAckPackets.find s = some original ∧
      packet.packetData = original.packetData

omit [Platform Addr] in
theorem Keeps.refl (connection : ClientConnection Addr) : Keeps connection connection :=
  ⟨rfl, rfl, rfl, fun _ packet hfind => ⟨packet, hfind, rfl⟩⟩

omit [Platform Addr] in
theorem keeps_afterAck (connection : ClientConnection Addr) (now : Time) (header : PacketHeader) :
    Keeps connection (connection.afterAck now header) := by
  refine ⟨rfl, rfl, rfl, fun s packet hfind => ⟨packet, ?_, rfl⟩⟩
  have hkept : (CustomNet.processAck header connection.pendingAckPackets).find s = some packet :=
    hfind
  rw [find_processAck] at hkept
  split at hkept
  · simp at hkept
  · exact hkept

omit [Platform Addr] in
theorem keeps_afterResend (connection : ClientConnection Addr) (currentTime : Time) :
    Keeps connection (connection.afterResend currentTime) := by
  refine ⟨rfl, rfl, rfl, fun s packet hfind => ?_⟩
  obtain ⟨original, horiginal, hdata⟩ := packetData_of_find_resendPending _ _ hfind
  exact ⟨original, horiginal, hdata.symm⟩

namespace Recorded

variable {addrStr : String} {trace : List (ServerAction Addr)}
  {before after : ClientConnection Addr}

theorem keeps (h : Recorded addrStr trace before) (hkeeps : Keeps before after) :
    Recorded addrStr trace after := by
  refine ⟨hkeeps.address ▸ h.address, h.registered, hkeeps.window ▸ h.window,
    hkeeps.sentSequence ▸ h.sentSequence, fun s packet hfind => ?_⟩
  obtain ⟨original, horiginal, hdata⟩ := hkeeps.pending s packet hfind
  rw [hdata]
  exact h.pending s original horiginal

theorem neutral (h : Recorded addrStr trace before) {action : ServerAction Addr}
    (hneutral : Neutral addrStr action) : Recorded addrStr (trace ++ [action]) before := by
  refine ⟨h.address, hneutral.registeredAfter h.registered, ?_, ?_, fun s packet hfind => ?_⟩
  · rw [hneutral.windowIn_eq]
    exact h.window
  · rw [hneutral.sentSequences_eq]
    exact h.sentSequence
  · obtain ⟨⟨destination, hdestination, hmem⟩, hdatagram⟩ := h.pending s packet hfind
    refine ⟨⟨destination, hdestination, ?_⟩, hdatagram⟩
    rw [hneutral.lifeIn_eq]
    exact List.mem_append_left _ hmem

theorem header (h : Recorded addrStr trace before) (type : PacketType) (sequence : UInt32) :
    ({ type := type
       sequence := sequence
       lastAckedSequence := before.receivedSequence
       ackBitfield := before.receivedAckBitfield } : PacketHeader) =
      headerIn (Platform.undefinedShift Addr) addrStr (lifeIn addrStr trace) type sequence := by
  rw [headerIn, ← h.window]

/-- A client that is registered anew. -/
theorem accept (now : Time) {newAddr : Addr} (haddress : Platform.toString newAddr = addrStr) :
    Recorded addrStr (trace ++ [.newConnection addrStr])
      { address := newAddr, lastReceiveTime := now } := by
  have hlife : lifeIn addrStr (trace ++ [.newConnection addrStr]) = [] :=
    lifeIn_concat_of_bounds (by simp [bounds, ServerAction.isBoundary, ServerAction.key])
  refine ⟨haddress, outstanding_concat.mpr (Or.inl rfl), ?_, ?_, by simp⟩
  · rw [hlife]
    rfl
  · rw [hlife]
    rfl

/-- A Data packet moves the window: by the same function that the history is read with, so that
the record and the history agree behind it. -/
theorem data (h : Recorded addrStr trace before) (now : Time) {header : PacketHeader}
    (htype : header.type = .data) :
    Recorded addrStr (trace ++ [.processAck addrStr header]) (before.afterData now header) := by
  have hlife : lifeIn addrStr (trace ++ [.processAck addrStr header]) =
      lifeIn addrStr trace ++ [.processAck addrStr header] :=
    lifeIn_append_of_not_isBoundary (by simp [ServerAction.isBoundary])
  have hacked := h.keeps (keeps_afterAck before now header)
  refine ⟨hacked.address, ?_, ?_, ?_, fun s packet hfind => ?_⟩
  · exact outstanding_concat.mpr (Or.inr ⟨h.registered, by simp⟩)
  · have hsequence : (ServerAction.processAck addrStr header : ServerAction Addr).dataSequence
        addrStr = some header.sequence := if_pos ⟨rfl, htype⟩
    rw [hlife, windowIn, List.filterMap_append, List.filterMap_cons_some hsequence,
      List.filterMap_nil, ReceiveWindow.feed_concat]
    exact congrArg (fun window => ReceiveWindow.updateReceivedState _ window header.sequence)
      h.window
  · have hnone : sentSequences addrStr [(.processAck addrStr header : ServerAction Addr)] = [] :=
      rfl
    rw [hlife, sentSequences_append, hnone, List.append_nil]
    exact h.sentSequence
  · obtain ⟨⟨destination, hdestination, hmem⟩, hdatagram⟩ := hacked.pending s packet hfind
    refine ⟨⟨destination, hdestination, ?_⟩, hdatagram⟩
    rw [hlife]
    exact List.mem_append_left _ hmem

/-- A packet is numbered and stored once it was sent: what comes to be pending is what has just
gone to the address, with the number after the last. -/
theorem sentData (h : Recorded addrStr trace before) (now : Time) {dstAddr : Addr}
    (hdst : Platform.toString dstAddr = addrStr) (data : Bytes) :
    Recorded addrStr (trace ++ [.socketSendTo dstAddr (before.packetData data)] ++
        [.sentData addrStr (before.sentSequence + 1) now]) (before.afterSendTo now data) := by
  have hsend : Neutral addrStr
      (.socketSendTo dstAddr (before.packetData data) : ServerAction Addr) :=
    neutral_of_key (by simp [ServerAction.key])
  have hsaid := h.neutral hsend
  have hlife : lifeIn addrStr (trace ++ [.socketSendTo dstAddr (before.packetData data)] ++
        [.sentData addrStr (before.sentSequence + 1) now]) =
      lifeIn addrStr (trace ++ [.socketSendTo dstAddr (before.packetData data)]) ++
        [.sentData addrStr (before.sentSequence + 1) now] :=
    lifeIn_append_of_not_isBoundary (by simp [ServerAction.isBoundary])
  refine ⟨h.address, ?_, ?_, ?_, fun s packet hfind => ?_⟩
  · exact outstanding_concat.mpr (Or.inr ⟨hsaid.registered, by simp⟩)
  · rw [hlife, windowIn, List.filterMap_append, List.filterMap_cons_none rfl, List.filterMap_nil,
      List.append_nil]
    exact hsaid.window
  · have hnumbered : sentSequences addrStr
        [(.sentData addrStr (before.sentSequence + 1) now : ServerAction Addr)] =
          [before.sentSequence + 1] := by simp [sentSequences]
    rw [hlife, sentSequences_append, hnumbered, List.length_append, UInt32.ofNat_add]
    exact congrArg (· + 1) hsaid.sentSequence
  · rw [hlife]
    rw [ClientConnection.afterSendTo, SparseMap.find_add] at hfind
    split at hfind
    · next hsame =>
        obtain rfl := Option.some.inj hfind
        subst hsame
        refine ⟨⟨dstAddr, hdst, ?_⟩, isDataPacket_packetData before data⟩
        rw [hsend.lifeIn_eq]
        simp
    · obtain ⟨⟨destination, hdestination, hmem⟩, hdatagram⟩ := hsaid.pending s packet hfind
      exact ⟨⟨destination, hdestination, List.mem_append_left _ hmem⟩, hdatagram⟩

end Recorded

/-! ## Functions -/

namespace SaysOnly

variable {server next : HktReliableUdpServer Addr}

theorem keeps (h : SaysOnly server) (htrace : next.trace = server.trace)
    (hrecords : ∀ addrStr after, next.connections.find addrStr = some after →
      ∃ before, server.connections.find addrStr = some before ∧ Keeps before after) :
    SaysOnly next := by
  refine ⟨htrace ▸ h.datagrams, fun addrStr after hfind => ?_⟩
  obtain ⟨before, hbefore, hkeeps⟩ := hrecords addrStr after hfind
  rw [htrace]
  exact (h.record addrStr before hbefore).keeps hkeeps

theorem congr (h : SaysOnly server) (htrace : next.trace = server.trace)
    (hconnections : next.connections = server.connections) : SaysOnly next := by
  refine h.keeps htrace fun addrStr after hfind => ?_
  rw [hconnections] at hfind
  exact ⟨after, hfind, .refl after⟩

theorem act (h : SaysOnly server) {action : ServerAction Addr}
    (hallowed : ∀ destination packetData, action = .socketSendTo destination packetData →
      RegisteredAfter (Platform.toString destination) server.trace ∧
        Says (Platform.toString destination) server.trace packetData)
    (hneutral : ∀ addrStr, Neutral addrStr action) : SaysOnly (server.emit action) := by
  refine ⟨historically_concat.mpr ⟨h.datagrams, hallowed⟩, fun addrStr connection hfind => ?_⟩
  exact (h.record addrStr connection hfind).neutral (hneutral addrStr)

/-- One record is written or removed, with an action on that connection that is no datagram: the
other records keep their history, since the action is neutral for them. -/
theorem change (h : SaysOnly server) {addrStr : String} {action : ServerAction Addr}
    {record : Option (ClientConnection Addr)}
    (hquiet : ∀ destination packetData, action ≠ .socketSendTo destination packetData)
    (hother : ∀ other, other ≠ addrStr → Neutral other action)
    (htrace : next.trace = server.trace ++ [action])
    (hconnections : ∀ other, next.connections.find other =
      if other = addrStr then record else server.connections.find other)
    (hrecord : ∀ after, record = some after → Recorded addrStr (server.trace ++ [action]) after) :
    SaysOnly next := by
  constructor
  · rw [htrace]
    exact historically_concat.mpr ⟨h.datagrams, fun destination packetData hsend =>
      absurd hsend (hquiet destination packetData)⟩
  · intro other connection hfind
    rw [hconnections] at hfind
    rw [htrace]
    split at hfind
    · next hsame =>
        subst hsame
        exact hrecord connection hfind
    · next hne => exact (h.record other connection hfind).neutral (hother other hne)

/-- A datagram to a registered client, on an open socket or not. -/
theorem say (h : SaysOnly server) {destination : Addr} {packetData : Bytes}
    (hregistered : RegisteredAfter (Platform.toString destination) server.trace)
    (hallowed : Says (Platform.toString destination) server.trace packetData) :
    SaysOnly (server.socketSendTo destination packetData) := by
  refine h.act (fun other data hsend => ?_) fun addrStr => neutral_of_key ?_
  · split at hsend
    · obtain ⟨rfl, rfl⟩ : destination = other ∧ packetData = data := by simpa using hsend
      exact ⟨hregistered, hallowed⟩
    · simp at hsend
  · split <;> simp [ServerAction.key]

theorem sendAck (h : SaysOnly server) {addrStr : String} {connection : ClientConnection Addr}
    (hfind : server.connections.find addrStr = some connection)
    (hcalls : CallsForAck addrStr server.trace) : SaysOnly (server.sendAck connection) := by
  have hrecord := h.record addrStr connection hfind
  have haddress := hrecord.address
  subst haddress
  refine h.say hrecord.registered ?_
  rw [hrecord.header]
  exact .ack hcalls

theorem handleNewConnection (h : SaysOnly server) (now : Time) (newAddr : Addr) :
    SaysOnly (server.handleNewConnection now newAddr) := by
  unfold HktReliableUdpServer.handleNewConnection
  dsimp only
  split
  · exact h
  · have hregistered : SaysOnly ((server.setConnection (Platform.toString newAddr)
        { address := newAddr, lastReceiveTime := now }).emit
          (.newConnection (Platform.toString newAddr))) := by
      refine h.change (by simp) (fun other hne => neutral_of_ne rfl hne) rfl
        (fun other => SparseMap.find_add _ _ other _) ?_
      rintro _ ⟨⟩
      exact .accept now rfl
    exact hregistered.sendAck (SparseMap.find_add_self _ _ _) (.connect rfl)

theorem disconnectClient (h : SaysOnly server) (addrStr : String) :
    SaysOnly (server.disconnectClient addrStr) := by
  have htrace := trace_disconnectClient addrStr server
  split at htrace
  · exact h.change (by simp) (fun other hne => neutral_of_ne rfl hne) htrace
      (fun other => find_connections_disconnectClient addrStr other server) (by simp)
  · refine h.keeps (htrace.trans (List.append_nil _)) fun other after hafter => ?_
    rw [find_connections_disconnectClient] at hafter
    split at hafter
    · simp at hafter
    · exact ⟨after, hafter, .refl after⟩

theorem changesGroups (h : SaysOnly server) {changed : String}
    (hchanges : ChangesGroups changed server next) : SaysOnly next := by
  refine h.keeps hchanges.trace fun addrStr after hafter => ?_
  obtain ⟨before, groupIds, hbefore, rfl⟩ := hchanges.find_connections hafter
  exact ⟨before, hbefore, ⟨rfl, rfl, rfl, fun _ packet hfind => ⟨packet, hfind, rfl⟩⟩⟩

theorem heard (h : SaysOnly server) {peerAddress : Addr} {connection : ClientConnection Addr}
    (hfind : server.connections.find (Platform.toString peerAddress) = some connection)
    {header : PacketHeader} (htype : header.type ≠ .data) (now : Time) :
    SaysOnly (server.heard now peerAddress header connection) := by
  refine h.change (by simp) (fun other _ => neutral_processAck htype) rfl
    (fun other => SparseMap.find_add _ _ other _) ?_
  rintro _ ⟨⟩
  exact ((h.record _ connection hfind).keeps (keeps_afterAck connection now header)).neutral
    (neutral_processAck htype)

/-- A Data packet from a registered client, and the Ack for it.  The Ack is sent after the
window has moved, and carries the new one. -/
theorem heardData (h : SaysOnly server) {peerAddress : Addr} {connection : ClientConnection Addr}
    (hfind : server.connections.find (Platform.toString peerAddress) = some connection)
    {header : PacketHeader} (htype : header.type = .data) (now : Time) :
    SaysOnly (((server.heard now peerAddress header connection).setConnection
      (Platform.toString peerAddress) (connection.afterData now header)).sendAck
        (connection.afterData now header)) := by
  have hconnections : ∀ other, ((server.heard now peerAddress header connection).setConnection
      (Platform.toString peerAddress) (connection.afterData now header)).connections.find other =
        if other = Platform.toString peerAddress then some (connection.afterData now header)
        else server.connections.find other := by
    intro other
    rw [connections_setConnection, SparseMap.find_add]
    split
    · rfl
    · next hne => exact SparseMap.find_add_of_ne _ _ hne
  -- between the two writes of the record the window is behind the trace, and nothing is sent
  have hmoved : SaysOnly ((server.heard now peerAddress header connection).setConnection
      (Platform.toString peerAddress) (connection.afterData now header)) := by
    refine h.change (by simp) (fun other hne => neutral_of_ne rfl hne) rfl hconnections ?_
    rintro _ ⟨⟩
    exact (h.record _ connection hfind).data now htype
  exact hmoved.sendAck (SparseMap.find_add_self _ _ _) (.data htype rfl)

theorem processReceivedPacket (h : SaysOnly server) (now : Time) (packet : ReceivedPacket Addr) :
    SaysOnly (server.processReceivedPacket now packet) := by
  obtain ⟨peerAddress, packetData⟩ := packet
  by_cases hlength : sizeofPacketHeader ≤ packetData.length
  · cases hfind : server.connections.find (Platform.toString peerAddress) with
    | none =>
        simp only [HktReliableUdpServer.processReceivedPacket, if_neg (not_lt.mpr hlength), hfind]
        split
        · exact h.handleNewConnection now peerAddress
        · exact h
    | some connection =>
        rw [processReceivedPacket_of_some hlength now hfind]
        by_cases htype : (PacketHeader.ofBytes packetData).type = .data
        · simp only [dispatch, htype]
          exact h.heardData hfind htype now
        · have hheard := h.heard hfind htype now
          rcases dispatch_cases ⟨peerAddress, packetData⟩
              (connection.afterAck now (PacketHeader.ofBytes packetData))
              (server.heard now peerAddress (PacketHeader.ofBytes packetData) connection) with
            ⟨hdata, -⟩ | ⟨-, hdisconnect⟩ | ⟨-, -, hchanges⟩
          · exact absurd hdata htype
          · rw [hdisconnect]
            exact hheard.disconnectClient _
          · exact hheard.changesGroups hchanges
  · simp only [HktReliableUdpServer.processReceivedPacket, if_pos (not_le.mp hlength)]
    exact h

theorem sendTo (h : SaysOnly server) (now : Time) (dstAddr : Option Addr) (data : Bytes) :
    SaysOnly (server.sendTo now dstAddr data) := by
  unfold HktReliableUdpServer.sendTo
  split
  · next address hsocket =>
      dsimp only
      split
      · exact h
      · next connection hfind =>
          have hrecord := h.record _ connection hfind
          -- the datagram carries the next number
          have hsaid : SaysOnly (server.emit
              (.socketSendTo address (connection.packetData data))) := by
            refine h.act ?_ fun addrStr => neutral_of_key (by simp [ServerAction.key])
            rintro _ _ ⟨⟩
            refine ⟨hrecord.registered, ?_⟩
            have hnumber : connection.sentSequence + 1 = UInt32.ofNat ((sentSequences
                (Platform.toString address) (lifeIn (Platform.toString address)
                  server.trace)).length + 1) := by
              rw [hrecord.sentSequence, UInt32.ofNat_add]
              rfl
            rw [ClientConnection.packetData, hrecord.header, hnumber]
            exact .data data
          have hsend : server.socketSendTo address (connection.packetData data) =
              server.emit (.socketSendTo address (connection.packetData data)) := by
            rw [HktReliableUdpServer.socketSendTo, if_pos hsocket]
          rw [← ClientConnection.packetData, hsend]
          refine hsaid.change (by simp) (fun other hne => neutral_of_ne rfl hne) rfl
            (fun other => SparseMap.find_add _ _ other _) ?_
          rintro _ ⟨⟩
          exact hrecord.sentData now rfl data
  · exact h

/-! ### Loops -/

theorem broadcastToGroup (h : SaysOnly server) (clock : ℕ → Time) (groupId : Int32) (data : Bytes)
    (excludeAddr : Option Addr) :
    SaysOnly (server.broadcastToGroup clock groupId data excludeAddr) := by
  unfold HktReliableUdpServer.broadcastToGroup
  split
  · exact h
  · refine run_invariant h (fun current member hcurrent => ?_) _
    dsimp only
    split
    · exact hcurrent.sendTo _ _ _
    · exact hcurrent

theorem processReceivedPackets (h : SaysOnly server) (clock : ℕ → Time) :
    SaysOnly (server.processReceivedPackets clock) := by
  have hemptied : SaysOnly { server with receivedPackets := [] } := h.congr rfl rfl
  unfold HktReliableUdpServer.processReceivedPackets
  exact run_invariant hemptied (fun _ packet hcurrent =>
    hcurrent.processReceivedPacket (clock packet.2) packet.1) server.receivedPackets.zipIdx

theorem disconnectAll (h : SaysOnly server) (clients : List String) :
    SaysOnly (clients.foldl (fun server addrStr => server.disconnectClient addrStr) server) :=
  run_invariant h (fun _ addrStr hcurrent => hcurrent.disconnectClient addrStr) clients

/-- Actions of the loop of `CheckForResends`, whose datagrams are copies of pending packets:
they go to the address of a record and have been sent to it before. -/
theorem resendActions (h : SaysOnly server) (actions : List (ServerAction Addr))
    (hresend : ∀ action ∈ actions, action.IsResend)
    (hsends : ∀ destination packetData, .socketSendTo destination packetData ∈ actions →
      ∃ addrStr connection s packet, server.connections.find addrStr = some connection ∧
        destination = connection.address ∧ connection.pendingAckPackets.find s = some packet ∧
        packet.packetData = packetData) :
    SaysOnly { server with trace := server.trace ++ actions } := by
  induction actions using List.reverseRecOn with
  | nil => exact h.congr (List.append_nil _) rfl
  | append_singleton before action ih =>
      have hbefore := ih (fun earlier hearlier => hresend earlier (List.mem_append_left _ hearlier))
        fun destination packetData hmem =>
          hsends destination packetData (List.mem_append_left _ hmem)
      have hnext : SaysOnly (emit action { server with trace := server.trace ++ before }) := by
        refine hbefore.act ?_ fun addrStr => neutral_of_isResend (hresend action (by simp)) addrStr
        rintro destination packetData rfl
        obtain ⟨addrStr, connection, s, packet, hfind, rfl, hpending, rfl⟩ :=
          hsends destination packetData (by simp)
        have hrecord := hbefore.record addrStr connection hfind
        obtain ⟨⟨original, horiginal, hmem⟩, hdatagram⟩ := hrecord.pending s packet hpending
        rw [hrecord.address]
        exact ⟨hrecord.registered, .again horiginal hmem hdatagram⟩
      exact hnext.congr (List.append_assoc _ _ _).symm rfl

theorem resendAll (h : SaysOnly server) (currentTime : Time) :
    SaysOnly (server.resendAll currentTime).1 := by
  obtain ⟨actions, hresends⟩ := resends_resendAll currentTime server
  have hclock : SaysOnly (server.emit (.checkForResends currentTime)) :=
    h.act (by simp) fun addrStr => neutral_of_key (by simp [ServerAction.key])
  refine (hclock.resendActions actions hresends.isResend hresends.sends).keeps hresends.trace
    fun addrStr after hafter => ?_
  rw [hresends.find_keys] at hafter
  obtain ⟨before, hbefore, rfl⟩ := Option.map_eq_some_iff.mp hafter
  exact ⟨before, hbefore, keeps_afterResend before currentTime⟩

theorem tick (h : SaysOnly server) (clock : TickClock) : SaysOnly (server.tick clock) := by
  have hprocessed := h.processReceivedPackets clock.packet
  have hresent : SaysOnly ((server.processReceivedPackets clock.packet).checkForResends
      clock.resend) := (hprocessed.resendAll clock.resend).disconnectAll _
  exact hresent.disconnectAll _

theorem step (h : SaysOnly server) (event : ServerEvent Addr) : SaysOnly (server.step event) := by
  cases event with
  | start bound => exact h.congr rfl rfl
  | stop =>
      simp only [HktReliableUdpServer.step, stop]
      split
      · exact h
      · exact h.congr rfl rfl
  | receive peerAddress receivedData =>
      simp only [HktReliableUdpServer.step, receive]
      split
      · exact h.congr rfl rfl
      · exact h
  | tick clock => exact h.tick clock
  | sendTo now dstAddr data => exact h.sendTo now dstAddr data
  | broadcastToGroup clock groupId data excludeAddr =>
      exact h.broadcastToGroup clock groupId data excludeAddr
  | joinGroup clientAddr groupId =>
      exact h.changesGroups (changesGroups_joinGroup clientAddr groupId server)
  | leaveGroup clientAddr groupId =>
      exact h.changesGroups (changesGroups_leaveGroup clientAddr groupId server)

end SaysOnly

/-- Every datagram that the server ever sends goes to a client that is registered then, and is
an Ack right after the client was registered or its Data packet was processed, a new Data packet
with the next number of the connection, or a copy of a Data packet of the same life.  Each new
header carries the window that the client's Data packets leave since it was registered. -/
theorem server_speaks (events : List (ServerEvent Addr)) :
    SaysThroughout (run HktReliableUdpServer.step {} events).trace := by
  have hallowed : SaysOnly (run HktReliableUdpServer.step {} events) :=
    run_invariant saysOnly_init (fun _ event h => h.step event) events
  exact hallowed.datagrams

end HktBase.CustomNet
