import HktBase.CustomNet.AckLists
import HktBase.CustomNet.Received

/-!
# The socket of the server

`SendTo` checks `ListenSocket`; `SendAck` and `CheckForResends` do not.  `Stop` clears the
socket and leaves the queue, the connections and their pending packets behind, so a `Tick`
after it may send through a null socket, and so may a `Tick` before `Start`.

Whether it does is decided by what the `Tick` finds.  A packet of the queue is answered
with an Ack when it is a Data of a registered address or a Connect of any other one.  As
long as none has been, the packets change the connections in two ways only: a Disconnect
removes its sender, and every header takes the numbers that it acknowledges off the pending
map of its sender.  `Unanswered` is this state of affairs.  What `CheckForResends` sends is
then read off the pending packets that the queue does not acknowledge.
-/

namespace HktBase.CustomNet

open Transition

variable {Addr : Type}

/-! ## What the queue holds -/

/-- The headers that a queue holds of one address.  Packets too short for one are skipped. -/
def headersFrom [Platform Addr] (addrStr : String) (packets : List (ReceivedPacket Addr)) :
    List PacketHeader :=
  (packets.filter fun packet =>
    sizeofPacketHeader ≤ packet.data.length ∧ Platform.toString packet.peerAddress = addrStr).map
      fun packet => PacketHeader.ofBytes packet.data

/-- `ProcessReceivedPackets` sends an Ack for a header. -/
def IsAnswered (registered : Prop) (header : PacketHeader) : Prop :=
  (registered ∧ header.type = .data) ∨ (¬ registered ∧ header.type = .connect)

/-- The first entry that is due for another transmission is out of retries, or none is due. -/
def SendsNothing (currentTime : Time) (entries : List (UInt32 × PendingPacket)) : Prop :=
  ∀ entry, entries.find? (fun entry => entry.2.Overdue currentTime) = some entry →
    maxRetries ≤ entry.2.retries

theorem headersFrom_concat [Platform Addr] (addrStr : String)
    (packets : List (ReceivedPacket Addr)) (packet : ReceivedPacket Addr) :
    headersFrom addrStr (packets ++ [packet]) = headersFrom addrStr packets ++
      if sizeofPacketHeader ≤ packet.data.length ∧ Platform.toString packet.peerAddress = addrStr
      then [PacketHeader.ofBytes packet.data] else [] := by
  unfold headersFrom
  rw [List.filter_append, List.map_append]
  congr 1
  split
  · next h => rw [List.filter_cons_of_pos (by simpa using h)]; rfl
  · next h => rw [List.filter_cons_of_neg (by simpa using h)]; rfl

namespace HktReliableUdpServer

/-- The pending packets of an address. -/
def pendingOf (server : HktReliableUdpServer Addr) (addrStr : String) :
    Option (TMap UInt32 PendingPacket) :=
  (server.connections.find addrStr).map fun connection => connection.pendingAckPackets

theorem contains_connections_iff {server : HktReliableUdpServer Addr} {addrStr : String} :
    server.connections.contains addrStr = true ↔ (server.pendingOf addrStr).isSome = true := by
  simp [pendingOf, SparseMap.contains]

section

variable [Platform Addr]

/-- An address has a connection that none of the packets asks to end. -/
def RegisteredAfter (packets : List (ReceivedPacket Addr)) (server : HktReliableUdpServer Addr)
    (addrStr : String) : Prop :=
  server.connections.contains addrStr = true ∧
    ∀ header ∈ headersFrom addrStr packets, header.type ≠ .disconnect

instance (packets : List (ReceivedPacket Addr)) (server : HktReliableUdpServer Addr)
    (addrStr : String) : Decidable (RegisteredAfter packets server addrStr) :=
  inferInstanceAs (Decidable (_ ∧ _))

/-- After packets none of which was answered, the next one is not answered either. -/
def Ignores (server : HktReliableUdpServer Addr) (before : List (ReceivedPacket Addr))
    (packet : ReceivedPacket Addr) : Prop :=
  sizeofPacketHeader ≤ packet.data.length →
    ¬ IsAnswered (server.RegisteredAfter before (Platform.toString packet.peerAddress))
      (PacketHeader.ofBytes packet.data)

/-- No packet of the queue is answered. -/
def NoneAnswered (server : HktReliableUdpServer Addr) : Prop :=
  Historically server.Ignores server.receivedPackets

/-- Of the connections that the queue does not end, none has a packet to send again that
the queue does not acknowledge. -/
def NothingResent (currentTime : Time) (server : HktReliableUdpServer Addr) : Prop :=
  ∀ addrStr pending, server.pendingOf addrStr = some pending →
    server.RegisteredAfter server.receivedPackets addrStr →
    SendsNothing currentTime (pending.entries.filter fun entry =>
      ∀ header ∈ headersFrom addrStr server.receivedPackets, entry.1 ∉ header.acks)

/-- A `Tick` without a socket finds nothing to answer in the queue, and nothing to send again. -/
def SocketSafe (server : HktReliableUdpServer Addr) : ServerEvent Addr → Prop
  | .tick clock =>
      server.listenSocket = false → server.NoneAnswered ∧ server.NothingResent clock.resend
  | _ => True

/-! ## One packet -/

omit [Platform Addr] in
@[simp] theorem nullSocket_mem_sendAck {connection : ClientConnection Addr}
    {server : HktReliableUdpServer Addr} :
    ServerAction.nullSocket ∈ (server.sendAck connection).trace ↔
      ServerAction.nullSocket ∈ server.trace ∨ server.listenSocket = false := by
  cases hsocket : server.listenSocket <;> simp [sendAck, hsocket]

omit [Platform Addr] in
@[simp] theorem nullSocket_mem_disconnectClient {addrStr : String}
    {server : HktReliableUdpServer Addr} :
    ServerAction.nullSocket ∈ (server.disconnectClient addrStr).trace ↔
      ServerAction.nullSocket ∈ server.trace := by
  rw [trace_disconnectClient, List.mem_append]
  split <;> simp

omit [Platform Addr] in
@[simp] theorem listenSocket_disconnectClient (addrStr : String)
    (server : HktReliableUdpServer Addr) :
    (server.disconnectClient addrStr).listenSocket = server.listenSocket := by
  unfold disconnectClient
  split <;> rfl

omit [Platform Addr] in
theorem listenSocket_of_changesGroups {addrStr : String} {server next : HktReliableUdpServer Addr}
    (h : ChangesGroups addrStr server next) : next.listenSocket = server.listenSocket := by
  cases h <;> rfl

/-- The `switch` sends an Ack for a Data packet and for no other one. -/
theorem nullSocket_mem_dispatch {packet : ReceivedPacket Addr} {connection : ClientConnection Addr}
    {server : HktReliableUdpServer Addr} :
    ServerAction.nullSocket ∈ (server.dispatch packet connection).trace ↔
      ServerAction.nullSocket ∈ server.trace ∨
        (server.listenSocket = false ∧ (PacketHeader.ofBytes packet.data).type = .data) := by
  rcases dispatch_cases packet connection server with
    ⟨hdata, after, -, hafter⟩ | ⟨hdisconnect, hafter⟩ | ⟨hdata, -, hgroups⟩
  · simp [hafter, hdata]
  · simp [hafter, hdisconnect]
  · simp [hgroups.trace, hdata]

theorem listenSocket_dispatch (packet : ReceivedPacket Addr) (connection : ClientConnection Addr)
    (server : HktReliableUdpServer Addr) :
    (server.dispatch packet connection).listenSocket = server.listenSocket := by
  rcases dispatch_cases packet connection server with
    ⟨-, after, -, hafter⟩ | ⟨-, hafter⟩ | ⟨-, -, hgroups⟩
  · rw [hafter]
    rfl
  · rw [hafter, listenSocket_disconnectClient]
  · exact listenSocket_of_changesGroups hgroups

theorem listenSocket_processReceivedPacket (now : Time) (packet : ReceivedPacket Addr)
    (server : HktReliableUdpServer Addr) :
    (server.processReceivedPacket now packet).listenSocket = server.listenSocket := by
  unfold processReceivedPacket
  dsimp only
  split
  · rfl
  · split
    · split
      · unfold handleNewConnection
        dsimp only
        split <;> rfl
      · rfl
    · exact listenSocket_dispatch _ _ _

/-- A packet is answered, if the socket is null through it, when it is a Data of a
registered address or a Connect of another one. -/
theorem nullSocket_mem_processReceivedPacket {now : Time} {packet : ReceivedPacket Addr}
    {server : HktReliableUdpServer Addr} :
    ServerAction.nullSocket ∈ (server.processReceivedPacket now packet).trace ↔
      ServerAction.nullSocket ∈ server.trace ∨
        (server.listenSocket = false ∧ sizeofPacketHeader ≤ packet.data.length ∧
          IsAnswered (server.connections.contains (Platform.toString packet.peerAddress) = true)
            (PacketHeader.ofBytes packet.data)) := by
  obtain ⟨peerAddress, packetData⟩ := packet
  by_cases hlength : sizeofPacketHeader ≤ packetData.length
  · cases hfind : server.connections.find (Platform.toString peerAddress) with
    -- from an address that is not registered only a Connect is answered
    | none =>
        have hstranger : server.connections.contains (Platform.toString peerAddress) = false := by
          simp [SparseMap.contains, hfind]
        simp only [processReceivedPacket, if_neg (not_lt.mpr hlength), hfind, hlength, IsAnswered,
          hstranger, true_and]
        split
        · next hconnect => simp [handleNewConnection, hstranger, hconnect]
        · next hother => simp [hother]
    | some connection =>
        have hknown : server.connections.contains (Platform.toString peerAddress) = true := by
          simp [SparseMap.contains, hfind]
        rw [processReceivedPacket_of_some hlength now hfind, nullSocket_mem_dispatch]
        simp [heard, IsAnswered, hknown, hlength]
  · simp [processReceivedPacket, if_pos (not_le.mp hlength), hlength]

omit [Platform Addr] in
theorem pendingOf_of_changesGroups {addrStr : String} {server next : HktReliableUdpServer Addr}
    (h : ChangesGroups addrStr server next) (other : String) :
    next.pendingOf other = server.pendingOf other := by
  cases h with
  | same => rfl
  | groups connection groupIds groups hfind =>
      unfold pendingOf
      rw [SparseMap.find_add]
      split
      · next hsame => rw [hsame, hfind]; rfl
      · rfl

omit [Platform Addr] in
theorem pendingOf_setConnection (addrStr other : String) (connection : ClientConnection Addr)
    (server : HktReliableUdpServer Addr) :
    (server.setConnection addrStr connection).pendingOf other =
      if other = addrStr then some connection.pendingAckPackets else server.pendingOf other := by
  unfold pendingOf
  rw [connections_setConnection, SparseMap.find_add]
  split <;> rfl

/-- The pending packets after the `switch` on a packet: a Disconnect takes them away with the
record, and no other packet changes them there. -/
theorem pendingOf_dispatch {packet : ReceivedPacket Addr} {connection : ClientConnection Addr}
    {server : HktReliableUdpServer Addr}
    (hpending : server.pendingOf (Platform.toString packet.peerAddress) =
      some connection.pendingAckPackets) (addrStr : String) :
    (server.dispatch packet connection).pendingOf addrStr =
      if addrStr = Platform.toString packet.peerAddress ∧
        (PacketHeader.ofBytes packet.data).type = .disconnect then none
      else server.pendingOf addrStr := by
  rcases dispatch_cases packet connection server with
    ⟨hdata, after, hsame, hafter⟩ | ⟨hdisconnect, hafter⟩ | ⟨-, hother, hgroups⟩
  · rw [hafter, if_neg (by simp [hdata])]
    show (server.setConnection (Platform.toString packet.peerAddress) after).pendingOf addrStr = _
    rw [pendingOf_setConnection]
    split
    · next haddr => rw [haddr, hpending, hsame]
    · rfl
  · simp only [hafter, hdisconnect, and_true, pendingOf, find_connections_disconnectClient]
    split <;> rfl
  · rw [if_neg fun h => hother h.2, pendingOf_of_changesGroups hgroups]

/-- A packet that is not answered takes what it acknowledges off the pending packets of its
sender, and the sender with them if it is a Disconnect. -/
theorem pendingOf_processReceivedPacket {packet : ReceivedPacket Addr}
    {server : HktReliableUdpServer Addr}
    (hnone : sizeofPacketHeader ≤ packet.data.length →
      ¬ IsAnswered (server.connections.contains (Platform.toString packet.peerAddress) = true)
        (PacketHeader.ofBytes packet.data)) (now : Time) (addrStr : String) :
    (server.processReceivedPacket now packet).pendingOf addrStr =
      if sizeofPacketHeader ≤ packet.data.length ∧ Platform.toString packet.peerAddress = addrStr
      then
        if (PacketHeader.ofBytes packet.data).type = .disconnect then none
        else (server.pendingOf addrStr).map (processAck (PacketHeader.ofBytes packet.data))
      else server.pendingOf addrStr := by
  obtain ⟨peerAddress, packetData⟩ := packet
  by_cases hlength : sizeofPacketHeader ≤ packetData.length
  · cases hfind : server.connections.find (Platform.toString peerAddress) with
    | none =>
        have hstranger : server.pendingOf (Platform.toString peerAddress) = none := by
          rw [pendingOf, hfind, Option.map_none]
        have hconnect : (PacketHeader.ofBytes packetData).type ≠ .connect := by
          intro hconnect
          exact hnone hlength (Or.inr ⟨by simp [SparseMap.contains, hfind], hconnect⟩)
        -- a stranger that does not connect is not listened to
        have hsame : server.processReceivedPacket now ⟨peerAddress, packetData⟩ = server := by
          simp only [processReceivedPacket, if_neg (not_lt.mpr hlength), hfind, if_neg hconnect]
        rw [hsame]
        split
        · next haddr => rw [← haddr.2, hstranger, Option.map_none, ite_self]
        · rfl
    | some connection =>
        rw [processReceivedPacket_of_some hlength now hfind]
        have hheard : ∀ other, (server.heard now peerAddress (PacketHeader.ofBytes packetData)
            connection).pendingOf other =
              if other = Platform.toString peerAddress
              then some (processAck (PacketHeader.ofBytes packetData) connection.pendingAckPackets)
              else server.pendingOf other := by
          exact fun other => pendingOf_setConnection _ _ _ _
        rw [pendingOf_dispatch ((hheard _).trans (if_pos rfl)), hheard]
        by_cases haddr : addrStr = Platform.toString peerAddress
        · subst haddr
          simp [hlength, pendingOf, hfind]
        · rw [if_neg fun h => haddr h.1, if_neg haddr, if_neg fun h => haddr h.2.symm]
  · have hsame : server.processReceivedPacket now ⟨peerAddress, packetData⟩ = server := by
      rw [processReceivedPacket, if_pos (not_le.mp hlength)]
    rw [hsame, if_neg fun h => hlength h.1]

/-! ## The queue -/

/-- What the server has become of packets none of which was answered. -/
structure Unanswered (packets : List (ReceivedPacket Addr)) (server next : HktReliableUdpServer Addr) :
    Prop where
  nullSocket : ServerAction.nullSocket ∈ next.trace ↔ ServerAction.nullSocket ∈ server.trace
  pendingOf : ∀ addrStr, next.pendingOf addrStr =
    if server.RegisteredAfter packets addrStr
    then (server.pendingOf addrStr).map (processAcks (headersFrom addrStr packets))
    else none

theorem registeredAfter_concat {packets : List (ReceivedPacket Addr)}
    {packet : ReceivedPacket Addr} {server : HktReliableUdpServer Addr} {addrStr : String} :
    server.RegisteredAfter (packets ++ [packet]) addrStr ↔
      server.RegisteredAfter packets addrStr ∧
        (sizeofPacketHeader ≤ packet.data.length ∧ Platform.toString packet.peerAddress = addrStr →
          (PacketHeader.ofBytes packet.data).type ≠ .disconnect) := by
  unfold RegisteredAfter
  rw [headersFrom_concat, and_assoc]
  apply and_congr_right
  intro _
  split
  · next h => simp [or_imp, forall_and, h]
  · next h => simp [h]

theorem unanswered_nil (server : HktReliableUdpServer Addr) : Unanswered [] server server := by
  refine ⟨Iff.rfl, fun addrStr => ?_⟩
  cases hfind : server.connections.find addrStr with
  | none => simp [HktReliableUdpServer.pendingOf, hfind]
  | some connection =>
      simp [HktReliableUdpServer.pendingOf, hfind, RegisteredAfter, headersFrom, processAcks,
        SparseMap.contains]

namespace Unanswered

variable {packets : List (ReceivedPacket Addr)} {server next : HktReliableUdpServer Addr}

theorem contains_iff (h : Unanswered packets server next) {addrStr : String} :
    next.connections.contains addrStr = true ↔ server.RegisteredAfter packets addrStr := by
  rw [contains_connections_iff, h.pendingOf]
  split
  · next hregistered =>
      rw [Option.isSome_map]
      exact iff_of_true (contains_connections_iff.mp hregistered.1) hregistered
  · next hregistered => simp [hregistered]

theorem concat (h : Unanswered packets server next) {packet : ReceivedPacket Addr}
    (hignored : server.Ignores packets packet) (now : Time) :
    Unanswered (packets ++ [packet]) server (next.processReceivedPacket now packet) := by
  have hnone : sizeofPacketHeader ≤ packet.data.length →
      ¬ IsAnswered (next.connections.contains (Platform.toString packet.peerAddress) = true)
        (PacketHeader.ofBytes packet.data) := by
    rw [h.contains_iff]
    exact hignored
  constructor
  · rw [nullSocket_mem_processReceivedPacket, or_iff_left, h.nullSocket]
    exact fun hanswered => hnone hanswered.2.1 hanswered.2.2
  · intro addrStr
    rw [pendingOf_processReceivedPacket hnone, h.pendingOf, headersFrom_concat,
      if_congr registeredAfter_concat rfl rfl]
    by_cases hsender :
        sizeofPacketHeader ≤ packet.data.length ∧ Platform.toString packet.peerAddress = addrStr
    · simp only [hsender, and_self, true_imp_iff]
      by_cases hdisconnect : (PacketHeader.ofBytes packet.data).type = .disconnect
      · simp [hdisconnect]
      · by_cases hregistered : server.RegisteredAfter packets addrStr
        -- what the headers before and this one acknowledge comes off in two passes
        · have hacks : processAcks
              (headersFrom addrStr packets ++ [PacketHeader.ofBytes packet.data]) =
                processAck (PacketHeader.ofBytes packet.data) ∘
                  processAcks (headersFrom addrStr packets) :=
            funext fun pending => processAcks_concat _ _ pending
          simp [hdisconnect, hregistered, hacks]
        · simp [hregistered]
    · simp [hsender]

end Unanswered

/-- The loop of `ProcessReceivedPackets` over a list of packets. -/
def processPackets (clock : ℕ → Time) (packets : List (ReceivedPacket Addr))
    (server : HktReliableUdpServer Addr) : HktReliableUdpServer Addr :=
  packets.zipIdx.foldl
    (fun server packet => server.processReceivedPacket (clock packet.2) packet.1) server

theorem processPackets_concat (clock : ℕ → Time) (packets : List (ReceivedPacket Addr))
    (packet : ReceivedPacket Addr) (server : HktReliableUdpServer Addr) :
    server.processPackets clock (packets ++ [packet]) =
      (server.processPackets clock packets).processReceivedPacket (clock packets.length)
        packet := by
  simp [processPackets, List.zipIdx_append]

theorem listenSocket_processPackets (clock : ℕ → Time) (packets : List (ReceivedPacket Addr))
    (server : HktReliableUdpServer Addr) :
    (server.processPackets clock packets).listenSocket = server.listenSocket := by
  induction packets using List.reverseRecOn with
  | nil => rfl
  | append_singleton before packet ih =>
      rw [processPackets_concat, listenSocket_processReceivedPacket, ih]

theorem unanswered_processPackets (clock : ℕ → Time) {packets : List (ReceivedPacket Addr)}
    (server : HktReliableUdpServer Addr) (hignored : Historically server.Ignores packets) :
    Unanswered packets server (server.processPackets clock packets) := by
  induction packets using List.reverseRecOn with
  | nil => exact unanswered_nil server
  | append_singleton before packet ih =>
      obtain ⟨hbefore, hpacket⟩ := historically_concat.mp hignored
      rw [processPackets_concat]
      exact (ih hbefore).concat hpacket _

/-- The loop sends through a null socket exactly when one of the packets is answered: up
to the first such packet the connections are those that `Unanswered` describes. -/
theorem nullSocket_mem_processPackets (clock : ℕ → Time) (packets : List (ReceivedPacket Addr))
    (server : HktReliableUdpServer Addr) :
    ServerAction.nullSocket ∈ (server.processPackets clock packets).trace ↔
      ServerAction.nullSocket ∈ server.trace ∨
        (server.listenSocket = false ∧ ¬ Historically server.Ignores packets) := by
  induction packets using List.reverseRecOn with
  | nil => simp [processPackets, historically_nil]
  | append_singleton before packet ih =>
      rw [processPackets_concat, nullSocket_mem_processReceivedPacket,
        listenSocket_processPackets, ih, historically_concat, or_assoc, ← and_or_left]
      apply or_congr_right
      apply and_congr_right
      intro _
      by_cases hbefore : Historically server.Ignores before
      · rw [(unanswered_processPackets clock server hbefore).contains_iff]
        simp [hbefore, Ignores]
      · simp [hbefore]

/-! ## The sweeps -/

omit [Platform Addr] in
theorem nullSocket_mem_resendActions {listenSocket : Bool} {addrStr : String}
    {connection : ClientConnection Addr} {currentTime : Time} :
    ServerAction.nullSocket ∈ connection.resendActions listenSocket addrStr currentTime ↔
      listenSocket = false ∧
        (resendPending currentTime connection.pendingAckPackets).resent ≠ [] := by
  unfold ClientConnection.resendActions
  rw [List.mem_append, or_iff_left (by split <;> simp), List.mem_flatMap]
  cases listenSocket with
  | true => simp
  | false => simp [List.eq_nil_iff_forall_not_mem]

section Sweep

omit [Platform Addr]

variable {currentTime : Time} {addrStr : String} {sweep : HktReliableUdpServer Addr × List String}

/-- A connection has a packet to send again. -/
def HasResend (currentTime : Time) (server : HktReliableUdpServer Addr) (addrStr : String) : Prop :=
  ∃ pending, server.pendingOf addrStr = some pending ∧
    (resendPending currentTime pending).resent ≠ []

theorem nullSocket_mem_resendTo :
    ServerAction.nullSocket ∈ (resendTo currentTime sweep addrStr).1.trace ↔
      ServerAction.nullSocket ∈ sweep.1.trace ∨
        (sweep.1.listenSocket = false ∧ sweep.1.HasResend currentTime addrStr) := by
  obtain ⟨server, clients⟩ := sweep
  unfold HasResend
  cases hfind : server.connections.find addrStr with
  | none => simp [resendTo_of_none hfind, pendingOf, hfind]
  | some connection =>
      rw [resendTo_eq hfind, List.mem_append, nullSocket_mem_resendActions]
      simp [pendingOf, hfind]

theorem listenSocket_resendTo :
    (resendTo currentTime sweep addrStr).1.listenSocket = sweep.1.listenSocket := by
  obtain ⟨server, clients⟩ := sweep
  cases hfind : server.connections.find addrStr with
  | none => rw [resendTo_of_none hfind]
  | some connection => rw [resendTo_eq hfind]; rfl

theorem pendingOf_resendTo_of_ne {other : String} (hne : other ≠ addrStr) :
    (resendTo currentTime sweep addrStr).1.pendingOf other = sweep.1.pendingOf other := by
  obtain ⟨server, clients⟩ := sweep
  cases hfind : server.connections.find addrStr with
  | none => rw [resendTo_of_none hfind]
  | some connection =>
      rw [resendTo_eq hfind]
      exact (pendingOf_setConnection _ _ _ _).trans (if_neg hne)

/-- The loop over the connections sends through a null socket when it sends at all and there is
none: the first packet that it would send again decides. -/
theorem nullSocket_mem_foldl_resendTo {keys : List String} (hnodup : keys.Nodup) :
    ServerAction.nullSocket ∈ (keys.foldl (resendTo currentTime) sweep).1.trace ↔
      ServerAction.nullSocket ∈ sweep.1.trace ∨
        (sweep.1.listenSocket = false ∧ ∃ addrStr ∈ keys, sweep.1.HasResend currentTime addrStr) := by
  induction keys generalizing sweep with
  | nil => simp
  | cons addrStr rest ih =>
      obtain ⟨hfresh, hrest⟩ := List.nodup_cons.mp hnodup
      rw [List.foldl_cons, ih hrest, nullSocket_mem_resendTo, listenSocket_resendTo, or_assoc,
        ← and_or_left, List.exists_mem_cons_iff]
      -- a round for one connection leaves the pending packets of those still to come
      have hlater : ∀ other ∈ rest, (resendTo currentTime sweep addrStr).1.pendingOf other =
          sweep.1.pendingOf other := by
        intro other hmem
        apply pendingOf_resendTo_of_ne
        rintro rfl
        exact hfresh hmem
      apply or_congr_right
      apply and_congr_right
      intro _
      apply or_congr_right
      refine exists_congr fun other => and_congr_right fun hmem => ?_
      rw [HasResend, HasResend, hlater other hmem]

theorem nullSocket_mem_foldl_disconnectClient {clients : List String}
    {server : HktReliableUdpServer Addr} :
    ServerAction.nullSocket ∈
        (clients.foldl (fun server addrStr => server.disconnectClient addrStr) server).trace ↔
      ServerAction.nullSocket ∈ server.trace := by
  induction clients generalizing server with
  | nil => exact Iff.rfl
  | cons addrStr rest ih => rw [List.foldl_cons, ih, nullSocket_mem_disconnectClient]

/-- `CheckForResends` sends through a null socket exactly when some connection has a packet
to send again. -/
theorem nullSocket_mem_checkForResends {server : HktReliableUdpServer Addr} :
    ServerAction.nullSocket ∈ (server.checkForResends currentTime).trace ↔
      ServerAction.nullSocket ∈ server.trace ∨ (server.listenSocket = false ∧
        ¬ ∀ addrStr pending, server.pendingOf addrStr = some pending →
          SendsNothing currentTime pending.entries) := by
  unfold checkForResends
  rw [nullSocket_mem_foldl_disconnectClient,
    nullSocket_mem_foldl_resendTo server.connections.nodup_keys]
  have hkeys : (∃ addrStr ∈ server.connections.keys, server.HasResend currentTime addrStr) ↔
      ¬ ∀ addrStr pending, server.pendingOf addrStr = some pending →
        SendsNothing currentTime pending.entries := by
    simp only [HasResend, not_forall, SendsNothing, ← resent_resendPending_eq_nil_iff, exists_prop]
    constructor
    · rintro ⟨addrStr, -, pending, hpending, hsent⟩
      exact ⟨addrStr, pending, hpending, hsent⟩
    · rintro ⟨addrStr, pending, hpending, hsent⟩
      obtain ⟨connection, hfind, -⟩ := Option.map_eq_some_iff.mp hpending
      exact ⟨addrStr, SparseMap.mem_keys.mpr ⟨connection, hfind⟩, pending, hpending, hsent⟩
  show _ ∨ (server.listenSocket = false ∧
    ∃ addrStr ∈ server.connections.keys, server.HasResend currentTime addrStr) ↔ _
  rw [hkeys]
  simp

theorem nullSocket_mem_checkForTimeouts {server : HktReliableUdpServer Addr} :
    ServerAction.nullSocket ∈ (server.checkForTimeouts currentTime).trace ↔
      ServerAction.nullSocket ∈ server.trace :=
  nullSocket_mem_foldl_disconnectClient

end Sweep

/-! ## Steps and runs -/

/-- After a queue without an answer, what `CheckForResends` finds pending is what the queue
does not acknowledge. -/
theorem Unanswered.sendsNothing_iff {server next : HktReliableUdpServer Addr}
    (h : Unanswered server.receivedPackets server next) (currentTime : Time) :
    (∀ addrStr pending, next.pendingOf addrStr = some pending →
        SendsNothing currentTime pending.entries) ↔ server.NothingResent currentTime := by
  unfold NothingResent
  apply forall_congr'
  intro addrStr
  rw [h.pendingOf]
  split
  · next hregistered =>
      constructor
      -- a sender that is still registered has the packets that the queue has left it
      · intro hnone pending hpending _
        rw [← entries_processAcks]
        exact hnone _ (by rw [hpending, Option.map_some])
      · intro hnone pending hpending
        obtain ⟨before, hbefore, rfl⟩ := Option.map_eq_some_iff.mp hpending
        rw [entries_processAcks]
        exact hnone before hbefore hregistered
  · next hregistered =>
      apply iff_of_true
      · simp
      · exact fun _ _ h => absurd h hregistered

theorem nullSocket_mem_tick {clock : TickClock} {server : HktReliableUdpServer Addr} :
    ServerAction.nullSocket ∈ (server.tick clock).trace ↔
      ServerAction.nullSocket ∈ server.trace ∨ ¬ server.SocketSafe (.tick clock) := by
  have hqueue : ServerAction.nullSocket ∈ (server.processReceivedPackets clock.packet).trace ↔
      ServerAction.nullSocket ∈ server.trace ∨
        (server.listenSocket = false ∧ ¬ server.NoneAnswered) :=
    nullSocket_mem_processPackets clock.packet server.receivedPackets
      { server with receivedPackets := [] }
  have hsocket : (server.processReceivedPackets clock.packet).listenSocket =
      server.listenSocket :=
    listenSocket_processPackets clock.packet server.receivedPackets
      { server with receivedPackets := [] }
  unfold tick
  rw [nullSocket_mem_checkForTimeouts, nullSocket_mem_checkForResends, hqueue, hsocket, or_assoc,
    ← and_or_left]
  apply or_congr_right
  simp only [SocketSafe, Classical.not_imp]
  apply and_congr_right
  intro _
  -- an answer decides alone; without one the queue only acknowledges
  by_cases hnone : server.NoneAnswered
  · have hemptied := unanswered_processPackets clock.packet { server with receivedPackets := [] }
      hnone
    have hunanswered : Unanswered server.receivedPackets server
        (server.processReceivedPackets clock.packet) :=
      ⟨hemptied.nullSocket, hemptied.pendingOf⟩
    rw [hunanswered.sendsNothing_iff]
    simp [hnone]
  · simp [hnone]

/-- `SendTo` checks the socket itself. -/
theorem nullSocket_mem_sendTo {now : Time} {dstAddr : Option Addr} {data : Bytes}
    {server : HktReliableUdpServer Addr} :
    ServerAction.nullSocket ∈ (server.sendTo now dstAddr data).trace ↔
      ServerAction.nullSocket ∈ server.trace := by
  unfold sendTo
  split
  · next hsocket =>
      dsimp only
      split
      · exact Iff.rfl
      · simp [hsocket]
  · exact Iff.rfl

theorem nullSocket_mem_broadcastToGroup {clock : ℕ → Time} {groupId : Int32} {data : Bytes}
    {excludeAddr : Option Addr} {server : HktReliableUdpServer Addr} :
    ServerAction.nullSocket ∈ (server.broadcastToGroup clock groupId data excludeAddr).trace ↔
      ServerAction.nullSocket ∈ server.trace := by
  unfold broadcastToGroup
  split
  · exact Iff.rfl
  · next groupMembers hfind =>
      clear hfind
      induction groupMembers.entries.zipIdx generalizing server with
      | nil => exact Iff.rfl
      | cons member rest ih =>
          rw [List.foldl_cons, ih]
          dsimp only
          split
          · exact nullSocket_mem_sendTo
          · exact Iff.rfl

/-- Only a `Tick` sends without a check. -/
theorem nullSocket_mem_step_of_ne_tick {server : HktReliableUdpServer Addr}
    {event : ServerEvent Addr} (hother : ∀ clock, event ≠ .tick clock) :
    ServerAction.nullSocket ∈ (server.step event).trace ↔
      ServerAction.nullSocket ∈ server.trace := by
  cases event with
  | tick clock => exact absurd rfl (hother clock)
  | start bound => exact Iff.rfl
  | stop =>
      unfold step stop
      dsimp only
      split <;> exact Iff.rfl
  | receive peerAddress receivedData =>
      unfold step receive
      dsimp only
      split <;> exact Iff.rfl
  | sendTo now dstAddr data => exact nullSocket_mem_sendTo
  | broadcastToGroup clock groupId data excludeAddr => exact nullSocket_mem_broadcastToGroup
  | joinGroup clientAddr groupId =>
      show _ ∈ (server.joinGroup clientAddr groupId).trace ↔ _
      rw [trace_joinGroup]
  | leaveGroup clientAddr groupId =>
      show _ ∈ (server.leaveGroup clientAddr groupId).trace ↔ _
      rw [trace_leaveGroup]

theorem socketSafe_of_ne_tick {server : HktReliableUdpServer Addr} {event : ServerEvent Addr}
    (hother : ∀ clock, event ≠ .tick clock) : server.SocketSafe event := by
  cases event with
  | tick clock => exact absurd rfl (hother clock)
  | _ => trivial

theorem nullSocket_mem_step {server : HktReliableUdpServer Addr} {event : ServerEvent Addr} :
    ServerAction.nullSocket ∈ (server.step event).trace ↔
      ServerAction.nullSocket ∈ server.trace ∨ ¬ server.SocketSafe event := by
  by_cases htick : ∃ clock, event = .tick clock
  · obtain ⟨clock, rfl⟩ := htick
    exact nullSocket_mem_tick
  · have hother : ∀ clock, event ≠ .tick clock := fun clock hclock => htick ⟨clock, hclock⟩
    rw [nullSocket_mem_step_of_ne_tick hother, or_iff_left]
    exact not_not_intro (socketSafe_of_ne_tick hother)

/-- **When the server uses a closed socket.**  In a run of the server nothing is sent
through a null socket exactly when every `Tick` without a socket finds nothing to answer in
its queue and nothing to send again. -/
theorem closed_socket_unused_iff (events : List (ServerEvent Addr)) :
    ServerAction.nullSocket ∉ (run step ({} : HktReliableUdpServer Addr) events).trace ↔
      EveryStep step ({} : HktReliableUdpServer Addr) SocketSafe events := by
  refine run_iff_everyStep
    (P := fun server : HktReliableUdpServer Addr => ServerAction.nullSocket ∉ server.trace)
    (by simp) ?_
  intro server event
  rw [nullSocket_mem_step, not_or, not_not]

end

/-- A Connect is in the queue when the server stops. -/
def connectThenStop : List (ServerEvent LoopbackAddr) :=
  [.start true, .receive ⟨7778⟩ (PacketHeader.toBytes { type := .connect }), .stop,
    .tick ⟨fun _ => 0, 0, 0⟩]

/-- The packet sent to a client is not acknowledged when the server stops. -/
def sendThenStop : List (ServerEvent LoopbackAddr) :=
  [.start true, .receive ⟨7778⟩ (PacketHeader.toBytes { type := .connect }),
    .tick ⟨fun _ => 0, 0, 0⟩, .sendTo 0 (some ⟨7778⟩) [42], .stop, .tick ⟨fun _ => 1, 1, 1⟩]

/-- The `Tick` after `Stop` answers the Connect, and sends the packet again, through a null
socket. -/
theorem closed_socket_used :
    ¬ (∀ events, ServerAction.nullSocket ∉
        (run step ({} : HktReliableUdpServer LoopbackAddr) events).trace) ∧
      ServerAction.nullSocket ∈
        (run step ({} : HktReliableUdpServer LoopbackAddr) connectThenStop).trace ∧
      ServerAction.nullSocket ∈
        (run step ({} : HktReliableUdpServer LoopbackAddr) sendThenStop).trace := by
  have hanswers : ServerAction.nullSocket ∈
      (run step ({} : HktReliableUdpServer LoopbackAddr) connectThenStop).trace := by
    decide +kernel
  exact ⟨fun h => h _ hanswers, hanswers, by decide +kernel⟩

end HktReliableUdpServer

end HktBase.CustomNet
