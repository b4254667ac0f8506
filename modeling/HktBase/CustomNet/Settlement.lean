import HktBase.Library.PolledTimer
import HktBase.CustomNet.Received
import HktBase.CustomNet.Retries
import HktBase.CustomNet.Sweeps

/-!
# How long a packet can stay unsettled

A packet that the server has sent is settled when it is acknowledged or its client is dropped.
`CheckForResends` is a timer for each packet, and it is polled: a `Tick` looks at the clock when
the game calls it.  As long as the packet is not acknowledged its record counts the overdue
passes, and a connection that has survived a `Tick` has no record beyond `maxRetries`.

So a packet is settled after `maxRetries` overdue passes and one more.  How long that takes
depends on the frames: if no pass comes more than `frame` after the one before it, a packet is
settled within `maxRetries` times `resendTimeout + frame`, and another `resendTimeout`.
-/

namespace HktBase.CustomNet

open Transition PolledTimer HktReliableUdpServer

variable {Addr : Type}

/-! ## Where the limit has been reached -/

/-- No client has reached the resend limit in its present life. -/
def LimitFree (trace : List (ServerAction Addr)) : Prop :=
  ∀ addrStr, .resendLimit addrStr ∉ lifeIn addrStr trace

theorem mem_lifeIn_append {addrStr : String} {trace actions : List (ServerAction Addr)}
    {action : ServerAction Addr} (h : action ∈ lifeIn addrStr (trace ++ actions)) :
    action ∈ lifeIn addrStr trace ∨ action ∈ actions := by
  induction actions using List.reverseRecOn with
  | nil => exact Or.inl (by simpa using h)
  | append_singleton before last ih =>
      rw [← List.append_assoc, lifeIn, sinceLast_concat] at h
      split at h
      · simp at h
      · rcases List.mem_append.mp h with hbefore | hlast
        · exact (ih hbefore).imp id fun hmem => List.mem_append_left _ hmem
        · exact Or.inr (List.mem_append_right _ hlast)

/-- Between two states of the server no pass of `CheckForResends` begins. -/
def WithoutSweep (server next : HktReliableUdpServer Addr) : Prop :=
  ∃ actions, next.trace = server.trace ++ actions ∧ ∀ action ∈ actions, ¬ action.IsSweep

namespace WithoutSweep

variable {server middle next : HktReliableUdpServer Addr}

theorem of_trace_eq (h : next.trace = server.trace) : WithoutSweep server next :=
  ⟨[], by simpa using h, by simp⟩

theorem trans (hfirst : WithoutSweep server middle) (hsecond : WithoutSweep middle next) :
    WithoutSweep server next := by
  obtain ⟨first, hmiddle, hnone⟩ := hfirst
  obtain ⟨second, hnext, hnoneAfter⟩ := hsecond
  refine ⟨first ++ second, by rw [hnext, hmiddle, List.append_assoc], fun action haction => ?_⟩
  rcases List.mem_append.mp haction with haction | haction
  · exact hnone action haction
  · exact hnoneAfter action haction

theorem emit {action : ServerAction Addr} (haction : ¬ action.IsSweep)
    (h : WithoutSweep server middle) : WithoutSweep server (middle.emit action) := by
  refine h.trans ⟨[action], rfl, fun other hother => ?_⟩
  obtain rfl := List.mem_singleton.mp hother
  exact haction

theorem foldl {α : Type} {body : HktReliableUdpServer Addr → α → HktReliableUdpServer Addr}
    (hbody : ∀ current item, WithoutSweep current (body current item)) (items : List α)
    (server : HktReliableUdpServer Addr) : WithoutSweep server (items.foldl body server) := by
  induction items generalizing server with
  | nil => exact of_trace_eq rfl
  | cons item rest ih => exact (hbody server item).trans (ih (body server item))

theorem limitFree (h : WithoutSweep server next) (hserver : LimitFree server.trace) :
    LimitFree next.trace := by
  obtain ⟨actions, htrace, hnone⟩ := h
  intro addrStr hmem
  rw [htrace] at hmem
  rcases mem_lifeIn_append hmem with hbefore | haction
  · exact hserver addrStr hbefore
  · exact hnone _ haction trivial

theorem socketSendTo (destination : Addr) (packetData : Bytes) (server : HktReliableUdpServer Addr) :
    WithoutSweep server (server.socketSendTo destination packetData) := by
  refine emit ?_ (of_trace_eq rfl)
  split <;> simp [ServerAction.IsSweep]

theorem disconnectClient (addrStr : String) (server : HktReliableUdpServer Addr) :
    WithoutSweep server (server.disconnectClient addrStr) := by
  refine ⟨_, trace_disconnectClient addrStr server, fun action haction => ?_⟩
  split at haction
  · obtain rfl := List.mem_singleton.mp haction
    simp [ServerAction.IsSweep]
  · simp at haction

theorem sendAck (connection : ClientConnection Addr) (server : HktReliableUdpServer Addr) :
    WithoutSweep server (server.sendAck connection) :=
  socketSendTo _ _ server

variable [Platform Addr]

theorem handleNewConnection (now : Time) (newAddr : Addr) (server : HktReliableUdpServer Addr) :
    WithoutSweep server (server.handleNewConnection now newAddr) := by
  unfold HktReliableUdpServer.handleNewConnection
  dsimp only
  split
  · exact of_trace_eq rfl
  · refine WithoutSweep.trans (emit ?_ (of_trace_eq rfl)) (sendAck _ _)
    simp [ServerAction.IsSweep]

theorem processReceivedPacket (now : Time) (packet : ReceivedPacket Addr)
    (server : HktReliableUdpServer Addr) :
    WithoutSweep server (server.processReceivedPacket now packet) := by
  unfold HktReliableUdpServer.processReceivedPacket
  dsimp only
  split
  · exact of_trace_eq rfl
  · split
    · split
      · exact handleNewConnection now _ server
      · exact of_trace_eq rfl
    · next connection hfind =>
        have hheard : WithoutSweep server (server.heard now packet.peerAddress
            (PacketHeader.ofBytes packet.data) connection) :=
          emit (by simp [ServerAction.IsSweep]) (of_trace_eq rfl)
        refine hheard.trans ?_
        rcases dispatch_cases packet (connection.afterAck now (PacketHeader.ofBytes packet.data))
          (server.heard now packet.peerAddress (PacketHeader.ofBytes packet.data) connection) with
          ⟨-, after, -, hsame⟩ | ⟨-, hsame⟩ | ⟨-, -, hgroups⟩
        · exact hsame ▸ (of_trace_eq rfl).trans (sendAck after _)
        · exact hsame ▸ disconnectClient _ _
        · exact of_trace_eq hgroups.trace

theorem processReceivedPackets (clock : ℕ → Time) (server : HktReliableUdpServer Addr) :
    WithoutSweep server (server.processReceivedPackets clock) := by
  have hqueue : WithoutSweep server { server with receivedPackets := [] } := of_trace_eq rfl
  exact hqueue.trans (foldl (fun current item => processReceivedPacket _ _ current) _ _)

theorem sendTo (now : Time) (dstAddr : Option Addr) (data : Bytes)
    (server : HktReliableUdpServer Addr) : WithoutSweep server (server.sendTo now dstAddr data) := by
  unfold HktReliableUdpServer.sendTo
  split
  · dsimp only
    split
    · exact of_trace_eq rfl
    · exact emit (by simp [ServerAction.IsSweep])
        ((socketSendTo _ _ server).trans (of_trace_eq rfl))
  · exact of_trace_eq rfl

theorem broadcastToGroup (clock : ℕ → Time) (groupId : Int32) (data : Bytes)
    (excludeAddr : Option Addr) (server : HktReliableUdpServer Addr) :
    WithoutSweep server (server.broadcastToGroup clock groupId data excludeAddr) := by
  unfold HktReliableUdpServer.broadcastToGroup
  split
  · exact of_trace_eq rfl
  · refine foldl (fun current member => ?_) _ server
    dsimp only
    split
    · exact sendTo _ _ _ current
    · exact of_trace_eq rfl

end WithoutSweep

/-! ## A `Tick` drops whoever has reached the limit -/

/-- Dropping a client begins a new life, in which the limit has not been reached; a client that
is not dropped keeps the life that it has. -/
theorem resendLimit_not_mem_foldl_disconnectClient {addrStr : String} (clients : List String)
    {server : HktReliableUdpServer Addr}
    (h : (addrStr ∈ clients ∧ server.connections.contains addrStr = true) ∨
      .resendLimit addrStr ∉ server.life addrStr) :
    .resendLimit addrStr ∉
      (clients.foldl (fun server other => server.disconnectClient other) server).life addrStr := by
  induction clients generalizing server with
  | nil =>
      rcases h with ⟨hmem, -⟩ | hnone
      · simp at hmem
      · exact hnone
  | cons client rest ih =>
      refine ih ?_
      by_cases hsame : client = addrStr ∧ server.connections.contains addrStr = true
      -- the client itself is dropped, and its life ends
      · obtain ⟨rfl, hcontains⟩ := hsame
        refine Or.inr ?_
        rw [HktReliableUdpServer.life, trace_disconnectClient, if_pos hcontains,
          lifeIn_concat_of_bounds (by simp [bounds, ServerAction.isBoundary, ServerAction.key])]
        simp
      · rcases h with ⟨hmem, hcontains⟩ | hnone
        · -- another client is dropped first
          have hne : client ≠ addrStr := fun hclient => hsame ⟨hclient, hcontains⟩
          refine Or.inl ⟨(List.mem_cons.mp hmem).resolve_left hne.symm, ?_⟩
          rw [SparseMap.contains, find_connections_disconnectClient, if_neg hne.symm]
          exact hcontains
        · refine Or.inr fun hmem => ?_
          obtain ⟨actions, htrace, hactions⟩ := WithoutSweep.disconnectClient client server
          rw [HktReliableUdpServer.life, htrace] at hmem
          rcases mem_lifeIn_append hmem with hbefore | haction
          · exact hnone hbefore
          · exact hactions _ haction trivial

theorem LimitFree.checkForResends {server : HktReliableUdpServer Addr}
    (h : LimitFree server.trace) (currentTime : Time) :
    LimitFree (server.checkForResends currentTime).trace := by
  intro addrStr
  obtain ⟨actions, hresends⟩ := resends_resendAll currentTime server
  refine resendLimit_not_mem_foldl_disconnectClient (server.resendAll currentTime).2
    (show (addrStr ∈ (server.resendAll currentTime).2 ∧
        (server.resendAll currentTime).1.connections.contains addrStr = true) ∨
      .resendLimit addrStr ∉ (server.resendAll currentTime).1.life addrStr from ?_)
  by_cases hlimit : .resendLimit addrStr ∈ actions
  · -- who reaches the limit is registered, and on the list
    obtain ⟨-, connection, hfind, hexceeded⟩ := (hresends.resendLimit addrStr).mp hlimit
    rw [connections_emit] at hfind
    refine Or.inl ⟨mem_resendAll_iff.mpr ⟨connection, hfind, ?_⟩, ?_⟩
    · exact (limitExceeded_resendPending_iff _ _).mp hexceeded
    · rw [SparseMap.contains, hresends.find_keys, hfind]
      rfl
  · refine Or.inr fun hmem => ?_
    rw [HktReliableUdpServer.life, hresends.trace, trace_emit] at hmem
    rcases mem_lifeIn_append hmem with hbefore | haction
    · rcases mem_lifeIn_append hbefore with hbefore | hsweep
      · exact h addrStr hbefore
      · simp at hsweep
    · exact hlimit haction

variable [Platform Addr]

theorem LimitFree.step {server : HktReliableUdpServer Addr} (h : LimitFree server.trace)
    (event : ServerEvent Addr) : LimitFree (server.step event).trace := by
  cases event with
  | start bound => exact h
  | stop =>
      simp only [HktReliableUdpServer.step, stop]
      split <;> exact h
  | receive peerAddress receivedData =>
      simp only [HktReliableUdpServer.step, receive]
      split <;> exact h
  | tick clock =>
      have hprocessed := (WithoutSweep.processReceivedPackets clock.packet server).limitFree h
      have hswept := hprocessed.checkForResends clock.resend
      exact (WithoutSweep.foldl (fun current other =>
        WithoutSweep.disconnectClient other current) _ _).limitFree hswept
  | sendTo now dstAddr data => exact (WithoutSweep.sendTo now dstAddr data server).limitFree h
  | broadcastToGroup clock groupId data excludeAddr =>
      exact (WithoutSweep.broadcastToGroup clock groupId data excludeAddr server).limitFree h
  | joinGroup clientAddr groupId =>
      exact (WithoutSweep.of_trace_eq (trace_joinGroup clientAddr groupId server)).limitFree h
  | leaveGroup clientAddr groupId =>
      exact (WithoutSweep.of_trace_eq (trace_leaveGroup clientAddr groupId server)).limitFree h

theorem limitFree_run (events : List (ServerEvent Addr)) :
    LimitFree (run HktReliableUdpServer.step {} events).trace :=
  run_invariant (P := fun server : HktReliableUdpServer Addr => LimitFree server.trace)
    (fun _ => by simp [lifeIn]) (fun _ event h => h.step event) events

/-! ## Packets between two ticks -/

/-- A packet of a registered connection is acknowledged, or its record counts its overdue passes,
and retries are left. -/
theorem acknowledged_or_retried (events : List (ServerEvent Addr)) {addrStr : String}
    {connection : ClientConnection Addr}
    (hfind : (run HktReliableUdpServer.step {} events).connections.find addrStr = some connection)
    (hcount : (sentSequences addrStr
      ((run HktReliableUdpServer.step {} events).life addrStr)).length < 2 ^ 32)
    {earlier later : List (ServerAction Addr)} {s : UInt32} {sentTime : Time}
    (hlife : (run HktReliableUdpServer.step {} events).life addrStr =
      earlier ++ .sentData addrStr s sentTime :: later) :
    (∃ header, .processAck addrStr header ∈ later ∧ s ∈ header.acks) ∨
      ((connection.pendingAckPackets.find s).map PendingPacket.clock =
          some (sweeps sentTime later) ∧ overdueSweeps sentTime later ≤ maxRetries) := by
  have hmoves : Moves anyHeader {} (run HktReliableUdpServer.step {} events) :=
    run_moves step_moves {} events
  have hacks := connectionInvariant_tracksAcks.moves hmoves addrStr connection hfind
  have hclocks := connectionInvariant_tracksClocks.moves hmoves addrStr connection hfind
  by_cases hacked : ∃ header, .processAck addrStr header ∈ later ∧ s ∈ header.acks
  · exact Or.inl hacked
  · have hlater : ∀ entry ∈ later, ¬ Sends addrStr s entry ∧ ¬ Acks addrStr s entry := by
      intro entry hentry
      refine ⟨hacks.sends_once hcount earlier _ later hlife ⟨sentTime, rfl⟩ entry hentry, ?_⟩
      rintro ⟨header, rfl, hmem⟩
      exact hacked ⟨header, hentry, hmem⟩
    -- nothing has touched the packet since, so that its record counts the passes
    have hclock := hclocks.clock_eq (limitFree_run events addrStr) s
    rw [hlife, clockOf_eq_sweeps earlier sentTime hlater] at hclock
    obtain ⟨packet, hpacket, hsweeps⟩ := Option.map_eq_some_iff.mp hclock
    refine Or.inr ⟨hclock, ?_⟩
    calc overdueSweeps sentTime later = packet.retries := congrArg Prod.snd hsweeps.symm
      _ ≤ maxRetries := hclocks.retries_le s packet hpacket

/-! ## The time that this takes -/

/-- The reading of the clock of a pass of `CheckForResends`. -/
def ServerAction.passTime : ServerAction Addr → Option Time
  | .checkForResends currentTime => some currentTime
  | _ => none

/-- The readings of the clock by the passes in a history. -/
def passes (life : List (ServerAction Addr)) : List Time :=
  life.filterMap ServerAction.passTime

omit [Platform Addr] in
theorem sweeps_eq_polls (sentTime : Time) (later : List (ServerAction Addr)) :
    sweeps sentTime later = polls resendTimeout sentTime (passes later) := by
  induction later using List.reverseRecOn with
  | nil => rfl
  | append_singleton before entry ih =>
      rw [sweeps_concat, passes, List.filterMap_append, ih]
      cases entry with
      | checkForResends currentTime => exact (polls_concat _ _ _ currentTime).symm
      | _ => exact congrArg _ (List.append_nil _).symm

/-- **A packet does not stay unsettled for long.**  Where no pass comes more than `frame` after
the one before it, a packet of a registered client is acknowledged once the last pass comes more
than `maxRetries` times `resendTimeout + frame`, and another `resendTimeout`, after the packet was
sent: until then it may be on its way, after that the client would have been dropped. -/
theorem settled_within (events : List (ServerEvent Addr)) {addrStr : String}
    {connection : ClientConnection Addr}
    (hfind : (run HktReliableUdpServer.step {} events).connections.find addrStr = some connection)
    (hcount : (sentSequences addrStr
      ((run HktReliableUdpServer.step {} events).life addrStr)).length < 2 ^ 32)
    {earlier later : List (ServerAction Addr)} {s : UInt32} {sentTime : Time}
    (hlife : (run HktReliableUdpServer.step {} events).life addrStr =
      earlier ++ .sentData addrStr s sentTime :: later)
    {frame : Time} (hframe : 0 ≤ frame) (hpaced : Paced frame sentTime (passes later))
    (hlate : sentTime + maxRetries • (resendTimeout + frame) + resendTimeout <
      latest sentTime (passes later)) :
    ∃ header, .processAck addrStr header ∈ later ∧ s ∈ header.acks := by
  refine (acknowledged_or_retried events hfind hcount hlife).resolve_right ?_
  rintro ⟨-, hretries⟩
  rw [overdueSweeps, sweeps_eq_polls] at hretries
  have htimeout : 0 ≤ resendTimeout := by decide +kernel
  exact absurd hlate (not_lt.mpr (latest_le htimeout hframe hpaced hretries))

/-- A client connects, is sent a packet and acknowledges it before each of eleven ticks. -/
def acknowledgedEveryFrame : List (ServerEvent LoopbackAddr) :=
  [.start true,
    .receive ⟨7778⟩ (PacketHeader.toBytes { type := .connect }),
    .tick ⟨fun _ => 0, 0, 0⟩,
    .sendTo 0 (some ⟨7778⟩) [1]] ++
  (List.range 11).flatMap fun i =>
    [.receive ⟨7778⟩ (PacketHeader.toBytes { type := .ack, lastAckedSequence := 1 }),
      .tick ⟨fun _ => 4 * i + 4, 4 * i + 4, 4 * i + 4⟩]

theorem settled_within_acknowledgedEveryFrame :
    let life := (run HktReliableUdpServer.step {} acknowledgedEveryFrame).life "127.0.0.1:7778"
    ∃ header, .processAck "127.0.0.1:7778" header ∈ life.drop 4 ∧ 1 ∈ header.acks := by
  intro life
  have hsome : ((run HktReliableUdpServer.step {} acknowledgedEveryFrame).connections.find
      "127.0.0.1:7778").isSome := by
    decide +kernel
  obtain ⟨connection, hfind⟩ := Option.isSome_iff_exists.mp hsome
  have hlife : life = life.take 3 ++ .sentData "127.0.0.1:7778" 1 0 :: life.drop 4 := by
    decide +kernel
  have hpasses : passes (life.drop 4) = (List.range 11).map fun i => (0 : Time) + (i + 1) • 4 := by
    decide +kernel
  have hpaced : Paced 4 0 (passes (life.drop 4)) := hpasses ▸ paced_regular 4 0 11
  exact settled_within acknowledgedEveryFrame hfind (by decide +kernel) hlife (by decide) hpaced
    (by decide +kernel)

end HktBase.CustomNet
