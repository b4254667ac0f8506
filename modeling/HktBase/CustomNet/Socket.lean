import HktBase.CustomNet.ClientMoves

/-!
# The socket of a connected client

`bIsConnected` is set by `ProcessReceivedPackets` and cleared by `Disconnect`, and
`ClientSocket` is set by `Connect` and cleared by `Disconnect`; the queue of datagrams
outlives both.  A connected client keeps its socket as long as no call takes one of the
two ways out: a `Connect` that cannot bind a socket while the client is connected, and a
`Tick` without a socket that finds the end of a handshake in the queue.
-/

namespace HktBase.CustomNet

open Transition

variable {Addr : Type}

namespace HktReliableUdpClient

/-! ## The invariant and the calls that keep it -/

/-- A connected client has a socket. -/
def HasSocket (client : HktReliableUdpClient Addr) : Prop :=
  client.bIsConnected = true → client.clientSocket = true

instance (client : HktReliableUdpClient Addr) : Decidable client.HasSocket :=
  inferInstanceAs (Decidable (_ → _))

/-- A connected client has a socket after the call, and in a `Tick` also when
`CheckForResends` is reached. -/
def KeepsSocket [Platform Addr] (client : HktReliableUdpClient Addr) (event : ClientEvent Addr) :
    Prop :=
  (client.step event).HasSocket ∧
    ∀ now, event = .tick now → client.processReceivedPackets.HasSocket

/-- A `Connect` whose socket cannot be bound finds the client unconnected, and a `Tick`
without a socket on an unconnected client finds no end of a handshake in the queue. -/
def SocketSafe (client : HktReliableUdpClient Addr) : ClientEvent Addr → Prop
  | .connect _ bIsValid bound =>
      bIsValid = true → bound = false → client.bIsConnected = false
  | .tick _ =>
      client.clientSocket = false → client.bIsConnected = false →
        ∀ packetData ∈ client.incomingPackets, ¬ CompletesHandshake packetData
  | _ => True

/-- Between the two states no datagram was sent through a null socket. -/
def NoNullSocket (before after : HktReliableUdpClient Addr) : Prop :=
  ClientAction.nullSocket ∈ after.trace → ClientAction.nullSocket ∈ before.trace

theorem noNullSocket_emit (client : HktReliableUdpClient Addr) (action : ClientAction)
    (haction : ClientAction.nullSocket ≠ action) : NoNullSocket client (client.emit action) := by
  intro hmem
  rcases List.mem_append.mp hmem with hmem | hmem
  · exact hmem
  · exact absurd (List.mem_singleton.mp hmem) haction

/-! ## Sending -/

/-- `SendPacket` checks the socket itself. -/
theorem noNullSocket_sendPacket (client : HktReliableUdpClient Addr) (data : Bytes)
    (type : PacketType) (now : Time) :
    NoNullSocket client (client.sendPacket data type now) := by
  by_cases htype : type = .data
  · subst htype
    rw [sendPacket_data]
    split
    · intro hmem
      simpa [afterSend] using hmem
    · exact id
  · rw [sendPacket_control client htype]
    split
    · exact noNullSocket_emit client _ (by simp)
    · exact id

theorem sendPacket_flags (client : HktReliableUdpClient Addr) (data : Bytes) (type : PacketType)
    (now : Time) :
    (client.sendPacket data type now).bIsConnected = client.bIsConnected ∧
      (client.sendPacket data type now).clientSocket = client.clientSocket := by
  by_cases htype : type = .data
  · subst htype
    rw [sendPacket_data]
    split <;> exact ⟨rfl, rfl⟩
  · rw [sendPacket_control client htype]
    split <;> exact ⟨rfl, rfl⟩

theorem hasSocket_sendPacket {client : HktReliableUdpClient Addr} (data : Bytes)
    (type : PacketType) (now : Time) :
    (client.sendPacket data type now).HasSocket ↔ client.HasSocket := by
  obtain ⟨hconnected, hsocket⟩ := sendPacket_flags client data type now
  simp only [HasSocket, hconnected, hsocket]

theorem noNullSocket_disconnect (client : HktReliableUdpClient Addr) :
    NoNullSocket client client.disconnect := by
  intro hmem
  unfold disconnect at hmem
  dsimp only at hmem
  split at hmem
  · exact noNullSocket_sendPacket client [] .disconnect 0 (noNullSocket_emit _ _ (by simp) hmem)
  · exact noNullSocket_emit client .disconnect (by simp) hmem

theorem hasSocket_disconnect (client : HktReliableUdpClient Addr) :
    client.disconnect.HasSocket := by
  intro hconnected
  simp [disconnect, emit] at hconnected

theorem noNullSocket_connect (serverAddr : Addr) (bIsValid bound : Bool)
    (client : HktReliableUdpClient Addr) :
    NoNullSocket client (client.connect serverAddr bIsValid bound).1 := by
  unfold connect
  dsimp only
  split
  · split
    · intro hmem
      have hopened := noNullSocket_sendPacket _ [] .connect 0 hmem
      simpa using hopened
    · exact id
  · exact id

/-- Only a `Connect` that fails to bind takes the socket of a connected client away. -/
theorem hasSocket_connect_iff {client : HktReliableUdpClient Addr} (hclient : client.HasSocket)
    (serverAddr : Addr) (bIsValid bound : Bool) :
    (client.connect serverAddr bIsValid bound).1.HasSocket ↔
      (bIsValid = true → bound = false → client.bIsConnected = false) := by
  cases bIsValid with
  | false => exact iff_of_true hclient (by simp)
  | true =>
      cases bound with
      | true =>
          refine iff_of_true ?_ (by simp)
          exact (hasSocket_sendPacket [] .connect 0).mpr fun _ => rfl
      | false => simp [connect, HasSocket]

/-! ## Resending -/

/-- `CheckForResends` relies on the socket. -/
theorem noNullSocket_checkForResends {client : HktReliableUdpClient Addr}
    (hsocket : client.clientSocket = true) (currentTime : Time) :
    NoNullSocket client (client.checkForResends currentTime) := by
  have hresend : NoNullSocket client (client.afterResend currentTime) := by
    intro hmem
    rcases List.mem_append.mp hmem with hmem | hmem
    · exact hmem
    · obtain ⟨packet, -, hsent⟩ := List.mem_flatMap.mp hmem
      simp [hsocket] at hsent
  rw [checkForResends_eq]
  split
  · exact fun hmem => hresend (noNullSocket_disconnect _ hmem)
  · exact hresend

theorem hasSocket_checkForResends {client : HktReliableUdpClient Addr}
    (hclient : client.HasSocket) (currentTime : Time) :
    (client.checkForResends currentTime).HasSocket := by
  rw [checkForResends_eq]
  split
  · exact hasSocket_disconnect _
  · exact hclient

/-! ## Receiving -/

section

variable [Platform Addr]

/-- What processing datagrams makes of the client: it is connected when it was or when one
of them completes the handshake, and the socket is not touched. -/
structure Processes (packets : List Bytes) (before after : HktReliableUdpClient Addr) : Prop where
  bIsConnected : after.bIsConnected = true ↔
    before.bIsConnected = true ∨ ∃ packetData ∈ packets, CompletesHandshake packetData
  clientSocket : after.clientSocket = before.clientSocket
  noNullSocket : NoNullSocket before after

theorem processes_processReceivedPacket (client : HktReliableUdpClient Addr) (packetData : Bytes) :
    Processes [packetData] client (client.processReceivedPacket packetData) := by
  by_cases hlong : sizeofPacketHeader ≤ packetData.length
  · rw [processReceivedPacket_eq hlong]
    have hpayload : ∀ current : HktReliableUdpClient Addr,
        Processes [] current ((current.processAck
          (PacketHeader.ofBytes packetData)).afterPayload packetData) := by
      intro current
      unfold afterPayload
      dsimp only
      split
      · refine ⟨by simp [emit, processAck, updateReceivedState], rfl, fun hmem => ?_⟩
        simpa [emit, processAck, updateReceivedState] using hmem
      · refine ⟨by simp [emit, processAck], rfl, fun hmem => ?_⟩
        simpa [emit, processAck] using hmem
    -- so only the test for the handshake touches the flag
    obtain ⟨hconnected, hsocket, htrace⟩ := hpayload (client.afterHandshake packetData)
    unfold afterHandshake at hconnected hsocket htrace ⊢
    split at hconnected
    · next hcompletes =>
        rw [if_pos hcompletes] at hsocket htrace ⊢
        refine ⟨?_, hsocket, fun hmem => ?_⟩
        · exact iff_of_true (hconnected.mpr (Or.inl rfl)) (Or.inr (by simp [hcompletes.2]))
        · exact noNullSocket_emit client .handshakeComplete (by simp) (htrace hmem)
    · next hcompletes =>
        rw [if_neg hcompletes] at hsocket htrace ⊢
        refine ⟨?_, hsocket, htrace⟩
        rw [hconnected]
        cases hclient : client.bIsConnected with
        | false =>
            have hnot : ¬ CompletesHandshake packetData := fun h => hcompletes ⟨hclient, h⟩
            simp [hnot]
        | true => simp
  · rw [processReceivedPacket, if_pos (not_le.mp hlong)]
    refine ⟨?_, rfl, id⟩
    have hnot : ¬ CompletesHandshake packetData := fun h => hlong h.1
    simp [hnot]

theorem processes_foldl (packets : List Bytes) (client : HktReliableUdpClient Addr) :
    Processes packets client (packets.foldl processReceivedPacket client) := by
  induction packets generalizing client with
  | nil => exact ⟨by simp, rfl, id⟩
  | cons packetData rest ih =>
      obtain ⟨hfirst, hsocket, htrace⟩ := processes_processReceivedPacket client packetData
      obtain ⟨hrest, hsocketRest, htraceRest⟩ := ih (client.processReceivedPacket packetData)
      rw [List.foldl_cons]
      refine ⟨?_, hsocketRest.trans hsocket, fun hmem => htrace (htraceRest hmem)⟩
      rw [hrest, hfirst]
      simp [or_assoc]

theorem processes_processReceivedPackets (client : HktReliableUdpClient Addr) :
    Processes client.incomingPackets client client.processReceivedPackets := by
  obtain ⟨hconnected, hsocket, htrace⟩ :=
    processes_foldl client.incomingPackets { client with incomingPackets := [] }
  exact ⟨hconnected, hsocket, htrace⟩

/-- `ProcessReceivedPackets` connects a client without a socket exactly when the end of
a handshake is in the queue. -/
theorem hasSocket_processReceivedPackets_iff {client : HktReliableUdpClient Addr}
    (hclient : client.HasSocket) :
    client.processReceivedPackets.HasSocket ↔
      (client.clientSocket = false → client.bIsConnected = false →
        ∀ packetData ∈ client.incomingPackets, ¬ CompletesHandshake packetData) := by
  obtain ⟨hconnected, hsocket, -⟩ := processes_processReceivedPackets client
  unfold HasSocket
  rw [hconnected, hsocket]
  constructor
  · intro h hnull _ packetData hmem hcompletes
    have hopen := h (Or.inr ⟨packetData, hmem, hcompletes⟩)
    simp [hnull] at hopen
  -- a client that was connected before had its socket then, and keeps it
  · rintro h (hbefore | ⟨packetData, hmem, hcompletes⟩)
    · exact hclient hbefore
    · by_contra hnull
      have hclosed : client.clientSocket = false := Bool.not_eq_true _ ▸ hnull
      have hunconnected : client.bIsConnected = false :=
        Bool.eq_false_iff.mpr fun hbefore => hnull (hclient hbefore)
      exact h hclosed hunconnected packetData hmem hcompletes

/-! ## Steps and runs -/

theorem hasSocket_tick {client : HktReliableUdpClient Addr} (now : Time)
    (hprocessed : client.processReceivedPackets.HasSocket) : (client.tick now).HasSocket := by
  unfold tick
  dsimp only
  split
  · exact hasSocket_checkForResends hprocessed now
  · exact hprocessed

theorem noNullSocket_tick {client : HktReliableUdpClient Addr} (now : Time)
    (hprocessed : client.processReceivedPackets.HasSocket) :
    NoNullSocket client (client.tick now) := by
  have hprocess := (processes_processReceivedPackets client).noNullSocket
  unfold tick
  dsimp only
  split
  · next hconnected =>
      intro hmem
      exact hprocess (noNullSocket_checkForResends (hprocessed hconnected) now hmem)
  · exact hprocess

/-- On a client whose connection has a socket, the calls that keep it so are those that
the condition names. -/
theorem keepsSocket_iff {client : HktReliableUdpClient Addr} (hclient : client.HasSocket)
    (event : ClientEvent Addr) : KeepsSocket client event ↔ SocketSafe client event := by
  cases event with
  | connect serverAddr bIsValid bound =>
      simpa [KeepsSocket, SocketSafe, step] using
        hasSocket_connect_iff hclient serverAddr bIsValid bound
  | disconnect =>
      exact iff_of_true ⟨hasSocket_disconnect client, by simp⟩ trivial
  | send now data =>
      refine iff_of_true ⟨?_, by simp⟩ trivial
      simp only [step, send]
      split
      · exact (hasSocket_sendPacket data .data now).mpr hclient
      · exact hclient
  | joinGroup groupId =>
      refine iff_of_true ⟨?_, by simp⟩ trivial
      simp only [step, joinGroup]
      split
      · exact (hasSocket_sendPacket _ .joinGroup 0).mpr hclient
      · exact hclient
  | leaveGroup =>
      refine iff_of_true ⟨?_, by simp⟩ trivial
      simp only [step, leaveGroup]
      split
      · exact (hasSocket_sendPacket [] .leaveGroup 0).mpr hclient
      · exact hclient
  -- the resends come after the queue, and disconnect at most
  | tick now =>
      have hprocess := hasSocket_processReceivedPackets_iff hclient
      constructor
      · intro h
        exact hprocess.mp (h.2 now rfl)
      · intro h
        exact ⟨hasSocket_tick now (hprocess.mpr h), fun _ _ => hprocess.mpr h⟩
  | poll =>
      refine iff_of_true ⟨?_, by simp⟩ trivial
      simp only [step, poll]
      split <;> exact hclient
  | receive packetData =>
      refine iff_of_true ⟨?_, by simp⟩ trivial
      simp only [step, receive]
      split <;> exact hclient

theorem noNullSocket_step {client : HktReliableUdpClient Addr} {event : ClientEvent Addr}
    (hkeeps : KeepsSocket client event) : NoNullSocket client (client.step event) := by
  cases event with
  | connect serverAddr bIsValid bound =>
      exact noNullSocket_connect serverAddr bIsValid bound client
  | disconnect => exact noNullSocket_disconnect client
  | send now data =>
      simp only [step, send]
      split
      · intro hmem
        exact noNullSocket_emit client (.send data) (by simp)
          (noNullSocket_sendPacket _ data .data now hmem)
      · exact id
  | joinGroup groupId =>
      simp only [step, joinGroup]
      split
      · exact noNullSocket_sendPacket client _ .joinGroup 0
      · exact id
  | leaveGroup =>
      simp only [step, leaveGroup]
      split
      · exact noNullSocket_sendPacket client [] .leaveGroup 0
      · exact id
  | tick now => exact noNullSocket_tick now (hkeeps.2 now rfl)
  | poll =>
      simp only [step, poll]
      split
      · exact id
      · exact noNullSocket_emit _ _ (by simp)
  | receive packetData =>
      simp only [step, receive]
      split
      · exact noNullSocket_emit _ _ (by simp)
      · exact id

/-- In a run that keeps the socket of every connection, no datagram meets a null one. -/
theorem nullSocket_notMem_run {events : List (ClientEvent Addr)}
    (hevents : EveryStep step {} KeepsSocket events) :
    ClientAction.nullSocket ∉ (run step ({} : HktReliableUdpClient Addr) events).trace := by
  refine run_invariant_of_everyStep
    (P := fun client => ClientAction.nullSocket ∉ client.trace) (by simp) ?_ hevents
  intro client event hnone hkeeps hmem
  exact hnone (noNullSocket_step hkeeps hmem)

/-- **When a connected client has a socket.**  In a run of a client every state, also the
one in which a `Tick` reaches `CheckForResends`, has a socket if it is connected, and
nothing is sent through a null socket, exactly when no `Connect` fails to bind while the
client is connected and no `Tick` finds the end of a handshake in the queue of an
unconnected client without a socket. -/
theorem connected_has_socket_iff (events : List (ClientEvent Addr)) :
    (EveryStep step {} KeepsSocket events ∧
      ClientAction.nullSocket ∉ (run step ({} : HktReliableUdpClient Addr) events).trace) ↔
      EveryStep step ({} : HktReliableUdpClient Addr) SocketSafe events := by
  have hsafe : EveryStep step ({} : HktReliableUdpClient Addr) KeepsSocket events ↔
      EveryStep step {} SocketSafe events := by
    apply everyStep_iff_of_invariant (P := HasSocket)
    · simp [HasSocket]
    · exact fun client event _ hkeeps => hkeeps.1
    · exact fun client event hclient => keepsSocket_iff hclient event
  rw [← hsafe]
  exact and_iff_left_of_imp nullSocket_notMem_run

end

/-- The server's answer to a Connect, and again to a second one. -/
def staleHandshakeEvents : List (ClientEvent LoopbackAddr) :=
  [.connect ⟨7777⟩ true true, .receive (PacketHeader.toBytes { type := .ack }), .tick 0,
    .send 0 [42], .receive (PacketHeader.toBytes { type := .ack }), .disconnect, .tick 1]

/-- The second Ack waits in the queue over a `Disconnect`: the next `Tick` connects the
client again and resends through a null socket. -/
theorem connected_without_socket :
    ¬ (EveryStep step ({} : HktReliableUdpClient LoopbackAddr) KeepsSocket staleHandshakeEvents ∧
        ClientAction.nullSocket ∉
          (run step ({} : HktReliableUdpClient LoopbackAddr) staleHandshakeEvents).trace) ∧
      ¬ (run step ({} : HktReliableUdpClient LoopbackAddr) staleHandshakeEvents).HasSocket ∧
      ClientAction.nullSocket ∈
        (run step ({} : HktReliableUdpClient LoopbackAddr) staleHandshakeEvents).trace := by
  have hnull : ClientAction.nullSocket ∈
      (run step ({} : HktReliableUdpClient LoopbackAddr) staleHandshakeEvents).trace := by
    decide +kernel
  exact ⟨fun h => h.2 hnull, by decide +kernel, hnull⟩

end HktReliableUdpClient

end HktBase.CustomNet
