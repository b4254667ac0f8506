import HktBase.CustomNet.Delivery
import HktBase.CustomNet.Sessions

/-!
# Which attempt a handshake answers

An unconnected client takes any Ack with `LastAckedSequence` 0 as the answer to its
Connect, also one that the server sent before it had heard anything from the current
attempt.  Where the Ack was sent after the server had heard from the attempt, it had
heard the attempt's Connect, because until its handshake is complete a client sends
nothing else: `connected_means_accepted`.

`AttemptRequests` is the invariant of the client, `Provenance` that of the link: what the
server has heard and what has arrived at the client are datagrams that were sent, and a reply
names no more than the server had heard when it was sent.  `gains_step` says which step can
complete a handshake, and `TurnsConnected.exists_reply` finds the reply that it took.
-/

namespace HktBase.CustomNet

open Transition HktReliableUdpClient

variable {Addr : Type}

/-! ## What an attempt sends before its handshake -/

/-- The request is a Connect. -/
def Request.IsConnect (request : Request) : Prop :=
  (PacketHeader.ofBytes request.packetData).type = .connect

/-- Requests belong to attempts that have begun, and those of an attempt whose handshake
is not complete are Connects. -/
structure AttemptRequests (client : HktReliableUdpClient Addr) : Prop where
  attempt_le : ∀ request ∈ client.requests, request.attempt ≤ client.attempts
  isConnect : client.bIsConnected = false → InAttempt client.trace →
    ∀ request ∈ client.requests, request.attempt = client.attempts → request.IsConnect

theorem requests_append {client next : HktReliableUdpClient Addr} {more : List ClientAction}
    (htrace : next.trace = client.trace ++ more) :
    next.requests = client.requests ++ requestsFrom client.attempts more := by
  rw [requests, htrace, requestsFrom_append, Nat.zero_add]
  rfl

theorem attempts_append {client next : HktReliableUdpClient Addr} {more : List ClientAction}
    (htrace : next.trace = client.trace ++ more) :
    next.attempts = client.attempts + more.count .connect := by
  rw [attempts, htrace, List.count_append]
  rfl

theorem attempt_of_mem_requestsFrom {attempt : ℕ} {actions : List ClientAction}
    (hconnect : .connect ∉ actions) {request : Request}
    (hrequest : request ∈ requestsFrom attempt actions) : request.attempt = attempt := by
  induction actions with
  | nil => simp [requestsFrom] at hrequest
  | cons action rest ih =>
      obtain ⟨hhead, hrest⟩ := not_or.mp (List.mem_cons.not.mp hconnect)
      cases action with
      | connect => exact absurd rfl hhead
      | socketSendTo packetData =>
          rcases List.mem_cons.mp hrequest with rfl | hrequest
          · rfl
          · exact ih hrest hrequest
      | _ => exact ih hrest hrequest

namespace AttemptRequests

variable {client next : HktReliableUdpClient Addr}

/-- What a connected client does in an attempt. -/
theorem of_connected (h : AttemptRequests client) (more : List ClientAction)
    (htrace : next.trace = client.trace ++ more) (hconnect : .connect ∉ more)
    (hconnected : next.bIsConnected = true) : AttemptRequests next := by
  have hattempts : next.attempts = client.attempts := by
    rw [attempts_append htrace, List.count_eq_zero_of_not_mem hconnect, Nat.add_zero]
  refine ⟨fun request hrequest => ?_, fun hfalse => by simp [hconnected] at hfalse⟩
  rw [requests_append htrace] at hrequest
  rw [hattempts]
  rcases List.mem_append.mp hrequest with hrequest | hrequest
  · exact h.attempt_le request hrequest
  · exact (attempt_of_mem_requestsFrom hconnect hrequest).le

/-- An action that is no datagram and neither begins nor ends an attempt. -/
theorem emit (h : AttemptRequests client) {action : ClientAction}
    (htrace : next.trace = client.trace ++ [action])
    (hconnected : next.bIsConnected = client.bIsConnected)
    (hrequests : ∀ attempt, requestsFrom attempt [action] = []) (hconnect : action ≠ .connect) :
    AttemptRequests next := by
  have hattempts : next.attempts = client.attempts := by
    rw [attempts_append htrace, List.count_singleton, if_neg (by simpa using hconnect),
      Nat.add_zero]
  have hsame : next.requests = client.requests := by
    rw [requests_append htrace, hrequests, List.append_nil]
  refine ⟨by rw [hsame, hattempts]; exact h.attempt_le, ?_⟩
  intro hfalse hin
  rw [hsame, hattempts]
  rw [htrace, InAttempt, outstanding_concat, or_iff_right hconnect] at hin
  exact h.isConnect (hconnected ▸ hfalse) hin.1

theorem connect (h : AttemptRequests client) (htrace : next.trace = client.trace ++ [.connect]) :
    AttemptRequests next := by
  have hattempts : next.attempts = client.attempts + 1 := by
    rw [attempts_append htrace]
    rfl
  have hsame : next.requests = client.requests := by
    rw [requests_append htrace]
    exact List.append_nil _
  refine ⟨fun request hrequest => ?_, fun _ _ request hrequest hattempt => ?_⟩
  · have hle := h.attempt_le request (hsame ▸ hrequest)
    omega
  · have hle := h.attempt_le request (hsame ▸ hrequest)
    omega

/-- A control packet of an unconnected client is a Connect. -/
theorem control (h : AttemptRequests client) {type : PacketType} (data : Bytes)
    (hstate : type = .connect ∨ client.bIsConnected = true) :
    AttemptRequests (client.emit (.socketSendTo (client.controlDatagram type data))) := by
  rcases hstate with rfl | hconnected
  -- the request joins the attempt that is under way, and is a Connect
  · have hattempts : (client.emit (.socketSendTo
        (client.controlDatagram .connect data))).attempts = client.attempts := by
      rw [attempts_append (trace_emit client _)]
      rfl
    have hrequests := requests_append (trace_emit client
      (.socketSendTo (client.controlDatagram .connect data)))
    refine ⟨fun request hrequest => ?_, fun hfalse hin request hrequest hattempt => ?_⟩
    · rw [hrequests] at hrequest
      rw [hattempts]
      rcases List.mem_append.mp hrequest with hrequest | hrequest
      · exact h.attempt_le request hrequest
      · exact (attempt_of_mem_requestsFrom (by simp) hrequest).le
    · rw [hrequests] at hrequest
      rw [hattempts] at hattempt
      rw [trace_emit, InAttempt, outstanding_concat, or_iff_right (by simp)] at hin
      rcases List.mem_append.mp hrequest with hrequest | hrequest
      · exact h.isConnect hfalse hin.1 request hrequest hattempt
      · obtain rfl := List.mem_singleton.mp hrequest
        simp [Request.IsConnect, controlDatagram]
  · exact h.of_connected [_] (trace_emit client _) (by simp) hconnected

theorem disconnect (h : AttemptRequests client)
    (htrace : next.trace = client.trace ++ [.disconnect]) : AttemptRequests next := by
  have hattempts : next.attempts = client.attempts := by
    rw [attempts_append htrace]
    rfl
  have hsame : next.requests = client.requests := by
    rw [requests_append htrace]
    exact List.append_nil _
  refine ⟨by rw [hsame, hattempts]; exact h.attempt_le, fun _ hin => ?_⟩
  rw [htrace, InAttempt, outstanding_concat] at hin
  simp at hin

/-- Every move keeps what an unfinished attempt has sent to its Connects. -/
theorem move [Platform Addr] {allowed : HktReliableUdpClient Addr → Prop} {arrives : Bytes → Prop}
    (hmove : Move allowed arrives client next) (h : AttemptRequests client) :
    AttemptRequests next := by
  cases hmove with
  | environment clientSocket serverAddr receiverThread bIsStopping =>
      exact ⟨h.attempt_le, h.isConnect⟩
  | connect serverAddr _ => exact h.connect rfl
  | control data _ hstate => exact h.control data hstate
  | disconnect => exact h.disconnect rfl
  | sendNothing data => exact h.emit rfl rfl (fun _ => rfl) (by simp)
  -- whatever a connected client sends is no concern of an unfinished attempt
  | send now data hconnected =>
      exact h.of_connected [.send data, .socketSendTo (client.dataDatagram data),
        .sentData (client.sentSequence + 1) now] (List.append_assoc ..) (by simp) hconnected
  | receive packetData _ => exact h.emit rfl rfl (fun _ => rfl) (by simp)
  | skip _ _ => exact ⟨h.attempt_le, h.isConnect⟩
  | handshake _ _ _ => exact h.of_connected [.handshakeComplete] rfl (by simp) rfl
  | processAck _ => exact h.emit rfl rfl (fun _ => rfl) (by simp)
  | accept _ _ => exact h.emit rfl rfl (fun _ => rfl) (by simp)
  | poll _ => exact h.emit rfl rfl (fun _ => rfl) (by simp)
  | resend currentTime hconnected =>
      refine h.of_connected (client.resendActions currentTime) rfl (fun hmem => ?_)
        hconnected
      rcases mem_resendActions_cases hmem with ⟨_, hsend⟩ | hsend | ⟨_, hresent⟩
      · exact absurd hsend (by simp)
      · exact absurd hsend (by simp)
      · exact absurd hresent (by simp)

end AttemptRequests

/-! ## When a handshake completes -/

/-- The trace gains actions, and a handshake among them only under the condition `P`. -/
def Gains (P : Prop) (client next : HktReliableUdpClient Addr) : Prop :=
  ∃ more, next.trace = client.trace ++ more ∧ (.handshakeComplete ∈ more → P)

namespace Gains

variable {P : Prop} {client middle next : HktReliableUdpClient Addr}

theorem refl (P : Prop) (client : HktReliableUdpClient Addr) : Gains P client client :=
  ⟨[], by simp, by simp⟩

theorem of_emit {action : ClientAction} (htrace : next.trace = client.trace ++ [action])
    (haction : action ≠ .handshakeComplete) : Gains P client next :=
  ⟨[action], htrace, fun hmem => absurd (List.mem_singleton.mp hmem).symm haction⟩

theorem trans (hfirst : Gains P client middle) (hsecond : Gains P middle next) :
    Gains P client next := by
  obtain ⟨first, htrace, hmore⟩ := hfirst
  obtain ⟨second, hnext, hmore'⟩ := hsecond
  refine ⟨first ++ second, by rw [hnext, htrace, List.append_assoc], fun hmem => ?_⟩
  exact (List.mem_append.mp hmem).elim hmore hmore'

theorem of_mem_drop (h : Gains P client next)
    (hmem : .handshakeComplete ∈ next.trace.drop client.trace.length) : P := by
  obtain ⟨more, htrace, hmore⟩ := h
  rw [htrace, List.drop_left] at hmem
  exact hmore hmem

end Gains

theorem gains_sendPacket {P : Prop} (client : HktReliableUdpClient Addr) (data : Bytes)
    (type : PacketType) (now : Time) : Gains P client (client.sendPacket data type now) := by
  by_cases htype : type = .data
  · subst htype
    rw [sendPacket_data]
    split
    · exact ⟨[.socketSendTo (client.dataDatagram data), .sentData (client.sentSequence + 1) now],
        rfl, by simp⟩
    · exact .refl P client
  · rw [sendPacket_control client htype]
    split
    · exact .of_emit rfl (by simp)
    · exact .refl P client

theorem gains_disconnect {P : Prop} (client : HktReliableUdpClient Addr) :
    Gains P client client.disconnect := by
  unfold HktReliableUdpClient.disconnect
  dsimp only
  split
  · exact (gains_sendPacket client [] .disconnect 0).trans (.of_emit rfl (by simp))
  · exact .of_emit rfl (by simp)

theorem gains_afterResend {P : Prop} (client : HktReliableUdpClient Addr) (currentTime : Time) :
    Gains P client (client.afterResend currentTime) := by
  refine ⟨client.resendActions currentTime, rfl, fun hmem => ?_⟩
  rcases mem_resendActions_cases hmem with ⟨_, hsend⟩ | hsend | ⟨_, hresent⟩
  · exact absurd hsend (by simp)
  · exact absurd hsend (by simp)
  · exact absurd hresent (by simp)

section

variable [Platform Addr]

/-- One packet can complete a handshake only if the client is unconnected and the packet is the
Ack that it waits for; and no packet takes the connection away. -/
theorem gains_processReceivedPacket (client : HktReliableUdpClient Addr) (packetData : Bytes) :
    Gains (client.bIsConnected = false ∧ CompletesHandshake packetData) client
      (client.processReceivedPacket packetData) ∧
    (client.bIsConnected = true → (client.processReceivedPacket packetData).bIsConnected = true) := by
  by_cases hlong : sizeofPacketHeader ≤ packetData.length
  · rw [processReceivedPacket_eq hlong]
    have hpayload : ∀ current : HktReliableUdpClient Addr,
        Gains (client.bIsConnected = false ∧ CompletesHandshake packetData) current
          (current.afterPayload packetData) ∧
        (current.afterPayload packetData).bIsConnected = current.bIsConnected := by
      intro current
      unfold afterPayload
      dsimp only
      split
      · exact ⟨.of_emit rfl (by simp), rfl⟩
      · exact ⟨.refl _ _, rfl⟩
    have hack : ∀ current : HktReliableUdpClient Addr,
        Gains (client.bIsConnected = false ∧ CompletesHandshake packetData) current
          (current.processAck (PacketHeader.ofBytes packetData)) :=
      fun current => .of_emit rfl (by simp)
    -- only the first test can log a handshake
    unfold afterHandshake
    split
    · next hcompletes =>
        refine ⟨?_, fun hconnected => by simp [hcompletes.1] at hconnected⟩
        exact Gains.trans ⟨[.handshakeComplete], rfl, fun _ => hcompletes⟩
          ((hack _).trans (hpayload _).1)
    · refine ⟨(hack _).trans (hpayload _).1, fun hconnected => ?_⟩
      rw [(hpayload _).2]
      exact hconnected
  · rw [processReceivedPacket, if_pos (not_le.mp hlong)]
    exact ⟨.refl _ _, id⟩

theorem gains_foldl_processReceivedPacket (packets : List Bytes)
    (client : HktReliableUdpClient Addr) :
    Gains (client.bIsConnected = false ∧ ∃ packetData ∈ packets, CompletesHandshake packetData)
      client (packets.foldl processReceivedPacket client) := by
  induction packets generalizing client with
  | nil => exact .refl _ _
  | cons packetData rest ih =>
      obtain ⟨⟨first, htrace, hfirst⟩, hstays⟩ := gains_processReceivedPacket client packetData
      obtain ⟨second, hnext, hsecond⟩ := ih (client.processReceivedPacket packetData)
      rw [List.foldl_cons]
      refine ⟨first ++ second, by rw [hnext, htrace, List.append_assoc], fun hmem => ?_⟩
      -- a later packet finds the client unconnected only if all before it left it so
      rcases List.mem_append.mp hmem with hmem | hmem
      · exact ⟨(hfirst hmem).1, packetData, List.mem_cons_self .., (hfirst hmem).2⟩
      · obtain ⟨hconnected, other, hother, hcompletes⟩ := hsecond hmem
        refine ⟨?_, other, List.mem_cons_of_mem _ hother, hcompletes⟩
        cases hclient : client.bIsConnected with
        | false => rfl
        | true => simp [hstays hclient] at hconnected

/-- A handshake completes only in a `Tick` of an unconnected client with a suitable Ack
in its queue. -/
theorem gains_step (client : HktReliableUdpClient Addr) (event : ClientEvent Addr) :
    Gains (client.bIsConnected = false ∧ (∃ now, event = .tick now) ∧
      ∃ packetData ∈ client.incomingPackets, CompletesHandshake packetData)
      client (client.step event) := by
  cases event with
  | connect serverAddr bIsValid bound =>
      simp only [HktReliableUdpClient.step, HktReliableUdpClient.connect]
      split
      · split
        · exact Gains.trans (.of_emit rfl (by simp)) (gains_sendPacket _ [] .connect 0)
        · exact .refl _ client
      · exact .refl _ client
  | disconnect => exact gains_disconnect client
  | send now data =>
      simp only [HktReliableUdpClient.step, HktReliableUdpClient.send]
      split
      · exact Gains.trans (.of_emit rfl (by simp)) (gains_sendPacket _ data .data now)
      · exact .refl _ client
  | joinGroup groupId =>
      simp only [HktReliableUdpClient.step, HktReliableUdpClient.joinGroup]
      split
      · exact gains_sendPacket client _ .joinGroup 0
      · exact .refl _ client
  | leaveGroup =>
      simp only [HktReliableUdpClient.step, HktReliableUdpClient.leaveGroup]
      split
      · exact gains_sendPacket client _ .leaveGroup 0
      · exact .refl _ client
  | tick now =>
      have hprocess := gains_foldl_processReceivedPacket client.incomingPackets
        { client with incomingPackets := [] }
      have hresends : ∀ current : HktReliableUdpClient Addr,
          Gains (client.bIsConnected = false ∧
            ∃ packetData ∈ client.incomingPackets, CompletesHandshake packetData) current
            (if current.bIsConnected then current.checkForResends now else current) := by
        intro current
        split
        · rw [checkForResends_eq]
          split
          · exact (gains_afterResend current now).trans (gains_disconnect _)
          · exact gains_afterResend current now
        · exact .refl _ current
      obtain ⟨more, htrace, hmore⟩ := Gains.trans hprocess (hresends _)
      exact ⟨more, htrace, fun hmem => ⟨(hmore hmem).1, ⟨now, rfl⟩, (hmore hmem).2⟩⟩
  | poll =>
      simp only [HktReliableUdpClient.step, HktReliableUdpClient.poll]
      split
      · exact .refl _ client
      · exact .of_emit rfl (by simp)
  | receive packetData =>
      simp only [HktReliableUdpClient.step, HktReliableUdpClient.receive]
      split
      · exact .of_emit rfl (by simp)
      · exact .refl _ client

end

/-! ## Provenance on the link -/

namespace Link

variable [Platform Addr] {clientAddr : Addr} {link : Link Addr}

/-- The records of the link describe where its datagrams are and where they stem from. -/
structure Provenance (link : Link Addr) : Prop where
  arrived : link.client.incomingPackets = link.arrived.map Reply.packetData
  queued : ∀ request ∈ link.queued, request ∈ link.client.requests
  heard : ∀ request ∈ link.heard, request ∈ link.client.requests
  replies : ∀ reply ∈ link.replies, ∀ request ∈ reply.heard, request ∈ link.heard
  arrived_heard : ∀ reply ∈ link.arrived, ∀ request ∈ reply.heard, request ∈ link.heard
  requests : AttemptRequests link.client

/-- A step of the server: what it hears was in its queue, and what it sends names what it has
heard by then. -/
theorem Provenance.serverStep (h : Provenance link) (event : ServerEvent Addr) :
    Provenance (link.serverStep clientAddr event) := by
  have hgrows : ∀ request ∈ link.heard, request ∈ (link.serverStep clientAddr event).heard := by
    intro request hrequest
    rcases link.serverStep_cases clientAddr event with ⟨hheard, -⟩ | ⟨hheard, -⟩
    · rwa [hheard]
    · rw [hheard]
      exact List.mem_append_left _ hrequest
  -- a `Tick` moves the queue of the server to what it has heard; nothing else moves a request
  refine ⟨h.arrived, ?_, ?_, ?_, ?_, h.requests⟩
  · intro request hrequest
    rcases link.serverStep_cases clientAddr event with ⟨-, hqueued⟩ | ⟨-, hqueued⟩
    · rw [hqueued] at hrequest
      exact h.queued request hrequest
    · rw [hqueued] at hrequest
      simp at hrequest
  · intro request hrequest
    rcases link.serverStep_cases clientAddr event with ⟨hheard, -⟩ | ⟨hheard, -⟩
    · rw [hheard] at hrequest
      exact h.heard request hrequest
    · rw [hheard] at hrequest
      rcases List.mem_append.mp hrequest with hrequest | hrequest
      · exact h.heard request hrequest
      · exact h.queued request hrequest
  · intro reply hreply request hrequest
    rcases List.mem_append.mp hreply with hreply | hreply
    · exact hgrows request (h.replies reply hreply request hrequest)
    · rw [(exists_socketSendTo_of_mem_repliesIn hreply).1] at hrequest
      exact hrequest
  · intro reply hreply request hrequest
    exact hgrows request (h.arrived_heard reply hreply request hrequest)

theorem requests_step_subset (client : HktReliableUdpClient Addr) (event : ClientEvent Addr)
    {request : Request} (hrequest : request ∈ client.requests) :
    request ∈ (client.step event).requests := by
  obtain ⟨more, htrace, -⟩ := gains_step client event
  rw [requests_append htrace]
  exact List.mem_append_left _ hrequest

theorem attemptRequests_step {client : HktReliableUdpClient Addr} (h : AttemptRequests client)
    (event : ClientEvent Addr) : AttemptRequests (client.step event) :=
  preserved_of_moves (P := AttemptRequests) (fun _ _ => AttemptRequests.move)
    (HktReliableUdpClient.step_moves client event) h

theorem Provenance.clientStep (h : Provenance link) {event : ClientEvent Addr}
    (hcall : event.IsCall) : Provenance (link.clientStep event) := by
  have harrived : (link.client.step event).incomingPackets =
      (link.clientStep event).arrived.map Reply.packetData := by
    cases event with
    | tick now => exact incomingPackets_tick link.client now
    | receive packetData => exact hcall.elim
    | _ => exact (incomingPackets_step link.client _ (by simp) (by simp)).trans h.arrived
  refine ⟨harrived, ?_, ?_, h.replies, ?_, attemptRequests_step h.requests event⟩
  · exact fun request hrequest => requests_step_subset _ event (h.queued request hrequest)
  · exact fun request hrequest => requests_step_subset _ event (h.heard request hrequest)
  · intro reply hreply
    cases event with
    | tick now => simp [Link.clientStep] at hreply
    | _ => exact h.arrived_heard reply hreply

theorem Provenance.step (h : Provenance link) (event : LinkEvent clientAddr) :
    Provenance (link.step event) := by
  cases event with
  | server event => exact h.serverStep event
  | client event => exact h.clientStep event.2
  | toServer i =>
      simp only [Link.step]
      split
      · exact h
      · next request hrequest =>
          refine ⟨h.arrived, fun other hother => ?_, h.heard, h.replies, h.arrived_heard,
            h.requests⟩
          dsimp only at hother
          split at hother
          · rcases List.mem_append.mp hother with hother | hother
            · exact h.queued other hother
            · rw [List.mem_singleton.mp hother]
              exact List.mem_of_getElem? hrequest
          · exact h.queued other hother
  | toClient i =>
      simp only [Link.step]
      split
      · exact h
      · next reply hreply =>
          -- the reply that arrives was sent after the server had heard what it names
          refine ⟨?_, ?_, ?_, h.replies, fun other hother => ?_,
            attemptRequests_step h.requests (.receive reply.packetData)⟩
          · simp only [HktReliableUdpClient.receive]
            split
            · simp [HktReliableUdpClient.emit, h.arrived]
            · exact h.arrived
          · exact fun request hrequest => requests_step_subset _ (.receive reply.packetData)
              (h.queued request hrequest)
          · exact fun request hrequest => requests_step_subset _ (.receive reply.packetData)
              (h.heard request hrequest)
          · dsimp only at hother
            split at hother
            · rcases List.mem_append.mp hother with hother | hother
              · exact h.arrived_heard other hother
              · rw [List.mem_singleton.mp hother]
                exact h.replies reply (List.mem_of_getElem? hreply)
            · exact h.arrived_heard other hother

theorem provenance_after (events : List (LinkEvent clientAddr)) : Provenance (after events) := by
  refine run_invariant (P := Provenance) ?_ (fun link event h => h.step event) events
  refine ⟨rfl, by simp, by simp, by simp, by simp, by simp [requests, requestsFrom], ?_⟩
  simp [requests, requestsFrom]

/-! ## Connected means accepted -/

/-- The first Ack in the queue that an unconnected client would take as the end of its
handshake was sent after the server had processed a datagram of the current attempt. -/
def AnswersAttempt (link : Link Addr) : Prop :=
  link.client.bIsConnected = false → ∀ reply,
    link.arrived.find? (fun reply => CompletesHandshake reply.packetData) = some reply →
    ∃ request ∈ reply.heard, request.attempt = link.client.attempts

/-- `bIsConnected` turns true in the step. -/
def TurnsConnected (link : Link Addr) (event : LinkEvent clientAddr) : Prop :=
  .handshakeComplete ∈ (link.step event).client.trace.drop link.client.trace.length

/-- The server has processed the Connect of the current attempt. -/
def HasProcessedConnect (link : Link Addr) : Prop :=
  ∃ request ∈ link.heard, request.attempt = link.client.attempts ∧ request.IsConnect

/-- A step that completes a handshake is a `Tick` of an unconnected client that has a
suitable Ack in its queue. -/
theorem TurnsConnected.exists_reply {event : LinkEvent clientAddr} (h : Provenance link)
    (hturns : TurnsConnected link event) :
    (∃ call now, event = .client call ∧ call.1 = .tick now) ∧ link.client.bIsConnected = false ∧
      ∃ reply, link.arrived.find? (fun reply => CompletesHandshake reply.packetData) =
        some reply := by
  unfold TurnsConnected at hturns
  cases event with
  | server event =>
      have hnone : (link.step (.server event)).client.trace.drop link.client.trace.length = [] :=
        List.drop_length
      simp [hnone] at hturns
  -- an arrival at the server does not reach the client
  | toServer i =>
      have hsame : (link.step (.toServer i : LinkEvent clientAddr)).client = link.client := by
        simp only [Link.step]
        split <;> rfl
      simp [hsame] at hturns
  | client call =>
      obtain ⟨hconnected, ⟨now, hnow⟩, packetData, hmem, hcompletes⟩ :=
        (gains_step link.client call.1).of_mem_drop hturns
      refine ⟨⟨call, now, rfl, hnow⟩, hconnected, ?_⟩
      -- the client takes the first suitable Ack that has arrived
      rw [h.arrived] at hmem
      obtain ⟨reply, hreply, rfl⟩ := List.mem_map.mp hmem
      exact Option.isSome_iff_exists.mp
        (List.find?_isSome.mpr ⟨reply, hreply, by simpa using hcompletes⟩)
  | toClient i =>
      simp only [Link.step] at hturns
      split at hturns
      · simp at hturns
      · next reply _ =>
          obtain ⟨-, ⟨now, hnow⟩, -⟩ :=
            (gains_step link.client (.receive reply.packetData)).of_mem_drop hturns
          simp at hnow

/-- **Connected means accepted where the Ack answers the attempt.**  In every run in
which the Ack that a `Tick` takes as the end of an attempt's handshake was sent after
the server had processed some datagram of that attempt: whenever `bIsConnected` turns
true during an attempt, the server has processed the Connect of that attempt. -/
theorem connected_means_accepted {events : List (LinkEvent clientAddr)}
    (hanswers : Historically (fun before event => ∀ call now, event = .client call →
      call.1 = .tick now → InAttempt (after before).client.trace →
      AnswersAttempt (after before)) events) :
    Historically (fun before event => InAttempt (after before).client.trace →
      TurnsConnected (after before) event → HasProcessedConnect (after before)) events := by
  intro before event later hevents hin hturns
  have hprovenance := provenance_after before
  obtain ⟨⟨call, now, hevent, hnow⟩, hconnected, reply, hreply⟩ := hturns.exists_reply hprovenance
  obtain ⟨request, hrequest, hattempt⟩ :=
    hanswers before event later hevents call now hevent hnow hin hconnected reply hreply
  have hheard := hprovenance.arrived_heard reply (List.mem_of_find?_eq_some hreply) request hrequest
  refine ⟨request, hheard, hattempt, ?_⟩
  exact hprovenance.requests.isConnect hconnected hin request (hprovenance.heard request hheard)
    hattempt

/-- A clean attempt: the client connects once, and its Connect is answered. -/
theorem connected_means_accepted_connectEvents :
    Historically (fun before event => InAttempt (after before).client.trace →
      TurnsConnected (after before) event → HasProcessedConnect (after before)) connectEvents := by
  refine connected_means_accepted ?_
  simp only [connectEvents, historically_cons, historically_nil, reduceCtorEq, false_implies,
    implies_true, true_and, and_true, LinkEvent.client.injEq]
  refine ⟨?_, ?_⟩
  · rintro call now rfl hcall
    simp at hcall
  · rintro call now rfl - - - reply hreply
    have hfirst : (after (connectEvents.take 5)).arrived.find?
        (fun reply => CompletesHandshake reply.packetData) =
        some ⟨[⟨1, PacketHeader.toBytes { type := .connect }⟩],
          PacketHeader.toBytes { type := .ack }⟩ := by
      decide +kernel
    obtain rfl := Option.some.inj (hfirst.symm.trans hreply)
    refine ⟨_, List.mem_singleton_self _, ?_⟩
    have hattempts : (after (connectEvents.take 5)).client.attempts = 1 := by decide +kernel
    exact hattempts.symm

/-- The Ack of the first attempt waits in the queue over a `Disconnect`, and the Connect
of the second attempt is lost. -/
def staleAckEvents : List (LinkEvent (⟨7778⟩ : LoopbackAddr)) :=
  [.server ⟨.start true, trivial⟩, .client ⟨.connect ⟨7777⟩ true true, trivial⟩, .toServer 0,
    .server ⟨.tick ⟨fun _ => 0, 0, 0⟩, trivial⟩, .toClient 0, .client ⟨.disconnect, trivial⟩,
    .client ⟨.connect ⟨7777⟩ true true, trivial⟩]

theorem stale_ack_connects :
    ¬ Historically (fun before event => InAttempt (after before).client.trace →
      TurnsConnected (after before) event → HasProcessedConnect (after before))
      (staleAckEvents ++ [.client ⟨.tick 1, trivial⟩]) := by
  intro h
  have hin : InAttempt (after staleAckEvents).client.trace := by
    refine ⟨(after staleAckEvents).client.trace.take 4, .connect,
      (after staleAckEvents).client.trace.drop 5, ?_, rfl, ?_⟩ <;> decide +kernel
  have hturns : TurnsConnected (after staleAckEvents)
      (.client ⟨.tick 1, trivial⟩ : LinkEvent (⟨7778⟩ : LoopbackAddr)) := by
    unfold TurnsConnected
    decide +kernel
  obtain ⟨request, hrequest, hattempt, -⟩ := (historically_concat.mp h).2 hin hturns
  have hstale : ∀ request ∈ (after staleAckEvents).heard,
      request.attempt ≠ (after staleAckEvents).client.attempts := by
    decide +kernel
  exact hstale request hrequest hattempt

end Link

end HktBase.CustomNet
