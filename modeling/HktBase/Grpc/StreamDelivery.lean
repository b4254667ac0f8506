import HktBase.Grpc.SyncSystem

/-!
# What users see of a group

From the callbacks of a stream back to the log of its group.  The call has made a callback
for each message that it has read (`InPhase`); these are a beginning of what has arrived,
which is a beginning of what the session was passed (`Linked`); and that is a slice of the
log of the group (`Following`).  `Tracks` holds all three of every stream, and a step of the
system changes either the server, where what a session was passed only grows (`Extends`), or
one stream.

As in the log of the group, one `Proceed` of the server is one step.  The steps of the clients
and of the library come between them in any order.
-/

namespace HktBase.Grpc

open Transition TopicLog

/-! ## What a session hands over -/

/-- What a session has handed to the library is a beginning of what it was passed. -/
theorem StreamSession.InStep.sent_prefix {session : StreamSession} {handler : StreamSessionHandler}
    (h : session.InStep handler) :
    session.sent <+: session.written.map createResponseFromPacket := by
  have hwrites : ∀ messages : List SyncResponse,
      (messages.map AsyncOperation.write).filterMap AsyncOperation.message = messages := by
    intro messages
    rw [List.filterMap_map]
    exact List.filterMap_some
  rw [StreamSession.sent, h.outstanding, hwrites, ← h.order]
  exact (List.prefix_append_right_inj _).mpr (List.take_prefix ..)

/-- So is what a session has handed over whose client has come. -/
theorem RpcServer.Following.sent_prefix {joins : List RpcServer.Join} {server : RpcServer}
    (h : RpcServer.Following joins server) {join : RpcServer.Join} (hjoin : join ∈ joins)
    {session : StreamSession} (hsession : server.service.sessions[join.session]? = some session) :
    session.sent <+: session.written.map createResponseFromPacket := by
  cases h.phases join.session session hsession with
  | waiting hnone => exact absurd rfl (hnone join hjoin)
  | refused hnone => exact absurd rfl (hnone join hjoin)
  | live _ _ _ _ _ _ hstep => exact hstep.sent_prefix
  | left _ _ _ _ _ houtstanding _ _ _ hcompleted =>
      rw [StreamSession.sent, houtstanding, List.filterMap_nil, List.append_nil]
      exact hcompleted

/-! ## The phases of a stream -/

/-- The callbacks of a stream that has not finished: none if it failed to start. -/
def Opened (callbacks : List (Status × SyncResponse)) (delivered : List SyncResponse) : Prop :=
  callbacks = callbacksAfter delivered ∨ (callbacks = [] ∧ delivered = [])

namespace SyncCall

/-- How far a stream has come with the messages that it has read. -/
inductive Phase (sync : SyncCall) : Prop
  | created : sync.call.state = .reading → sync.call.started = [.startCall] →
      sync.call.deleted = false → sync.call.callbacks = [] → sync.call.response = {} →
      sync.delivered = [] → Phase sync
  | reading : sync.call.state = .reading → sync.call.started = [.read] →
      sync.call.deleted = false → sync.call.callbacks = callbacksAfter sync.delivered → Phase sync
  | finishing : sync.call.state = .finishing → sync.call.started = [.finish] →
      sync.call.deleted = false → Opened sync.call.callbacks sync.delivered → Phase sync
  | deleted (before : List (Status × SyncResponse)) (last : Status × SyncResponse) :
      sync.call.started = [] → sync.call.deleted = true → Opened before sync.delivered →
      sync.call.callbacks = before ++ [last] → Phase sync

/-- A stream has read no more than what has arrived. -/
structure InPhase (sync : SyncCall) : Prop where
  read_le : sync.read ≤ sync.arrived.length
  phase : sync.Phase

theorem inPhase_create (playerId groupId : Int64) : (create playerId groupId).InPhase where
  read_le := le_rfl
  phase := .created rfl rfl rfl rfl rfl rfl

variable {sync : SyncCall}

/-- What arrives has not been read. -/
theorem InPhase.arrive (h : sync.InPhase) (message : SyncResponse) :
    { sync with arrived := sync.arrived ++ [message] }.InPhase := by
  have hdelivered : { sync with arrived := sync.arrived ++ [message] }.delivered =
      sync.delivered :=
    List.take_append_of_le_length h.read_le
  constructor
  · have hle := h.read_le
    dsimp only
    rw [List.length_append]
    omega
  · cases h.phase with
    | created hstate hstarted hdeleted hcallbacks hresponse hread =>
        exact .created hstate hstarted hdeleted hcallbacks hresponse (hdelivered.trans hread)
    | reading hstate hstarted hdeleted hcallbacks =>
        exact .reading hstate hstarted hdeleted (hdelivered ▸ hcallbacks)
    | finishing hstate hstarted hdeleted hopened =>
        exact .finishing hstate hstarted hdeleted (hdelivered ▸ hopened)
    | deleted before last hstarted hdeleted hopened hcallbacks =>
        exact .deleted before last hstarted hdeleted (hdelivered ▸ hopened) hcallbacks

/-- A session is found for the stream. -/
theorem InPhase.accepted (h : sync.InPhase) (session : Option ℕ) (position : ℕ) :
    { sync with session := session, position := position }.InPhase := by
  refine ⟨h.read_le, ?_⟩
  cases h.phase with
  | created hstate hstarted hdeleted hcallbacks hresponse hread =>
      exact .created hstate hstarted hdeleted hcallbacks hresponse hread
  | reading hstate hstarted hdeleted hcallbacks =>
      exact .reading hstate hstarted hdeleted hcallbacks
  | finishing hstate hstarted hdeleted hopened =>
      exact .finishing hstate hstarted hdeleted hopened
  | deleted before last hstarted hdeleted hopened hcallbacks =>
      exact .deleted before last hstarted hdeleted hopened hcallbacks

theorem completeReader_of_reading (h : sync.call.state = .reading) (operation : ReaderOperation)
    (buffer : SyncResponse) :
    sync.completeReader operation true buffer =
      { sync with
        call := { sync.call with
          started := sync.call.started.erase operation ++ [.read]
          response := buffer
          callbacks := sync.call.callbacks ++ [(.OK, buffer)] } } := by
  simp [completeReader, StreamCall.proceed, h, StreamCall.start, StreamCall.callBack]

theorem completeReader_of_reading_false (h : sync.call.state = .reading)
    (operation : ReaderOperation) (buffer : SyncResponse) :
    sync.completeReader operation false buffer =
      { sync with
        call := { sync.call with
          state := .finishing
          started := sync.call.started.erase operation ++ [.finish]
          response := buffer } } := by
  simp [completeReader, StreamCall.proceed, h, StreamCall.start]

theorem completeReader_of_finishing (h : sync.call.state = .finishing)
    (operation : ReaderOperation) (bOk : Bool) (buffer : SyncResponse) :
    sync.completeReader operation bOk buffer =
      { sync with
        call := { sync.call with
          started := sync.call.started.erase operation
          response := buffer
          callbacks := sync.call.callbacks ++ [(sync.call.status, buffer)]
          deleted := true } } := by
  simp [completeReader, StreamCall.proceed, h, StreamCall.callBack]

/-- The stream starts, which calls back with an empty response, or fails to start.  In either
case the state that the constructor has set, `READING`, is the one that the completion finds. -/
theorem InPhase.startCall (h : sync.InPhase) (bOk : Bool) : (sync.startCall bOk).InPhase := by
  unfold SyncCall.startCall
  split
  · next hhas =>
      cases h.phase with
      | created hstate hstarted hdeleted hcallbacks hresponse hread =>
          cases bOk with
          | true =>
              rw [completeReader_of_reading hstate]
              refine ⟨h.read_le, .reading hstate ?_ hdeleted ?_⟩
              · simp [hstarted]
              · simp only [hcallbacks, hresponse, List.nil_append]
                exact congrArg callbacksAfter hread.symm
          | false =>
              rw [completeReader_of_reading_false hstate]
              refine ⟨h.read_le, .finishing rfl ?_ hdeleted (Or.inr ⟨hcallbacks, hread⟩)⟩
              simp [hstarted]
      | reading _ hother => simp [HasStarted, hother] at hhas
      | finishing _ hother => simp [HasStarted, hother] at hhas
      | deleted _ _ hother => simp [HasStarted, hother] at hhas
  · exact h

/-- The next message is read. -/
theorem InPhase.readNext (h : sync.InPhase) : sync.readNext.InPhase := by
  unfold SyncCall.readNext
  split
  · exact h
  · next message hmessage =>
      split
      · next hhas =>
          obtain ⟨hlt, hget⟩ := List.getElem?_eq_some_iff.mp hmessage
          have hread : sync.arrived.take (sync.read + 1) = sync.delivered ++ [message] := by
            rw [List.take_succ_eq_append_getElem hlt, hget]
            rfl
          cases h.phase with
          | created _ hother => simp [HasStarted, hother] at hhas
          | reading hstate hstarted hdeleted hcallbacks =>
              rw [completeReader_of_reading hstate]
              refine ⟨hlt, .reading hstate ?_ hdeleted ?_⟩
              · simp [hstarted]
              · show sync.call.callbacks ++ [(.OK, message)] =
                  callbacksAfter (sync.arrived.take (sync.read + 1))
                rw [hread, hcallbacks]
                simp [callbacksAfter]
          | finishing _ hother => simp [HasStarted, hother] at hhas
          | deleted _ _ hother => simp [HasStarted, hother] at hhas
      · exact h

/-- There is no further message. -/
theorem InPhase.endOfStream (h : sync.InPhase) (response : SyncResponse) :
    (sync.endOfStream response).InPhase := by
  unfold SyncCall.endOfStream
  split
  · next hhas =>
      cases h.phase with
      | created _ hother => simp [HasStarted, hother] at hhas
      | reading hstate hstarted hdeleted hcallbacks =>
          rw [completeReader_of_reading_false hstate]
          refine ⟨h.read_le, .finishing rfl ?_ hdeleted (Or.inl hcallbacks)⟩
          simp [hstarted]
      | finishing _ hother => simp [HasStarted, hother] at hhas
      | deleted _ _ hother => simp [HasStarted, hother] at hhas
  · exact h

/-- The last callback is made, and the call is deleted. -/
theorem InPhase.finish (h : sync.InPhase) (bOk : Bool) (final : Status) :
    (sync.finish bOk final).InPhase := by
  unfold SyncCall.finish
  split
  · next hhas =>
      cases h.phase with
      | created _ hother => simp [HasStarted, hother] at hhas
      | reading _ hother => simp [HasStarted, hother] at hhas
      | finishing hstate hstarted hdeleted hopened =>
          rw [completeReader_of_finishing (by exact hstate)]
          refine ⟨h.read_le, .deleted sync.call.callbacks _ ?_ rfl hopened rfl⟩
          simp [hstarted]
      | deleted _ _ hother => simp [HasStarted, hother] at hhas
  · exact h

theorem InPhase.transmit (h : sync.InPhase) (server : RpcServer) :
    (sync.transmit server).InPhase := by
  unfold SyncCall.transmit
  split
  · exact h
  · split
    · exact h
    · exact h.arrive _

/-! ## A stream and its session -/

/-- A stream that is served has joined its group with its session, and what has arrived is a
beginning of what the session was passed. -/
structure Linked (joins : List RpcServer.Join) (server : RpcServer) (sync : SyncCall) : Prop where
  unserved : sync.session = none → sync.arrived = [] ∧ sync.position = 0
  served : ∀ session, sync.session = some session →
    ⟨session, sync.groupId, sync.position⟩ ∈ joins ∧
      ∃ value, server.service.sessions[session]? = some value ∧
        sync.arrived <+: value.written.map createResponseFromPacket

theorem linked_create (joins : List RpcServer.Join) (server : RpcServer)
    (playerId groupId : Int64) : (create playerId groupId).Linked joins server where
  unserved _ := ⟨rfl, rfl⟩
  served session hsession := by simp [create] at hsession

variable {joins : List RpcServer.Join} {server next : RpcServer}

theorem Linked.extends (h : sync.Linked joins server) (more : List RpcServer.Join)
    (hnext : server.service.Extends next.service) : sync.Linked (joins ++ more) next where
  unserved := h.unserved
  served session hsession := by
    obtain ⟨hjoin, value, hvalue, harrived⟩ := h.served session hsession
    obtain ⟨found, hfound, hwritten⟩ := hnext session value hvalue
    refine ⟨List.mem_append_left _ hjoin, found, hfound, harrived.trans ?_⟩
    exact hwritten.map createResponseFromPacket

/-- The operations of the reader change nothing of the link. -/
theorem Linked.of_same (h : sync.Linked joins server) {other : SyncCall}
    (hsession : other.session = sync.session) (hgroup : other.groupId = sync.groupId)
    (hposition : other.position = sync.position) (harrived : other.arrived = sync.arrived) :
    other.Linked joins server where
  unserved := by
    rw [hsession, hposition, harrived]
    exact h.unserved
  served := by
    rw [hsession, hgroup, hposition, harrived]
    exact h.served

theorem Linked.startCall (h : sync.Linked joins server) (bOk : Bool) :
    (sync.startCall bOk).Linked joins server := by
  unfold SyncCall.startCall
  split
  · exact h.of_same rfl rfl rfl rfl
  · exact h

theorem Linked.readNext (h : sync.Linked joins server) : sync.readNext.Linked joins server := by
  unfold SyncCall.readNext
  split
  · exact h
  · split
    · exact h.of_same rfl rfl rfl rfl
    · exact h

theorem Linked.endOfStream (h : sync.Linked joins server) (response : SyncResponse) :
    (sync.endOfStream response).Linked joins server := by
  unfold SyncCall.endOfStream
  split
  · exact h.of_same rfl rfl rfl rfl
  · exact h

theorem Linked.finish (h : sync.Linked joins server) (bOk : Bool) (final : Status) :
    (sync.finish bOk final).Linked joins server := by
  unfold SyncCall.finish
  split
  · exact h.of_same rfl rfl rfl rfl
  · exact h

/-- The next message of the session arrives after those that it was passed before: the session
has written it in the order of the log, from the place at which the client joined. -/
theorem Linked.transmit (h : sync.Linked joins server)
    (hfollowing : RpcServer.Following joins server) : (sync.transmit server).Linked joins server := by
  unfold SyncCall.transmit
  split
  · exact h
  · next session hsession =>
      split
      · exact h
      · next message hmessage =>
          obtain ⟨number, hnumber, hfound⟩ := Option.bind_eq_some_iff.mp hsession
          obtain ⟨hjoin, value, hvalue, harrived⟩ := h.served number hnumber
          obtain rfl := Option.some.inj (hvalue.symm.trans hfound)
          have hsent := hfollowing.sent_prefix hjoin hvalue
          constructor
          · simp [hnumber]
          · intro other hother
            obtain rfl := Option.some.inj (hnumber.symm.trans hother)
            refine ⟨hjoin, value, hvalue, ?_⟩
            exact prefix_of_next harrived hsent hmessage

end SyncCall

/-! ## All streams -/

namespace SyncSystem

open RpcServer

/-- Every stream is in a phase and linked to its session. -/
structure Tracks (joins : List Join) (system : SyncSystem) : Prop where
  registered : system.server.Registered
  following : Following joins system.server
  streams : ∀ sync ∈ system.syncCalls, sync.InPhase ∧ sync.Linked joins system.server

theorem tracks_init : Tracks [] {} where
  registered := registered_init
  following := following_init
  streams := by simp

variable {joins : List Join} {system : SyncSystem}

theorem Tracks.server (h : Tracks joins system)
    (hfew : system.server.service.sessions.length < 2 ^ 64) (event : RpcEvent) :
    Tracks (joins ++ (system.server.joined event).toList)
      { system with server := system.server.step event } where
  registered := h.registered.step event
  following := h.following.step h.registered hfew event
  streams sync hsync := by
    obtain ⟨hphase, hlinked⟩ := h.streams sync hsync
    exact ⟨hphase, hlinked.extends _ (extends_step h.registered event)⟩

/-- Something happens to one stream: the others and the server are as they were, so that only
this stream has to be looked at. -/
theorem Tracks.modifySync (h : Tracks joins system) (sync : ℕ) {f : SyncCall → SyncCall}
    (hf : ∀ value : SyncCall, value.InPhase → value.Linked joins system.server →
      (f value).InPhase ∧ (f value).Linked joins system.server) :
    Tracks joins (system.modifySync sync f) where
  registered := h.registered
  following := h.following
  streams value hvalue := by
    obtain ⟨index, hindex⟩ := List.mem_iff_getElem?.mp hvalue
    rw [SyncSystem.modifySync, List.getElem?_modify] at hindex
    obtain ⟨before, hbefore, hchanged⟩ := Option.map_eq_some_iff.mp hindex
    obtain ⟨hphase, hlinked⟩ := h.streams before (List.mem_of_getElem? hbefore)
    split at hchanged
    · obtain rfl := hchanged
      exact hf before hphase hlinked
    · obtain rfl := hchanged
      exact ⟨hphase, hlinked⟩

/-- A session is opened for a stream.  The place in the log at which it joins is recorded in the
stream, and the link to the session begins there. -/
theorem Tracks.accept (h : Tracks joins system)
    (hfew : system.server.service.sessions.length < 2 ^ 64) (sync session index : ℕ) :
    ∃ more, Tracks (joins ++ more) (system.accept sync session index) := by
  unfold SyncSystem.accept
  cases hvalue : system.syncCalls[sync]? with
  | none => exact ⟨[], by rwa [List.append_nil]⟩
  | some value =>
      dsimp only
      split
      · next hguard =>
          obtain ⟨hunserved, hconnect⟩ := hguard
          obtain ⟨hphase, hlinked⟩ := h.streams value (List.mem_of_getElem? hvalue)
          obtain ⟨harrived, -⟩ := hlinked.unserved hunserved
          have hserver := h.server hfew
            (.syncGroup session index value.playerId value.groupId)
          have hjoined := h.following.joined_of_connect hconnect value.playerId value.groupId
          rw [hjoined] at hserver
          refine ⟨_, hserver.registered, hserver.following, fun other hother => ?_⟩
          -- the session is new to every other stream, and this one has been sent nothing yet
          rcases List.mem_or_eq_of_mem_set hother with hold | rfl
          · exact hserver.streams other hold
          · refine ⟨hphase.accepted .., ?_⟩
            constructor
            · simp
            · intro number hnumber
              obtain rfl := Option.some.inj hnumber
              obtain ⟨found, hfound, -⟩ := Option.bind_eq_some_iff.mp hconnect
              obtain ⟨after, hafter, -⟩ := extends_step h.registered
                (.syncGroup session index value.playerId value.groupId) session found hfound
              refine ⟨List.mem_append_right _ (List.mem_singleton_self _), after, hafter, ?_⟩
              dsimp only
              rw [harrived]
              exact List.nil_prefix
      · exact ⟨[], by rwa [List.append_nil]⟩

theorem Tracks.step (h : Tracks joins system)
    (hfew : system.server.service.sessions.length < 2 ^ 64) (event : SyncEvent) :
    ∃ more, Tracks (joins ++ more) (system.step event) := by
  have hmodify : ∀ (sync : ℕ) (f : SyncCall → SyncCall),
      (∀ value : SyncCall, value.InPhase → value.Linked joins system.server →
        (f value).InPhase ∧ (f value).Linked joins system.server) →
      ∃ more, Tracks (joins ++ more) (system.modifySync sync f) := by
    intro sync f hf
    refine ⟨[], ?_⟩
    rw [List.append_nil]
    exact h.modifySync sync hf
  cases event with
  | run => exact ⟨_, h.server hfew .run⟩
  | executeBehavior groupId subjectId behaviorTypeId bytes =>
      refine ⟨[], ?_⟩
      rw [List.append_nil]
      exact ⟨h.registered, h.following, h.streams⟩
  | syncGroup playerId groupId =>
      refine ⟨[], ?_⟩
      rw [List.append_nil]
      refine ⟨h.registered, h.following, fun sync hsync => ?_⟩
      rcases List.mem_append.mp hsync with hold | hnew
      · exact h.streams sync hold
      · obtain rfl := List.mem_singleton.mp hnew
        exact ⟨SyncCall.inPhase_create .., SyncCall.linked_create ..⟩
  | receive sent call index order =>
      simp only [SyncSystem.step, SyncSystem.receive]
      cases system.sentCalls[sent]? with
      | none => exact ⟨[], by rwa [List.append_nil]⟩
      | some value =>
          dsimp only
          split
          · obtain ⟨hregistered, hfollowing, hstreams⟩ := h.server hfew
              (.executeBehavior call index value.groupId (some value.packet) order)
            exact ⟨_, hregistered, hfollowing, hstreams⟩
          · exact ⟨[], by rwa [List.append_nil]⟩
  | accept sync session index => exact h.accept hfew sync session index
  | completeSession session index bOk => exact ⟨_, h.server hfew _⟩
  | completeUnary call index bOk => exact ⟨_, h.server hfew _⟩
  | transmit sync =>
      apply hmodify
      exact fun value hphase hlinked => ⟨hphase.transmit _, hlinked.transmit h.following⟩
  | startCall sync bOk =>
      apply hmodify
      exact fun value hphase hlinked => ⟨hphase.startCall bOk, hlinked.startCall bOk⟩
  | read sync =>
      apply hmodify
      exact fun value hphase hlinked => ⟨hphase.readNext, hlinked.readNext⟩
  | endOfStream sync response =>
      apply hmodify
      exact fun value hphase hlinked => ⟨hphase.endOfStream response, hlinked.endOfStream response⟩
  | finishStream sync bOk final =>
      apply hmodify
      exact fun value hphase hlinked => ⟨hphase.finish bOk final, hlinked.finish bOk final⟩
  | finishCall sent bOk final =>
      refine ⟨[], ?_⟩
      rw [List.append_nil]
      exact ⟨h.registered, h.following, h.streams⟩

/-- What happens in the system is at most one event of the server. -/
theorem server_step (system : SyncSystem) (event : SyncEvent) :
    (system.step event).server = system.server ∨
      ∃ serverEvent, (system.step event).server = system.server.step serverEvent := by
  cases event with
  | run => exact Or.inr ⟨.run, rfl⟩
  | receive sent call index order =>
      simp only [SyncSystem.step, SyncSystem.receive]
      cases system.sentCalls[sent]? with
      | none => exact Or.inl rfl
      | some value =>
          dsimp only
          split
          · exact Or.inr ⟨.executeBehavior call index value.groupId (some value.packet) order, rfl⟩
          · exact Or.inl rfl
  | accept sync session index =>
      simp only [SyncSystem.step, SyncSystem.accept]
      cases system.syncCalls[sync]? with
      | none => exact Or.inl rfl
      | some value =>
          dsimp only
          split
          · exact Or.inr ⟨.syncGroup session index value.playerId value.groupId, rfl⟩
          · exact Or.inl rfl
  | completeSession session index bOk => exact Or.inr ⟨.completeSession session index bOk, rfl⟩
  | completeUnary call index bOk => exact Or.inr ⟨.completeUnary call index bOk, rfl⟩
  | _ => exact Or.inl rfl

theorem registered_server_run (events : List SyncEvent) :
    (run step {} events).server.Registered := by
  apply run_invariant (P := fun system : SyncSystem => system.server.Registered)
  · exact registered_init
  · intro system event h
    rcases system.server_step event with hsame | ⟨serverEvent, hnext⟩
    · rwa [hsame]
    · rw [hnext]
      exact h.step serverEvent

theorem tracks_run {events : List SyncEvent}
    (hfew : (run step {} events).server.service.sessions.length < 2 ^ 64) :
    ∃ joins, Tracks joins (run step {} events) := by
  induction events using List.reverseRecOn with
  | nil => exact ⟨[], tracks_init⟩
  | append_singleton before event ih =>
      rw [run_concat] at hfew ⊢
      have hle : (run step {} before).server.service.sessions.length ≤
          ((run step {} before).step event).server.service.sessions.length := by
        rcases (run step {} before).server_step event with hsame | ⟨serverEvent, hnext⟩
        · rw [hsame]
        · rw [hnext]
          exact length_sessions_step (registered_server_run before) serverEvent
      obtain ⟨joins, h⟩ := ih (hle.trans_lt hfew)
      obtain ⟨more, hmore⟩ := h.step (hle.trans_lt hfew) event
      exact ⟨joins ++ more, hmore⟩

/-! ## What the users see -/

/-- The behaviors of its group that a stream has delivered. -/
def behaviors (server : RpcServer) (sync : SyncCall) : List BehaviorPacket :=
  slice sync.position (sync.position + sync.read) (server.groupLog sync.group)

/-- A stream delivers the behaviors of its group, from the moment at which its session was
opened, in order and without a gap.  The first callback, unless the stream has failed to
start, and the one that is made when it is over belong to no behavior. -/
structure FollowsGroup (server : RpcServer) (sync : SyncCall) : Prop where
  seen : sync.position + sync.read ≤ (server.groupLog sync.group).length
  callbacks : ∀ {β : Type} (createBehavior : BehaviorPacket → β), ∃ front last,
    sync.call.userCallbacks createBehavior = front ++ last ∧
      (front = createBehavior {} :: (behaviors server sync).map createBehavior ∨
        (front = [] ∧ sync.read = 0)) ∧
      last.length = if sync.call.deleted then 1 else 0
  /-- A call waits for one operation until it is deleted. -/
  operations : sync.call.started.length = if sync.call.deleted then 0 else 1
  /-- What the group has seen and the session has not written is queued. -/
  queued : ∀ session value handler, sync.session = some session →
    server.service.sessions[session]? = some value → value.handler = some handler →
      sync.position + value.completed.length + handler.outgoingMessages.length =
        (server.groupLog sync.group).length

variable {sync : SyncCall}

/-- The messages that a stream has delivered are the behaviors of the group, from the place at
which it joined and as many as it has read, in their order. -/
theorem Tracks.delivered_eq (h : Tracks joins system) (hsync : sync ∈ system.syncCalls) :
    sync.position + sync.read ≤ (system.server.groupLog sync.group).length ∧
      sync.delivered = (behaviors system.server sync).map createResponseFromPacket := by
  obtain ⟨hphase, hlinked⟩ := h.streams sync hsync
  have hread := hphase.read_le
  cases hsession : sync.session with
  | none =>
      obtain ⟨harrived, hposition⟩ := hlinked.unserved hsession
      have hzero : sync.read = 0 := by simpa [harrived] using hread
      refine ⟨by omega, ?_⟩
      rw [SyncCall.delivered, behaviors, hzero, List.take_zero, Nat.add_zero, slice_self,
        List.map_nil]
  | some session =>
      obtain ⟨hjoin, value, hvalue, harrived⟩ := hlinked.served session hsession
      obtain ⟨last, hfirst, hlast, hwritten⟩ := h.following.written_slice hjoin hvalue
      have hposition : sync.position ≤ last := hfirst
      -- what has arrived is the beginning of what the session was given
      have hle : sync.arrived.length ≤ last - sync.position := by
        calc sync.arrived.length
            ≤ (value.written.map createResponseFromPacket).length := harrived.length_le
          _ = last - sync.position := by rw [List.length_map, hwritten, length_slice hlast]
      have hend : sync.position + sync.read ≤ last := by omega
      refine ⟨hend.trans hlast, ?_⟩
      calc sync.delivered
          = (value.written.map createResponseFromPacket).take sync.read := by
            obtain ⟨later, hlater⟩ := harrived
            rw [← hlater, List.take_append_of_le_length hread]
            rfl
        _ = (value.written.take sync.read).map createResponseFromPacket := (List.map_take ..).symm
        _ = (behaviors system.server sync).map createResponseFromPacket := by
            rw [hwritten, take_slice, Nat.min_eq_left (by exact hend)]
            rfl

/-- The callbacks of a stream that has not finished, as the user sees them. -/
theorem map_of_opened {β : Type} (createBehavior : BehaviorPacket → β)
    {callbacks : List (Status × SyncResponse)} {packets : List BehaviorPacket}
    (h : Opened callbacks (packets.map createResponseFromPacket)) :
    (callbacks.map fun callback => createBehavior callback.2.packet) =
        createBehavior {} :: packets.map createBehavior ∨
      ((callbacks.map fun callback => createBehavior callback.2.packet) = [] ∧ packets = []) := by
  rcases h with rfl | ⟨rfl, hnone⟩
  · left
    rw [callbacksAfter, List.map_cons, List.map_map, List.map_map]
    rfl
  · exact Or.inr ⟨rfl, List.map_eq_nil_iff.mp hnone⟩

theorem Tracks.followsGroup (h : Tracks joins system) (hsync : sync ∈ system.syncCalls) :
    FollowsGroup system.server sync := by
  obtain ⟨hphase, hlinked⟩ := h.streams sync hsync
  obtain ⟨hseen, hdelivered⟩ := h.delivered_eq hsync
  have hopened : ∀ {β : Type} (createBehavior : BehaviorPacket → β) {callbacks},
      Opened callbacks sync.delivered →
        (callbacks.map fun callback => createBehavior callback.2.packet) =
            createBehavior {} :: (behaviors system.server sync).map createBehavior ∨
          ((callbacks.map fun callback => createBehavior callback.2.packet) = [] ∧
            sync.read = 0) := by
    intro β createBehavior callbacks hcallbacks
    rw [hdelivered] at hcallbacks
    refine (map_of_opened createBehavior hcallbacks).imp_right fun hnone => ⟨hnone.1, ?_⟩
    have hlength := congrArg List.length hnone.2
    rw [behaviors, length_slice hseen, List.length_nil] at hlength
    omega
  refine ⟨hseen, fun createBehavior => ?_, ?_, fun session value handler hsession hvalue hhandler => ?_⟩
  -- the user's callbacks, phase by phase: the last one is made when the call is deleted
  · unfold StreamCall.userCallbacks
    cases hphase.phase with
    | created _ _ hdeleted hcallbacks _ hnone =>
        have hcase := hopened createBehavior (Or.inr ⟨hcallbacks, hnone⟩)
        exact ⟨_, [], (List.append_nil _).symm, hcase, by rw [hdeleted]; rfl⟩
    | reading _ _ hdeleted hcallbacks =>
        have hcase := hopened createBehavior (Or.inl hcallbacks)
        exact ⟨_, [], (List.append_nil _).symm, hcase, by rw [hdeleted]; rfl⟩
    | finishing _ _ hdeleted hcallbacks =>
        have hcase := hopened createBehavior hcallbacks
        exact ⟨_, [], (List.append_nil _).symm, hcase, by rw [hdeleted]; rfl⟩
    | deleted before last _ hdeleted hbefore hcallbacks =>
        have hcase := hopened createBehavior hbefore
        refine ⟨_, [createBehavior last.2.packet], ?_, hcase, by rw [hdeleted]; rfl⟩
        rw [hcallbacks, List.map_append]
        rfl
  · cases hphase.phase with
    | created _ hstarted hdeleted => simp [hstarted, hdeleted]
    | reading _ hstarted hdeleted => simp [hstarted, hdeleted]
    | finishing _ hstarted hdeleted => simp [hstarted, hdeleted]
    | deleted _ _ hstarted hdeleted => simp [hstarted, hdeleted]
  -- given and queued messages together are all that the group has seen
  · obtain ⟨hjoin, -⟩ := hlinked.served session hsession
    obtain ⟨found, hfound, hfollows⟩ := h.following.followsGroup h.registered hjoin
    obtain rfl := Option.some.inj (hvalue.symm.trans hfound)
    obtain ⟨hwritten, horder⟩ := hfollows.live handler hhandler
    have hlength := congrArg List.length horder
    rw [hwritten, List.length_append, List.length_map, List.length_drop] at hlength
    have hgroup : (system.server.groupLog sync.group).length - sync.position =
        value.completed.length + handler.outgoingMessages.length := hlength.symm
    omega

/-- **What users see of a group.**  The server runs one `Proceed` after the other.  Whatever the
clients call, in whatever order calls reach the server, messages arrive, operations complete and
streams fail on either side: as long as the server has created fewer than 2^64 sessions, every
stream follows its group. -/
theorem streams_follow_groups {events : List SyncEvent}
    (hfew : (run step {} events).server.service.sessions.length < 2 ^ 64) :
    ∀ sync ∈ (run step {} events).syncCalls, FollowsGroup (run step {} events).server sync := by
  obtain ⟨joins, h⟩ := tracks_run hfew
  exact fun sync hsync => h.followsGroup hsync

/-- Two users sync a group, a third sends two behaviors to it, and the first stream breaks
before the second one. -/
def twoStreams : List SyncEvent :=
  [.run, .syncGroup 7 1, .syncGroup 8 1, .executeBehavior 1 9 3 [1], .executeBehavior 1 9 3 [2],
    .accept 0 0 0, .startCall 0 true, .receive 1 0 0 .asStored, .accept 1 1 0, .transmit 0, .read 0,
    .completeSession 0 0 false, .receive 0 1 0 .asStored, .endOfStream 0 {},
    .finishStream 0 true ⟨14, ""⟩, .transmit 1, .startCall 1 true, .read 1]

theorem streams_follow_groups_two :
    ∃ first second, (run step {} twoStreams).syncCalls = [first, second] ∧
      FollowsGroup (run step {} twoStreams).server first ∧
      FollowsGroup (run step {} twoStreams).server second := by
  have hlength : (run step {} twoStreams).syncCalls.length = 2 := by decide +kernel
  obtain ⟨first, second, hboth⟩ := List.length_eq_two.mp hlength
  have hfollows := streams_follow_groups
    (show (run step {} twoStreams).server.service.sessions.length < 2 ^ 64 by decide +kernel)
  exact ⟨first, second, hboth, hfollows first (by simp [hboth]), hfollows second (by simp [hboth])⟩

end SyncSystem

end HktBase.Grpc
