import Mathlib.Logic.Relation
import HktBase.Grpc.Messages

/-!
# The stream of a group sync

`FHktRpcProxy::SyncGroup` starts an `FStreamCall`, which lives on the completions of
the operations it starts on its reader: `StartCall`, one `Read` after the other, and
`Finish`.  Each completion calls `Proceed`, which acts on the state it is in.

The library that completes the operations is `Completes`: it starts the stream,
delivers the messages in order, and hands over the final status.  What a `Read` without
a message leaves in the buffer is left open.

The state in which the constructor leaves the object is READING, so that the completion
of `StartCall` is taken for that of a `Read`: the first callback is made before the first
message.  The last one is made with the final status, whatever the buffer holds.
-/

namespace HktBase.Grpc

open Relation

/-! ## The call -/

/-- `FStreamCall::EState`. -/
inductive StreamCallState
  | starting
  | reading
  | finishing
  deriving DecidableEq

/-- `grpc::Status`. -/
structure Status where
  errorCode : Int32 := 0
  errorMessage : String := ""
  deriving DecidableEq

/-- `grpc::Status::OK`. -/
def Status.OK : Status := {}

/-- An operation of the reader, whose completion calls `Proceed`. -/
inductive ReaderOperation
  | startCall
  | read
  | finish
  deriving DecidableEq

/-- `FStreamCall`, with the operations that it has started and that have not completed,
and the calls of `Cb`. -/
structure StreamCall where
  request : SyncRequest
  status : Status := {}
  response : SyncResponse := {}
  state : StreamCallState := .starting
  started : List ReaderOperation := []
  callbacks : List (Status × SyncResponse) := []
  deleted : Bool := false
  deriving DecidableEq

namespace StreamCall

def start (operation : ReaderOperation) (call : StreamCall) : StreamCall :=
  { call with started := call.started ++ [operation] }

/-- `Cb(Status, Response)`. -/
def callBack (status : Status) (call : StreamCall) : StreamCall :=
  { call with callbacks := call.callbacks ++ [(status, call.response)] }

/-- The constructor.  Its initializer list replaces the default STARTING. -/
def create (request : SyncRequest) : StreamCall :=
  { request := request, state := .reading : StreamCall }.start .startCall

/-- `Proceed`. -/
def proceed (bOk : Bool) (call : StreamCall) : StreamCall :=
  match call.state with
  | .starting =>
      if bOk then { call with state := .reading }.start .read
      else { call with state := .finishing }.start .finish
  | .reading =>
      if bOk then (call.callBack .OK).start .read
      else { call with state := .finishing }.start .finish
  | .finishing => { call.callBack call.status with deleted := true }

/-- `SyncGroup`.  The group id goes into a 32-bit field. -/
def syncGroup (playerId groupId : Int64) : StreamCall :=
  create { playerId := playerId, groupId := groupId.toInt32 }

/-- What the lambda of `SyncGroup` hands to the user's `Callback`; it ignores the status. -/
def userCallbacks {β : Type} (createBehavior : BehaviorPacket → β) (call : StreamCall) : List β :=
  call.callbacks.map fun callback => createBehavior callback.2.packet

end StreamCall

/-! ## The stream -/

/-- A call and the messages that are still to be delivered to it. -/
structure Stream where
  call : StreamCall
  unread : List SyncResponse

/-- The library completes an operation of a stream that starts and ends with `final`. -/
inductive Completes (final : Status) : Stream → Stream → Prop
  | startCall {call : StreamCall} {unread : List SyncResponse} :
      .startCall ∈ call.started →
      Completes final ⟨call, unread⟩
        ⟨{ call with started := call.started.erase .startCall }.proceed true, unread⟩
  | read {call : StreamCall} {message : SyncResponse} {rest : List SyncResponse} :
      .read ∈ call.started →
      Completes final ⟨call, message :: rest⟩
        ⟨{ call with
          started := call.started.erase .read
          response := message }.proceed true, rest⟩
  | endOfStream {call : StreamCall} (response : SyncResponse) :
      .read ∈ call.started →
      Completes final ⟨call, []⟩
        ⟨{ call with
          started := call.started.erase .read
          response := response }.proceed false, []⟩
  | finish {call : StreamCall} {unread : List SyncResponse} (bOk : Bool) :
      .finish ∈ call.started →
      Completes final ⟨call, unread⟩
        ⟨{ call with
          started := call.started.erase .finish
          status := final }.proceed bOk, unread⟩

/-- The completions of a stream, one after the other. -/
abbrev Completions (final : Status) : Stream → Stream → Prop :=
  ReflTransGen (Completes final)

/-! ## The phases of a call -/

/-- The callbacks made by the time that some messages have been delivered: the first
belongs to no message. -/
def callbacksAfter (delivered : List SyncResponse) : List (Status × SyncResponse) :=
  (.OK, {}) :: delivered.map fun message => (.OK, message)

/-- How far the call has come with the messages. -/
inductive Phase (request : SyncRequest) (messages : List SyncResponse) (final : Status) :
    Stream → Prop
  | created : Phase request messages final ⟨.create request, messages⟩
  | reading {call : StreamCall} {unread : List SyncResponse} (delivered : List SyncResponse) :
      call.state = .reading → call.started = [.read] → call.deleted = false →
      call.callbacks = callbacksAfter delivered → delivered ++ unread = messages →
      Phase request messages final ⟨call, unread⟩
  | finishing {call : StreamCall} :
      call.state = .finishing → call.started = [.finish] → call.deleted = false →
      call.callbacks = callbacksAfter messages →
      Phase request messages final ⟨call, []⟩
  | deleted {call : StreamCall} (last : SyncResponse) :
      call.started = [] → call.callbacks = callbacksAfter messages ++ [(final, last)] →
      Phase request messages final ⟨call, []⟩

variable {request : SyncRequest} {messages : List SyncResponse} {final : Status}

theorem Phase.step {before after : Stream} (h : Phase request messages final before)
    (hcompletes : Completes final before after) : Phase request messages final after := by
  cases h with
  | created =>
      cases hcompletes with
      | startCall =>
          -- the callback for `StartCall`
          exact .reading [] rfl rfl rfl rfl rfl
      | read hstarted => simp [StreamCall.create, StreamCall.start] at hstarted
      | endOfStream _ hstarted => simp [StreamCall.create, StreamCall.start] at hstarted
      | finish _ hstarted => simp [StreamCall.create, StreamCall.start] at hstarted
  | reading delivered hstate hstarted hdeleted hcallbacks hmessages =>
      cases hcompletes with
      | startCall hother => simp [hstarted] at hother
      | @read call message rest _ =>
          refine .reading (delivered ++ [message]) ?_ ?_ ?_ ?_ ?_
          · simp [StreamCall.proceed, hstate, StreamCall.start, StreamCall.callBack]
          · simp [StreamCall.proceed, hstate, StreamCall.start, StreamCall.callBack, hstarted]
          · simp [StreamCall.proceed, hstate, StreamCall.start, StreamCall.callBack, hdeleted]
          · simp [StreamCall.proceed, hstate, StreamCall.start, StreamCall.callBack, hcallbacks,
              callbacksAfter]
          · rw [← hmessages, List.append_assoc, List.singleton_append]
      | endOfStream response _ =>
          rw [List.append_nil] at hmessages
          refine .finishing ?_ ?_ ?_ ?_
          · simp [StreamCall.proceed, hstate, StreamCall.start]
          · simp [StreamCall.proceed, hstate, StreamCall.start, hstarted]
          · simp [StreamCall.proceed, hstate, StreamCall.start, hdeleted]
          · simp [StreamCall.proceed, hstate, StreamCall.start, hcallbacks, hmessages]
      | finish _ hother => simp [hstarted] at hother
  | @finishing call hstate hstarted hdeleted hcallbacks =>
      cases hcompletes with
      | startCall hother => simp [hstarted] at hother
      | endOfStream _ hother => simp [hstarted] at hother
      | finish bOk _ =>
          refine .deleted call.response ?_ ?_
          · simp [StreamCall.proceed, hstate, StreamCall.callBack, hstarted]
          · simp [StreamCall.proceed, hstate, StreamCall.callBack, hcallbacks]
  | deleted last hstarted _ =>
      cases hcompletes with
      | startCall hother => simp [hstarted] at hother
      | endOfStream _ hother => simp [hstarted] at hother
      | finish _ hother => simp [hstarted] at hother

theorem phase_of_completions {stream : Stream}
    (hrun : Completions final ⟨.create request, messages⟩ stream) :
    Phase request messages final stream := by
  induction hrun with
  | refl => exact .created
  | tail _ hlast ih => exact ih.step hlast

/-- The callbacks of a call that is over: one for `StartCall`, one for each message, and
one for `Finish`. -/
theorem callbacks_of_deleted {stream : Stream}
    (hrun : Completions final ⟨.create request, messages⟩ stream)
    (hdeleted : stream.call.deleted = true) :
    ∃ last, stream.call.callbacks = callbacksAfter messages ++ [(final, last)] := by
  cases phase_of_completions hrun with
  | created => simp [StreamCall.create, StreamCall.start] at hdeleted
  | reading _ _ _ hnot => simp [hnot] at hdeleted
  | finishing _ _ hnot => simp [hnot] at hdeleted
  | deleted last _ hcallbacks => exact ⟨last, hcallbacks⟩

/-! ## Every call comes to its end -/

theorem exists_deleted_of_reading (unread : List SyncResponse) {call : StreamCall}
    (hstate : call.state = .reading) (hstarted : call.started = [.read]) :
    ∃ stream, Completions final ⟨call, unread⟩ stream ∧ stream.call.deleted = true := by
  induction unread generalizing call with
  | nil =>
      have hended : Completes final ⟨call, []⟩ _ :=
        .endOfStream call.response (by simp [hstarted])
      refine ⟨_, (ReflTransGen.single hended).tail (.finish true ?_), ?_⟩
      · simp [StreamCall.proceed, hstate, StreamCall.start]
      · simp [StreamCall.proceed, hstate, StreamCall.start]
  | cons message rest ih =>
      have hread : Completes final ⟨call, message :: rest⟩ _ := .read (by simp [hstarted])
      obtain ⟨stream, hrest, hdeleted⟩ := @ih
        ({ call with
          started := call.started.erase .read
          response := message }.proceed true)
        (by simp [StreamCall.proceed, hstate, StreamCall.start, StreamCall.callBack])
        (by simp [StreamCall.proceed, hstate, StreamCall.start, StreamCall.callBack, hstarted])
      exact ⟨stream, ReflTransGen.head hread hrest, hdeleted⟩

theorem exists_deleted (request : SyncRequest) (messages : List SyncResponse) (final : Status) :
    ∃ stream, Completions final ⟨.create request, messages⟩ stream ∧
      stream.call.deleted = true := by
  have hstart : Completes final ⟨.create request, messages⟩ _ :=
    .startCall (by simp [StreamCall.create, StreamCall.start])
  obtain ⟨stream, hrest, hdeleted⟩ := @exists_deleted_of_reading final messages
    ({ StreamCall.create request with
      started := (StreamCall.create request).started.erase .startCall }.proceed true) rfl rfl
  exact ⟨stream, ReflTransGen.head hstart hrest, hdeleted⟩

/-- **The user is never called back once per message.**  Whatever messages a group sync
delivers and however it ends, it does come to its end, and then the user's callback has
not been called once for each message with the behavior of its packet: it was called once
before the first message and once after the last one as well. -/
theorem syncGroup_callbacks_ne {β : Type} (createBehavior : BehaviorPacket → β)
    (playerId groupId : Int64) (messages : List SyncResponse) (final : Status) :
    (∃ stream, Completions final ⟨.syncGroup playerId groupId, messages⟩ stream ∧
      stream.call.deleted = true) ∧
    ∀ stream, Completions final ⟨.syncGroup playerId groupId, messages⟩ stream →
      stream.call.deleted = true →
      stream.call.userCallbacks createBehavior ≠
        messages.map fun message => createBehavior message.packet := by
  refine ⟨exists_deleted _ messages final, fun stream hrun hdeleted hexact => ?_⟩
  obtain ⟨last, hcallbacks⟩ := callbacks_of_deleted hrun hdeleted
  have hlength := congrArg List.length hexact
  rw [StreamCall.userCallbacks, hcallbacks] at hlength
  simp only [callbacksAfter, List.length_map, List.length_append, List.length_cons,
    List.length_nil] at hlength
  omega

/-- A stream without messages calls back twice, each time with the behavior of a packet
that nobody sent. -/
theorem syncGroup_empty_stream :
    ∃ stream, Completions .OK ⟨.syncGroup 1 5, []⟩ stream ∧ stream.call.deleted = true ∧
      stream.call.userCallbacks some ≠ [] := by
  obtain ⟨stream, hrun, hdeleted⟩ := exists_deleted _ [] .OK
  obtain ⟨last, hcallbacks⟩ := callbacks_of_deleted hrun hdeleted
  refine ⟨stream, hrun, hdeleted, ?_⟩
  simp [StreamCall.userCallbacks, hcallbacks]

end HktBase.Grpc
