import HktBase.Grpc.GroupLog

/-!
# Clients and the server

The calls that all the `FHktRpcProxy`s make, and the service that they reach.  The library
between them hands each call to at most one handler or session that waits for one, carries
the messages of a stream in order, one by one and whenever it likes, completes the
operations that the calls have started, and reports a call as answered only if a handler
has answered it.  A stream may fail on either side at any moment.

Of the state three parts are there for the statements only: how many behaviors a group had
seen when a session was opened for a stream, which messages have arrived at its client, and
how many of them the client has read.

The file defines the steps and what follows from them at once; what holds of all runs is in the
files on delivery and on the end of the calls.
-/

namespace HktBase.Grpc

open Transition

/-! ## The calls of the clients -/

/-- `FUnaryCall` for `ExecuteBehavior`, with its `Finish` and the calls of `Cb`. -/
structure ExecuteCall where
  status : Status := {}
  /-- `Finish` has not completed. -/
  waiting : Bool := true
  callbacks : List Status := []
  deleted : Bool := false
  deriving DecidableEq

/-- `Proceed`. -/
def ExecuteCall.proceed (bOk : Bool) (call : ExecuteCall) : ExecuteCall :=
  let status : Status := if !bOk then ⟨14, "RPC failed or cancelled"⟩ else call.status
  { call with
    status := status
    callbacks := call.callbacks ++ [status]
    deleted := true }

/-- A call of `ExecuteBehavior`, and whether a handler has received it. -/
structure SentCall where
  groupId : Int64
  subjectId : Int64
  behaviorTypeId : Int32
  bytes : List UInt8
  call : ExecuteCall := {}
  received : Bool := false
  deriving DecidableEq

/-- `FHktRpcProxy::ExecuteBehavior`. -/
def SentCall.create (groupId subjectId : Int64) (behaviorTypeId : Int32) (bytes : List UInt8) :
    SentCall :=
  { groupId := groupId
    subjectId := subjectId
    behaviorTypeId := behaviorTypeId
    bytes := bytes }

/-- The packet that the request carries. -/
def SentCall.packet (sent : SentCall) : BehaviorPacket :=
  RpcServer.executePacket sent.subjectId sent.behaviorTypeId sent.bytes

/-- The behavior of a call, under the id that the server gives out after others. -/
def SentCall.behavior (others : ℕ) (sent : SentCall) : BehaviorPacket :=
  { behaviorId := behaviorIdOf others
    ownerPlayerId := sent.subjectId
    behaviorTypeId := sent.behaviorTypeId
    payload := sent.bytes }

/-- A call of `SyncGroup`, with the session that serves it, how many behaviors its group had
seen by the time the session was opened, the messages that have arrived at the client, and
how many of them it has read. -/
structure SyncCall where
  playerId : Int64
  groupId : Int64
  call : StreamCall
  session : Option ℕ := none
  position : ℕ := 0
  arrived : List SyncResponse := []
  read : ℕ := 0
  deriving DecidableEq

/-- `FHktRpcProxy::SyncGroup`. -/
def SyncCall.create (playerId groupId : Int64) : SyncCall :=
  { playerId := playerId
    groupId := groupId
    call := StreamCall.syncGroup playerId groupId }

/-- The group as the messages carry it. -/
def SyncCall.group (sync : SyncCall) : Int32 := sync.groupId.toInt32

/-- The messages that the client has read. -/
def SyncCall.delivered (sync : SyncCall) : List SyncResponse := sync.arrived.take sync.read

/-- The message of a `Writer.Write`. -/
def AsyncOperation.message : AsyncOperation → Option SyncResponse
  | .connect => none
  | .write response => some response

/-- The messages that a session has handed to the library. -/
def StreamSession.sent (session : StreamSession) : List SyncResponse :=
  session.completed ++ session.outstanding.filterMap AsyncOperation.message

/-! ## The system -/

/-- The server and the calls of all clients. -/
structure SyncSystem where
  server : RpcServer := {}
  sentCalls : List SentCall := []
  syncCalls : List SyncCall := []

/-- What happens in the system. -/
inductive SyncEvent
  | run
  | executeBehavior (groupId subjectId : Int64) (behaviorTypeId : Int32) (bytes : List UInt8)
  | syncGroup (playerId groupId : Int64)
  /-- A call of `ExecuteBehavior` reaches a handler. -/
  | receive (sent call index : ℕ) (order : VisitOrder UInt64 ℕ)
  /-- A call of `SyncGroup` reaches a session. -/
  | accept (sync session index : ℕ)
  | completeSession (session index : ℕ) (bOk : Bool)
  | completeUnary (call index : ℕ) (bOk : Bool)
  /-- The next message of a stream arrives at its client. -/
  | transmit (sync : ℕ)
  | startCall (sync : ℕ) (bOk : Bool)
  | read (sync : ℕ)
  /-- A `Read` finds no message. -/
  | endOfStream (sync : ℕ) (response : SyncResponse)
  | finishStream (sync : ℕ) (bOk : Bool) (final : Status)
  | finishCall (sent : ℕ) (bOk : Bool) (final : Status)

namespace SyncCall

/-- An operation of the reader completes; `buffer` is what the library leaves in the
response. -/
def completeReader (operation : ReaderOperation) (bOk : Bool) (buffer : SyncResponse)
    (sync : SyncCall) : SyncCall :=
  { sync with
    call := { sync.call with
      started := sync.call.started.erase operation
      response := buffer }.proceed bOk }

/-- The reader has started the operation. -/
def HasStarted (operation : ReaderOperation) (sync : SyncCall) : Prop :=
  operation ∈ sync.call.started

instance (operation : ReaderOperation) (sync : SyncCall) :
    Decidable (sync.HasStarted operation) :=
  inferInstanceAs (Decidable (operation ∈ sync.call.started))

/-- The library completes `StartCall`. -/
def startCall (bOk : Bool) (sync : SyncCall) : SyncCall :=
  if sync.HasStarted .startCall then sync.completeReader .startCall bOk sync.call.response
  else sync

/-- The library completes a `Read` with a message that has arrived. -/
def readNext (sync : SyncCall) : SyncCall :=
  match sync.arrived[sync.read]? with
  | none => sync
  | some message =>
      if sync.HasStarted .read then
        { sync.completeReader .read true message with read := sync.read + 1 }
      else sync

/-- The library completes a `Read` without a message. -/
def endOfStream (response : SyncResponse) (sync : SyncCall) : SyncCall :=
  if sync.HasStarted .read then sync.completeReader .read false response else sync

/-- The library completes `Finish`. -/
def finish (bOk : Bool) (final : Status) (sync : SyncCall) : SyncCall :=
  if sync.HasStarted .finish then
    { sync with call := { sync.call with status := final } }.completeReader .finish bOk
      sync.call.response
  else sync

/-- The next message of the session arrives. -/
def transmit (server : RpcServer) (sync : SyncCall) : SyncCall :=
  match sync.session.bind fun session => server.service.sessions[session]? with
  | none => sync
  | some session =>
      match session.sent[sync.arrived.length]? with
      | none => sync
      | some message => { sync with arrived := sync.arrived ++ [message] }

end SyncCall

/-- The library completes `Finish`.  It reports an answer only if there is one. -/
def SentCall.finish (bOk : Bool) (final : Status) (sent : SentCall) : SentCall :=
  if sent.call.waiting = true ∧
      (bOk = true → final.errorCode = 0 → sent.received = true) then
    { sent with call := { sent.call with waiting := false, status := final }.proceed bOk }
  else sent

namespace SyncSystem

/-- Something happens to one stream only. -/
def modifySync (sync : ℕ) (f : SyncCall → SyncCall) (system : SyncSystem) : SyncSystem :=
  { system with syncCalls := system.syncCalls.modify sync f }

/-- A handler that waits for a request receives a call. -/
def receive (sent call index : ℕ) (order : VisitOrder UInt64 ℕ) (system : SyncSystem) :
    SyncSystem :=
  match system.sentCalls[sent]? with
  | none => system
  | some value =>
      if value.received = false ∧ system.server.unaryOperation call index = some .request then
        { system with
          server := system.server.step
            (.executeBehavior call index value.groupId (some value.packet) order)
          sentCalls := system.sentCalls.set sent { value with received := true } }
      else system

/-- A session that waits for a client is opened for a call. -/
def accept (sync session index : ℕ) (system : SyncSystem) : SyncSystem :=
  match system.syncCalls[sync]? with
  | none => system
  | some value =>
      if value.session = none ∧ system.server.operation session index = some .connect then
        { system with
          server := system.server.step (.syncGroup session index value.playerId value.groupId)
          syncCalls := system.syncCalls.set sync
            { value with
              session := some session
              position := (system.server.groupLog value.group).length } }
      else system

def step (system : SyncSystem) : SyncEvent → SyncSystem
  | .run => { system with server := system.server.step .run }
  | .executeBehavior groupId subjectId behaviorTypeId bytes =>
      { system with
        sentCalls := system.sentCalls ++
          [SentCall.create groupId subjectId behaviorTypeId bytes] }
  | .syncGroup playerId groupId =>
      { system with syncCalls := system.syncCalls ++ [SyncCall.create playerId groupId] }
  | .receive sent call index order => system.receive sent call index order
  | .accept sync session index => system.accept sync session index
  | .completeSession session index bOk =>
      { system with server := system.server.step (.completeSession session index bOk) }
  | .completeUnary call index bOk =>
      { system with server := system.server.step (.completeUnary call index bOk) }
  | .transmit sync => system.modifySync sync (SyncCall.transmit system.server)
  | .startCall sync bOk => system.modifySync sync (SyncCall.startCall bOk)
  | .read sync => system.modifySync sync SyncCall.readNext
  | .endOfStream sync response => system.modifySync sync (SyncCall.endOfStream response)
  | .finishStream sync bOk final => system.modifySync sync (SyncCall.finish bOk final)
  | .finishCall sent bOk final =>
      { system with sentCalls := system.sentCalls.modify sent (SentCall.finish bOk final) }

end SyncSystem

end HktBase.Grpc
