import HktBase.Grpc.Service
import HktBase.Grpc.StreamCall

/-!
# Unary calls

`FUnaryCallHandler` for `ExecuteBehavior`.  A handler asks the library for the next request
when it is created; when the request is there it creates its successor, broadcasts the
packet to the group and starts the answer; when the answer is sent it deletes itself.

`RpcServer` is the service with its handlers, and `RpcEvent` lists what happens to it: the
calls of `FHktRpcProxy::SyncGroup` and `FHktRpcProxy::ExecuteBehavior` that reach it and the
completions of the operations that it has started.  Two parts of the state are there for
the statements only: for which group id a client has opened a session, and what the
handlers have done.

A completion with its whole `Proceed` is one step: the counter of the behavior ids, the list of
the group and the queues of its sessions are not seen in between.  That is how the service runs on
one completion queue, whose worker finishes a `Proceed` before it asks for the next completion.
`RpcWorkers` has the steps of several workers.
-/

namespace HktBase.Grpc

/-! ## The handler -/

/-- `ECallStatus`. -/
inductive CallStatus
  | create
  | process
  | finish
  deriving DecidableEq

/-- `FUnaryCallHandler`. -/
structure UnaryCallHandler where
  status : CallStatus := .create
  request : BehaviorRequest := {}
  deriving DecidableEq

/-- An operation of a handler that the library has accepted and not completed: waiting for
a request, or `Responder.Finish`. -/
inductive UnaryOperation
  | request
  | finish
  deriving DecidableEq

/-- A handler, or nothing where it has been deleted, and its operations. -/
structure UnaryCall where
  handler : Option UnaryCallHandler
  outstanding : List UnaryOperation := []
  deriving DecidableEq

/-- What the handlers do. -/
inductive UnaryAction
  | broadcast (call : ℕ) (groupId : Int32) (packet : BehaviorPacket)
  | finish (call : ℕ)
  | delete (call : ℕ)
  /-- An operation of a deleted handler completes. -/
  | dangling (call : ℕ)
  deriving DecidableEq

/-- `FHktRpcService` with its handlers. -/
structure RpcServer where
  service : RpcService := {}
  unaryCalls : List UnaryCall := []
  /-- The static counter of `Proceed`. -/
  nextBehaviorId : Int32 := 0
  /-- The sessions that clients have opened, with the group ids of `SyncGroup`. -/
  opened : List (ℕ × Int64) := []
  actions : List UnaryAction := []

namespace RpcServer

def emit (action : UnaryAction) (server : RpcServer) : RpcServer :=
  { server with actions := server.actions ++ [action] }

def setUnaryCall (call : ℕ) (value : UnaryCall) (server : RpcServer) : RpcServer :=
  { server with unaryCalls := server.unaryCalls.set call value }

/-- `new FUnaryCallHandler`: the constructor calls `Proceed` on the status CREATE. -/
def newUnaryCall (server : RpcServer) : RpcServer :=
  { server with
    unaryCalls := server.unaryCalls ++
      [{ handler := some { status := .process }, outstanding := [.request] }] }

/-- `delete this`. -/
def deleteUnaryCall (call : ℕ) (value : UnaryCall) (server : RpcServer) : RpcServer :=
  (server.setUnaryCall call { value with handler := none }).emit (.delete call)

/-- The branch of `Proceed` on the status PROCESS: the request is there. -/
def processRequest (call : ℕ) (value : UnaryCall) (handler : UnaryCallHandler)
    (order : VisitOrder UInt64 ℕ) (server : RpcServer) : RpcServer :=
  let server := server.newUnaryCall
  let nextBehaviorId := server.nextBehaviorId + 1
  -- the server gives out the id of the behavior
  let packet := { handler.request.packet with behaviorId := nextBehaviorId.toInt64 }
  let request := { handler.request with packetField := some packet }
  let server := { server with
    nextBehaviorId := nextBehaviorId
    service := server.service.broadcastToGroup request.groupId packet order
  }.emit (.broadcast call request.groupId packet)
  (server.setUnaryCall call
    { handler := some { status := .finish, request := request }
      outstanding := value.outstanding ++ [.finish] }).emit (.finish call)

/-- `Proceed`. -/
def proceed (call : ℕ) (value : UnaryCall) (bOk : Bool) (order : VisitOrder UInt64 ℕ)
    (server : RpcServer) : RpcServer :=
  match value.handler with
  | none => (server.setUnaryCall call value).emit (.dangling call)
  | some handler =>
      if !bOk then server.deleteUnaryCall call value
      else
        match handler.status with
        | .create =>
            server.setUnaryCall call
              { handler := some { handler with status := .process }
                outstanding := value.outstanding ++ [.request] }
        | .process => server.processRequest call value handler order
        | .finish => server.deleteUnaryCall call value

/-- The library completes an operation of a handler; `request` is what it has received if
the operation waits for one. -/
def completeUnary (call index : ℕ) (bOk : Bool) (request : BehaviorRequest)
    (order : VisitOrder UInt64 ℕ) (server : RpcServer) : RpcServer :=
  match server.unaryCalls[call]? with
  | none => server
  | some value =>
      match value.outstanding[index]? with
      | none => server
      | some operation =>
          let value := { value with outstanding := value.outstanding.eraseIdx index }
          match operation with
          | .request =>
              let handler := value.handler.map fun handler => { handler with request := request }
              server.proceed call { value with handler := handler } bOk order
          | .finish => server.proceed call value bOk order

/-! ## The calls of the clients -/

/-- A request for a group, the id of which goes into a 32-bit field. -/
def behaviorRequest (groupId : Int64) (packet : Option BehaviorPacket) : BehaviorRequest :=
  { groupId := groupId.toInt32
    packetField := packet }

/-- The packet that `FHktRpcProxy::ExecuteBehavior` fills in. -/
def executePacket (subjectId : Int64) (behaviorTypeId : Int32) (bytes : List UInt8) :
    BehaviorPacket :=
  { behaviorId := 0
    ownerPlayerId := subjectId
    behaviorTypeId := behaviorTypeId
    payload := bytes }

/-- `FHktRpcProxy::ExecuteBehavior`. -/
def executeBehavior (groupId subjectId : Int64) (behaviorTypeId : Int32) (bytes : List UInt8) :
    BehaviorRequest :=
  behaviorRequest groupId (some (executePacket subjectId behaviorTypeId bytes))

/-- The operation of a session that is outstanding at an index. -/
def operation (session index : ℕ) (server : RpcServer) : Option AsyncOperation :=
  server.service.sessions[session]?.bind fun value => value.outstanding[index]?

/-- The operation of a handler that is outstanding at an index. -/
def unaryOperation (call index : ℕ) (server : RpcServer) : Option UnaryOperation :=
  server.unaryCalls[call]?.bind fun value => value.outstanding[index]?

end RpcServer

/-! ## Runs -/

/-- What happens to the server. -/
inductive RpcEvent
  /-- `Run` creates the first handlers of a completion queue. -/
  | run
  /-- A call of `SyncGroup` reaches a session that waits for a client. -/
  | syncGroup (session index : ℕ) (playerId groupId : Int64)
  /-- A call of `ExecuteBehavior` reaches a handler that waits for a request: any request, with
  the number of the group as its client knows it. -/
  | executeBehavior (call index : ℕ) (groupId : Int64) (packet : Option BehaviorPacket)
      (order : VisitOrder UInt64 ℕ)
  /-- Any other completion of an operation of a session. -/
  | completeSession (session index : ℕ) (bOk : Bool)
  /-- Any other completion of an operation of a handler. -/
  | completeUnary (call index : ℕ) (bOk : Bool)

def RpcServer.step (server : RpcServer) : RpcEvent → RpcServer
  | .run => { server.newUnaryCall with service := server.service.newSession }
  | .syncGroup session index playerId groupId =>
      if server.operation session index = some .connect then
        { server with
          service := server.service.complete session index true
            (StreamCall.syncGroup playerId groupId).request
          opened := server.opened ++
            if (server.service.handler session).isSome then [(session, groupId)] else [] }
      else server
  | .executeBehavior call index groupId packet order =>
      if server.unaryOperation call index = some .request then
        server.completeUnary call index true (RpcServer.behaviorRequest groupId packet) order
      else server
  | .completeSession session index bOk =>
      -- no client, no connection
      if server.operation session index = some .connect ∧ bOk = true then server
      else { server with service := server.service.complete session index bOk {} }
  | .completeUnary call index bOk =>
      if server.unaryOperation call index = some .request ∧ bOk = true then server
      else server.completeUnary call index bOk {} .asStored

end HktBase.Grpc
