import HktBase.Library.SparseMap
import HktBase.Grpc.Session

/-!
# The service

The sessions of `FHktRpcService` and the groups of its `TSessionManager`.  A group lists
pointers to its sessions; a pointer is the place of the session in the list of all
sessions ever created, so that a destroyed one is never mistaken for a later one.

The completion of an operation and a broadcast are steps of their own.  Calls through a
pointer to a destroyed session are recorded.
-/

namespace HktBase.Grpc

/-- `std::unordered_map`. -/
abbrev UnorderedMap (K V : Type) := SparseMap K V

/-- The order in which an iteration visits the pairs of a `std::unordered_map`, which the
standard leaves open. -/
structure VisitOrder (K V : Type) where
  visit : List (K × V) → List (K × V)
  perm : ∀ entries, (visit entries).Perm entries

/-- The pairs are visited in the order in which the map stores them. -/
def VisitOrder.asStored {K V : Type} : VisitOrder K V where
  visit := id
  perm := List.Perm.refl

/-! ## Groups -/

/-- `TGroup`: pointers to sessions under the ids of the sessions. -/
abbrev Group := UnorderedMap UInt64 ℕ

namespace Group

/-- `AddSession`. -/
def addSession (sessionId : UInt64) (session : ℕ) (group : Group) : Group :=
  group.add sessionId session

/-- `RemoveSession`. -/
def removeSession (sessionId : UInt64) (group : Group) : Group :=
  group.remove sessionId

end Group

/-- `FHktRpcService` and its `TSessionManager`. -/
structure RpcService where
  nextSessionId : UInt64 := 1
  sessions : List StreamSession := []
  groups : UnorderedMap Int32 Group := ∅
  /-- The calls through pointers to destroyed sessions. -/
  danglingCalls : List ℕ := []

namespace RpcService

/-- `GetOrCreateGroup`. -/
def getOrCreateGroup (groupId : Int32) (service : RpcService) : Group :=
  (service.groups.find groupId).getD ∅

/-- `RegisterSession`. -/
def registerSession (groupId : Int32) (sessionId : UInt64) (session : ℕ) (service : RpcService) :
    RpcService :=
  { service with
    groups := service.groups.add groupId
      ((service.getOrCreateGroup groupId).addSession sessionId session) }

/-- `UnregisterSession`. -/
def unregisterSession (groupId : Int32) (sessionId : UInt64) (service : RpcService) :
    RpcService :=
  { service with
    groups := service.groups.add groupId
      ((service.getOrCreateGroup groupId).removeSession sessionId) }

/-! ## Sessions -/

/-- `new FStreamSessionHandler`. -/
def newSession (service : RpcService) : RpcService :=
  { service with
    sessions := service.sessions ++ [.start service.nextSessionId]
    nextSessionId := service.nextSessionId + 1 }

/-- The handler behind a pointer, unless it has been destroyed. -/
def handler (session : ℕ) (service : RpcService) : Option StreamSessionHandler :=
  service.sessions[session]?.bind StreamSession.handler

def setSession (session : ℕ) (value : StreamSession) (service : RpcService) : RpcService :=
  { service with sessions := service.sessions.set session value }

/-- `Session->Write`. -/
def writeSession (packet : BehaviorPacket) (service : RpcService) (session : ℕ) : RpcService :=
  match service.sessions[session]? with
  | none => { service with danglingCalls := service.danglingCalls ++ [session] }
  | some value =>
      if value.handler.isSome then service.setSession session (value.write packet)
      else { service with danglingCalls := service.danglingCalls ++ [session] }

/-- `BroadcastToGroup`. -/
def broadcastToGroup (groupId : Int32) (packet : BehaviorPacket) (order : VisitOrder UInt64 ℕ)
    (service : RpcService) : RpcService :=
  match service.groups.find groupId with
  | none => service
  | some group =>
      ((order.visit group.entries).map Prod.snd).foldl (writeSession packet) service

/-- `~FStreamSessionHandler`. -/
def destroyed (handler : StreamSessionHandler) (service : RpcService) : RpcService :=
  if handler.groupId ≠ -1 then service.unregisterSession handler.groupId handler.sessionId
  else service

/-- An operation of a session completes: `FAsyncOperation::Proceed`. -/
def complete (session index : ℕ) (bOk : Bool) (request : SyncRequest) (service : RpcService) :
    RpcService :=
  match service.sessions[session]? with
  | none => service
  | some value =>
      match value.outstanding[index]?, value.handler with
      | none, _ => service
      | some _, none => { service with danglingCalls := service.danglingCalls ++ [session] }
      | some operation, some handler =>
          let service := service.setSession session (value.complete index bOk request)
          if !bOk then service.destroyed handler
          else
            match operation with
            | .connect =>
                service.newSession.registerSession request.groupId handler.sessionId session
            | .write _ => service

end RpcService

/-! ## Runs -/

/-- What happens to the service. -/
inductive ServiceEvent
  /-- `Run` creates the first session of a completion queue. -/
  | run
  | complete (session index : ℕ) (bOk : Bool) (request : SyncRequest)
  | broadcast (groupId : Int32) (packet : BehaviorPacket) (order : VisitOrder UInt64 ℕ)

def RpcService.step (service : RpcService) : ServiceEvent → RpcService
  | .run => service.newSession
  | .complete session index bOk request => service.complete session index bOk request
  | .broadcast groupId packet order => service.broadcastToGroup groupId packet order

end HktBase.Grpc
