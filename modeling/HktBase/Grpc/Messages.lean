import Mathlib.Tactic.Common

/-!
# Messages

The messages of `hkt.proto`.  A scalar field that was not set reads as zero, and a
message field that was not set as the message whose fields were not set.
-/

namespace HktBase.Grpc

structure BehaviorPacket where
  behaviorId : Int64 := 0
  ownerPlayerId : Int64 := 0
  behaviorTypeId : Int32 := 0
  payload : List UInt8 := []
  deriving DecidableEq

structure BehaviorRequest where
  groupId : Int32 := 0
  packetField : Option BehaviorPacket := none
  deriving DecidableEq

/-- `BehaviorRequest::packet`. -/
def BehaviorRequest.packet (request : BehaviorRequest) : BehaviorPacket :=
  request.packetField.getD {}

structure SyncRequest where
  playerId : Int64 := 0
  groupId : Int32 := 0
  deriving DecidableEq

structure SyncResponse where
  packetField : Option BehaviorPacket := none
  deriving DecidableEq

/-- `SyncResponse::packet`. -/
def SyncResponse.packet (response : SyncResponse) : BehaviorPacket :=
  response.packetField.getD {}

/-- `FSyncGroupRpcTrait::CreateResponseFromPacket`. -/
def createResponseFromPacket (packet : BehaviorPacket) : SyncResponse :=
  { packetField := some packet }

end HktBase.Grpc
