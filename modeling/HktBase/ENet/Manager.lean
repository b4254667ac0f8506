import HktBase.Base.Graph
import HktBase.Library.Run

/-!
# The ENet manager

`FENetManager` over the ENet library.  What the library answers is left open: a call of
`enet_host_create` or `enet_host_connect` brings its result, and the events that
`enet_host_service` reports come from outside.  `Tick` is a loop over such events, and a run takes
them one by one: `tick_eq_run`.

The delegates that the loop calls do not call the manager.  A round of the loop is one step, in
which `OnClientDisconnected` and the clearing of `ServerPeer` after it are not told apart, and
`Tick` tests `Host` before the loop and not again.

A trace records the calls of the library and of the delegates.  No function reads it.
Hosts, peers and group names are arbitrary types; the containers are those of the graph.
-/

namespace HktBase.ENet

open Base

/-- The `host` of an `ENetAddress`. -/
inductive AddressHost
  /-- `ENET_HOST_ANY`. -/
  | any
  /-- What `enet_address_set_host` makes of a name. -/
  | named (hostName : String)
  deriving DecidableEq

/-- `ENetAddress`. -/
structure ENetAddress where
  host : AddressHost
  port : UInt16
  deriving DecidableEq

/-- `ENetPacket`, as far as it is filled by `enet_packet_create`. -/
structure ENetPacket where
  data : List UInt8
  flags : UInt32
  deriving DecidableEq

/-- What `enet_host_service` reports. -/
inductive ENetEvent (Peer : Type)
  | none
  | connect (peer : Peer)
  | receive (peer : Peer) (packetData : List UInt8)
  | disconnect (peer : Peer)
  deriving DecidableEq

/-- The calls of the library and of the delegates. -/
inductive ENetAction (Host Peer : Type)
  | hostCreate (address : Option ENetAddress) (peerCount : Int32) (channelLimit : ℕ)
  | hostConnect (host : Host) (address : ENetAddress) (channelCount : ℕ)
  | hostDestroy (host : Host)
  | peerSend (peer : Peer) (channel : ℕ) (packet : ENetPacket)
  | hostBroadcast (host : Host) (channel : ℕ) (packet : ENetPacket)
  | onClientConnected (peer : Peer)
  | onPacketReceived (peer : Peer) (receivedData : List UInt8)
  | onClientDisconnected (peer : Peer)
  deriving DecidableEq

/-- `FENetManager`. -/
structure ENetManager (Host Peer Name : Type) where
  bIsInitialized : Bool
  host : Option Host := none
  serverPeer : Option Peer := none
  clientGroups : TMap Name (List Peer) := ∅
  trace : List (ENetAction Host Peer) := []

variable {Host Peer Name : Type}

namespace ENetManager

/-- The constructor; `initialized` is whether `enet_initialize` has succeeded. -/
def create (initialized : Bool) : ENetManager Host Peer Name :=
  { bIsInitialized := initialized }

def emit (action : ENetAction Host Peer) (manager : ENetManager Host Peer Name) :
    ENetManager Host Peer Name :=
  { manager with trace := manager.trace ++ [action] }

/-! ## Start and stop -/

/-- `StartServer`; `created` is what `enet_host_create` returns. -/
def startServer (port : UInt16) (maxClients : Int32) (created : Option Host)
    (manager : ENetManager Host Peer Name) : ENetManager Host Peer Name × Bool :=
  if !manager.bIsInitialized || manager.host.isSome then (manager, false)
  else
    let manager :=
      { manager with host := created }.emit (.hostCreate (some ⟨.any, port⟩) maxClients 2)
    match created with
    | none => (manager, false)
    | some _ => (manager, true)

/-- `StartClient`; `created` and `connected` are what `enet_host_create` and
`enet_host_connect` return. -/
def startClient (hostName : String) (port : UInt16) (created : Option Host)
    (connected : Option Peer) (manager : ENetManager Host Peer Name) :
    ENetManager Host Peer Name × Bool :=
  if !manager.bIsInitialized || manager.host.isSome then (manager, false)
  else
    let manager := { manager with host := created }.emit (.hostCreate none 1 2)
    match created with
    | none => (manager, false)
    | some host =>
        let manager := { manager with serverPeer := connected }.emit
          (.hostConnect host ⟨.named hostName, port⟩ 2)
        match connected with
        -- the host that has been created stays
        | none => (manager, false)
        | some _ => (manager, true)

/-- `Stop`. -/
def stop (manager : ENetManager Host Peer Name) : ENetManager Host Peer Name :=
  match manager.host with
  | none => manager
  | some host =>
      { manager with clientGroups := ∅, host := none, serverPeer := none }.emit (.hostDestroy host)

/-! ## Sending -/

/-- `SendPacketToPeer`. -/
def sendPacketToPeer (peer : Option Peer) (data : List UInt8) (flags : UInt32)
    (manager : ENetManager Host Peer Name) : ENetManager Host Peer Name :=
  match peer with
  | none => manager
  | some peer => manager.emit (.peerSend peer 0 ⟨data, flags⟩)

/-- `BroadcastPacketToClients`. -/
def broadcastPacketToClients (data : List UInt8) (flags : UInt32)
    (manager : ENetManager Host Peer Name) : ENetManager Host Peer Name :=
  match manager.host with
  | none => manager
  | some host => manager.emit (.hostBroadcast host 0 ⟨data, flags⟩)

/-- `SendPacketToServer`. -/
def sendPacketToServer (data : List UInt8) (flags : UInt32)
    (manager : ENetManager Host Peer Name) : ENetManager Host Peer Name :=
  match manager.serverPeer with
  | none => manager
  | some serverPeer => manager.sendPacketToPeer (some serverPeer) data flags

variable [DecidableEq Name]

/-- `SendPacketToGroup`. -/
def sendPacketToGroup (groupName : Name) (data : List UInt8) (flags : UInt32)
    (manager : ENetManager Host Peer Name) : ENetManager Host Peer Name :=
  match manager.clientGroups.find groupName with
  | none => manager
  | some peersInGroup =>
      peersInGroup.foldl (fun manager peer => manager.sendPacketToPeer (some peer) data flags)
        manager

/-! ## Groups -/

variable [DecidableEq Peer]

/-- `AddPeerToGroup`. -/
def addPeerToGroup (peer : Option Peer) (groupName : Name)
    (manager : ENetManager Host Peer Name) : ENetManager Host Peer Name :=
  match peer with
  | none => manager
  | some peer =>
      -- `FindOrAdd`, and the array is updated in place
      let peersInGroup := (manager.clientGroups.find groupName).getD []
      { manager with
        clientGroups := manager.clientGroups.add groupName (addUnique peersInGroup peer) }

/-- Remove a peer from the array of a group, and the group with its last peer. -/
def removePeer (peer : Peer) (groups : TMap Name (List Peer)) (groupName : Name) :
    TMap Name (List Peer) :=
  match groups.find groupName with
  | none => groups
  | some peersInGroup =>
      let remaining := removeAll peersInGroup peer
      if remaining.length = 0 then (groups.add groupName remaining).remove groupName
      else groups.add groupName remaining

/-- `RemovePeerFromGroup`. -/
def removePeerFromGroup (peer : Option Peer) (groupName : Name)
    (manager : ENetManager Host Peer Name) : ENetManager Host Peer Name :=
  match peer with
  | none => manager
  | some peer => { manager with clientGroups := removePeer peer manager.clientGroups groupName }

/-- `RemovePeerFromAllGroups`: the iterator removes an empty group where it stands. -/
def removePeerFromAllGroups (peer : Option Peer) (manager : ENetManager Host Peer Name) :
    ENetManager Host Peer Name :=
  match peer with
  | none => manager
  | some peer =>
      { manager with
        clientGroups := manager.clientGroups.keys.foldl (removePeer peer) manager.clientGroups }

/-! ## Events -/

/-- The loop body of `Tick`. -/
def handleEvent (event : ENetEvent Peer) (manager : ENetManager Host Peer Name) :
    ENetManager Host Peer Name :=
  match event with
  | .none => manager
  | .connect peer => manager.emit (.onClientConnected peer)
  | .receive peer packetData => manager.emit (.onPacketReceived peer packetData)
  | .disconnect peer =>
      let manager := (manager.removePeerFromAllGroups (some peer)).emit (.onClientDisconnected peer)
      if manager.serverPeer = some peer then { manager with serverPeer := none } else manager

/-- One round of the loop of `Tick`, which is left at once without a host. -/
def service (event : ENetEvent Peer) (manager : ENetManager Host Peer Name) :
    ENetManager Host Peer Name :=
  match manager.host with
  | none => manager
  | some _ => manager.handleEvent event

/-- `Tick`, with the events that `enet_host_service` reports until it has no more. -/
def tick (events : List (ENetEvent Peer)) (manager : ENetManager Host Peer Name) :
    ENetManager Host Peer Name :=
  match manager.host with
  | none => manager
  | some _ => events.foldl (fun manager event => manager.handleEvent event) manager

end ENetManager

/-! ## Runs -/

/-- What is done with a manager: the calls of its public functions, and the events that
`Tick` takes from the library. -/
inductive ManagerEvent (Host Peer Name : Type)
  | startServer (port : UInt16) (maxClients : Int32) (created : Option Host)
  | startClient (hostName : String) (port : UInt16) (created : Option Host)
      (connected : Option Peer)
  | stop
  | service (event : ENetEvent Peer)
  | addPeerToGroup (peer : Option Peer) (groupName : Name)
  | removePeerFromGroup (peer : Option Peer) (groupName : Name)
  | removePeerFromAllGroups (peer : Option Peer)
  | sendPacketToPeer (peer : Option Peer) (data : List UInt8) (flags : UInt32)
  | broadcastPacketToClients (data : List UInt8) (flags : UInt32)
  | sendPacketToServer (data : List UInt8) (flags : UInt32)
  | sendPacketToGroup (groupName : Name) (data : List UInt8) (flags : UInt32)
  deriving DecidableEq

namespace ENetManager

variable [DecidableEq Peer] [DecidableEq Name]

def step (manager : ENetManager Host Peer Name) :
    ManagerEvent Host Peer Name → ENetManager Host Peer Name
  | .startServer port maxClients created => (manager.startServer port maxClients created).1
  | .startClient hostName port created connected =>
      (manager.startClient hostName port created connected).1
  | .stop => manager.stop
  | .service event => manager.service event
  | .addPeerToGroup peer groupName => manager.addPeerToGroup peer groupName
  | .removePeerFromGroup peer groupName => manager.removePeerFromGroup peer groupName
  | .removePeerFromAllGroups peer => manager.removePeerFromAllGroups peer
  | .sendPacketToPeer peer data flags => manager.sendPacketToPeer peer data flags
  | .broadcastPacketToClients data flags => manager.broadcastPacketToClients data flags
  | .sendPacketToServer data flags => manager.sendPacketToServer data flags
  | .sendPacketToGroup groupName data flags => manager.sendPacketToGroup groupName data flags

/-- What a call of a start function returns. -/
def startResult (manager : ENetManager Host Peer Name) :
    ManagerEvent Host Peer Name → Option Bool
  | .startServer port maxClients created =>
      some (manager.startServer port maxClients created).2
  | .startClient hostName port created connected =>
      some (manager.startClient hostName port created connected).2
  | _ => none

theorem host_handleEvent (event : ENetEvent Peer) (manager : ENetManager Host Peer Name) :
    (manager.handleEvent event).host = manager.host := by
  cases event with
  | disconnect peer =>
      unfold handleEvent
      dsimp only
      split <;> rfl
  | _ => rfl

/-- A `Tick` is a run over the events that it takes. -/
theorem tick_eq_run (events : List (ENetEvent Peer)) (manager : ENetManager Host Peer Name) :
    manager.tick events = Transition.run step manager (events.map .service) := by
  unfold Transition.run
  rw [List.foldl_map]
  cases hhost : manager.host with
  | none =>
      have hskip : ∀ event, manager.step (.service event) = manager := by
        intro event
        simp only [step, service, hhost]
      rw [List.foldl_fixed' hskip]
      simp only [tick, hhost]
  | some host =>
      simp only [tick, hhost]
      induction events generalizing manager with
      | nil => rfl
      | cons event rest ih =>
          have hevent : manager.step (.service event) = manager.handleEvent event := by
            simp only [step, service, hhost]
          rw [List.foldl_cons, List.foldl_cons, hevent]
          exact ih _ ((host_handleEvent event manager).trans hhost)

end ENetManager

/-! ## Runs of calls -/

/-- A call of the manager from outside.  A `Tick` is one call: the delegates that it calls do not
call the manager.  `OnClientDisconnected` would find a `ServerPeer` that has come to its end, which
is cleared afterwards, and a delegate that calls `Stop` would leave the loop of `Tick` without a
host. -/
inductive ManagerCall (Host Peer Name : Type)
  /-- `Tick`, with the events that `enet_host_service` reports. -/
  | tick (events : List (ENetEvent Peer))
  /-- Any other public function. -/
  | call (event : ManagerEvent Host Peer Name) (hcall : ∀ reported, event ≠ .service reported)

/-- The rounds of a call; in the last one of a `Tick` there is no event left. -/
def ManagerCall.rounds : ManagerCall Host Peer Name → List (ManagerEvent Host Peer Name)
  | .tick events => events.map .service ++ [.service .none]
  | .call event _ => [event]

namespace ENetManager

variable [DecidableEq Peer] [DecidableEq Name]

def perform (manager : ENetManager Host Peer Name) :
    ManagerCall Host Peer Name → ENetManager Host Peer Name
  | .tick events => manager.tick events
  | .call event _ => manager.step event

/-- A call is the run of its rounds. -/
theorem perform_eq_run (manager : ENetManager Host Peer Name) (call : ManagerCall Host Peer Name) :
    manager.perform call = Transition.run step manager call.rounds := by
  cases call with
  | tick events =>
      have hlast : ∀ manager : ENetManager Host Peer Name,
          manager.step (.service .none) = manager := by
        intro manager
        rw [step, service]
        split <;> rfl
      rw [ManagerCall.rounds, Transition.run_concat, hlast]
      exact tick_eq_run events manager
  | call event _ => rfl

theorem run_perform_eq (manager : ENetManager Host Peer Name)
    (calls : List (ManagerCall Host Peer Name)) :
    Transition.run perform manager calls =
      Transition.run step manager (calls.flatMap ManagerCall.rounds) := by
  induction calls using List.reverseRecOn with
  | nil => rfl
  | append_singleton before call ih =>
      rw [Transition.run_concat, List.flatMap_append, Transition.run_append, ih, perform_eq_run,
        List.flatMap_singleton]

end ENetManager

end HktBase.ENet
