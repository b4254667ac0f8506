import HktBase.ENet.Groups
import HktBase.ENet.Starts

/-!
# Nothing of the library is used after its end

A host lives from the `enet_host_create` that returns it to its `enet_host_destroy`.  A peer
lives from the `enet_host_connect` that returns it, or from its CONNECT event, to its DISCONNECT
event, or to the end of its host.  The manager keeps pointers to both: `Host`, `ServerPeer` and
the arrays of the groups.  `Custody` says that these are pointers to what is alive, and that it
has never called the library with anything else; every event keeps it, provided that a caller who
passes a peer passes one that is alive.

This covers the start that fails half way: the host that it leaves behind is still the one
that the next `Stop` destroys, so that in the end nothing is left.
-/

namespace HktBase.ENet

open Transition

variable {Host Peer Name : Type}

/-! ## Calls of the library -/

/-- What a call of the library, or an event that it reports, means for hosts and peers. -/
inductive LibraryCall (Host Peer : Type)
  /-- `enet_host_create` has returned a host. -/
  | hostCreated (host : Host)
  | hostUsed (host : Host)
  | hostDestroyed (host : Host)
  | peerOpened (peer : Peer)
  | peerUsed (peer : Peer)
  | peerClosed (peer : Peer)
  deriving DecidableEq

/-- The host was created and has not been destroyed since. -/
def HostLive (host : Host) (log : List (LibraryCall Host Peer)) : Prop :=
  Outstanding (fun call => call = .hostCreated host) (fun call => call = .hostDestroyed host) log

/-- The peer comes to its end, alone or with its host. -/
def LibraryCall.EndsPeer (peer : Peer) : LibraryCall Host Peer → Prop
  | .peerClosed other => other = peer
  | .hostDestroyed _ => True
  | _ => False

instance [DecidableEq Peer] (peer : Peer) :
    DecidablePred (LibraryCall.EndsPeer peer : LibraryCall Host Peer → Prop)
  | .peerClosed other => inferInstanceAs (Decidable (other = peer))
  | .hostDestroyed _ => .isTrue trivial
  | .hostCreated _ => .isFalse id
  | .hostUsed _ => .isFalse id
  | .peerOpened _ => .isFalse id
  | .peerUsed _ => .isFalse id

/-- The peer was opened and has not come to its end since. -/
def PeerLive (peer : Peer) (log : List (LibraryCall Host Peer)) : Prop :=
  Outstanding (fun call => call = .peerOpened peer) (LibraryCall.EndsPeer peer) log

instance [DecidableEq Host] [DecidableEq Peer] (peer : Peer) (log : List (LibraryCall Host Peer)) :
    Decidable (PeerLive peer log) :=
  inferInstanceAs (Decidable (Outstanding _ _ log))

/-- A call names what is alive, and a host is created when there is none. -/
def Proper (before : List (LibraryCall Host Peer)) : LibraryCall Host Peer → Prop
  | .hostCreated _ => ∀ host, ¬ HostLive host before
  | .hostUsed host | .hostDestroyed host => HostLive host before
  | .peerOpened _ | .peerClosed _ => ∃ host, HostLive host before
  | .peerUsed peer => PeerLive peer before

/-- The calls behind an entry of the trace, with what the library has returned. -/
def ENetAction.libraryCalls (created : Option Host) (connected : Option Peer) :
    ENetAction Host Peer → List (LibraryCall Host Peer)
  | .hostCreate .. => created.toList.map .hostCreated
  | .hostConnect host .. => .hostUsed host :: connected.toList.map .peerOpened
  | .hostDestroy host => [.hostDestroyed host]
  | .peerSend peer .. => [.peerUsed peer]
  | .hostBroadcast host .. => [.hostUsed host]
  | .onClientConnected peer => [.peerOpened peer]
  | .onPacketReceived .. => []
  | .onClientDisconnected peer => [.peerClosed peer]

namespace ManagerEvent

/-- What `enet_host_create` returns. -/
def created : ManagerEvent Host Peer Name → Option Host
  | .startServer _ _ created => created
  | .startClient _ _ created _ => created
  | _ => none

/-- What `enet_host_connect` returns. -/
def connected : ManagerEvent Host Peer Name → Option Peer
  | .startClient _ _ _ connected => connected
  | _ => none

end ManagerEvent

namespace ENetManager

/-- The call of `enet_host_service` that an event of a `Tick` comes from. -/
def serviced (manager : ENetManager Host Peer Name) :
    ManagerEvent Host Peer Name → List (LibraryCall Host Peer)
  | .service _ => manager.host.toList.map .hostUsed
  | _ => []

section Custody

variable [DecidableEq Name]

/-- What the manager keeps is alive, and it has called the library with nothing else. -/
structure Custody (log : List (LibraryCall Host Peer)) (manager : ENetManager Host Peer Name) :
    Prop where
  proper : Historically Proper log
  host : ∀ host, HostLive host log ↔ manager.host = some host
  idle : manager.host = none → ∀ peer, ¬ PeerLive peer log
  serverPeer : ∀ peer, manager.serverPeer = some peer → PeerLive peer log
  member : ∀ peer groupName, manager.InGroup peer groupName → PeerLive peer log

theorem custody_create (initialized : Bool) :
    Custody [] (create initialized : ENetManager Host Peer Name) where
  proper := historically_nil _
  host := by simp [HostLive, not_outstanding_nil, create]
  idle := fun _ _ => not_outstanding_nil _ _
  serverPeer := by simp [create]
  member := by
    rintro peer groupName ⟨peersInGroup, hfind, -⟩
    simp [create] at hfind

namespace Custody

variable {log : List (LibraryCall Host Peer)} {manager next : ENetManager Host Peer Name}
  {host : Host} {peer : Peer}

theorem mono (h : Custody log manager) (hhost : next.host = manager.host)
    (hserverPeer : ∀ peer, next.serverPeer = some peer → manager.serverPeer = some peer)
    (hgroups : ∀ peer groupName, next.InGroup peer groupName → manager.InGroup peer groupName) :
    Custody log next where
  proper := h.proper
  host := by rw [hhost]; exact h.host
  idle := by rw [hhost]; exact h.idle
  serverPeer peer hpeer := h.serverPeer peer (hserverPeer peer hpeer)
  member peer groupName hmember := h.member peer groupName (hgroups peer groupName hmember)

/-- A call that neither begins nor ends a life: what the manager has kept is alive behind it as
before, and the library was given something that lives. -/
theorem used (h : Custody log manager) {call : LibraryCall Host Peer} (hproper : Proper log call)
    (hcall : (∃ host, call = .hostUsed host) ∨ ∃ peer, call = .peerUsed peer) :
    Custody (log ++ [call]) manager := by
  have hhost : ∀ host, HostLive host (log ++ [call]) ↔ HostLive host log := by
    intro host
    rw [HostLive, outstanding_concat]
    rcases hcall with ⟨other, rfl⟩ | ⟨other, rfl⟩ <;> simp [HostLive]
  have hpeer : ∀ peer, PeerLive peer (log ++ [call]) ↔ PeerLive peer log := by
    intro peer
    rw [PeerLive, outstanding_concat]
    rcases hcall with ⟨other, rfl⟩ | ⟨other, rfl⟩ <;> simp [PeerLive, LibraryCall.EndsPeer]
  constructor
  · exact historically_concat.mpr ⟨h.proper, hproper⟩
  · simpa only [hhost] using h.host
  · simpa only [hpeer] using h.idle
  · simpa only [hpeer] using h.serverPeer
  · simpa only [hpeer] using h.member

theorem hostUsed (h : Custody log manager) (hhost : manager.host = some host) :
    Custody (log ++ [.hostUsed host]) manager :=
  h.used ((h.host host).mpr hhost) (Or.inl ⟨host, rfl⟩)

theorem peerUsed (h : Custody log manager) (hlive : PeerLive peer log) :
    Custody (log ++ [.peerUsed peer]) manager :=
  h.used hlive (Or.inr ⟨peer, rfl⟩)

theorem hostCreated (h : Custody log manager) (hnone : manager.host = none) (host : Host) :
    Custody (log ++ [.hostCreated host]) { manager with host := some host } := by
  have hdead : ∀ other, ¬ HostLive other log := by
    intro other hlive
    have hsome := (h.host other).mp hlive
    simp [hnone] at hsome
  have hpeer : ∀ peer, PeerLive peer (log ++ [.hostCreated host]) ↔ PeerLive peer log := by
    intro peer
    rw [PeerLive, outstanding_concat]
    simp [PeerLive, LibraryCall.EndsPeer]
  constructor
  · exact historically_concat.mpr ⟨h.proper, hdead⟩
  · intro other
    rw [HostLive, outstanding_concat]
    constructor
    · rintro (hcreated | ⟨hlive, -⟩)
      · obtain rfl : host = other := by simpa using hcreated
        rfl
      · exact absurd hlive (hdead other)
    · intro hsome
      obtain rfl : host = other := Option.some.inj hsome
      exact Or.inl rfl
  · intro hhost
    simp at hhost
  · simpa only [hpeer] using h.serverPeer
  · intro peer groupName hmember
    exact (hpeer peer).mpr (h.member peer groupName hmember)

/-- The end of the host, with everything that the manager has kept: `Stop` forgets the host, the
server peer and the groups in the call that destroys the host. -/
theorem hostDestroyed (h : Custody log manager) (hhost : manager.host = some host) :
    Custody (log ++ [.hostDestroyed host])
      ({ manager with clientGroups := ∅, host := none, serverPeer := none } :
        ENetManager Host Peer Name) := by
  constructor
  · exact historically_concat.mpr ⟨h.proper, (h.host host).mpr hhost⟩
  · intro other
    rw [HostLive, outstanding_concat]
    refine iff_of_false ?_ (by simp)
    rintro (hcreated | ⟨hlive, hkept⟩)
    · simp at hcreated
    · have hsame : host = other := Option.some.inj (hhost.symm.trans ((h.host other).mp hlive))
      exact hkept (by rw [hsame])
  · intro _ peer
    rw [PeerLive, outstanding_concat]
    rintro (hopened | ⟨-, hkept⟩)
    · simp at hopened
    · exact hkept trivial
  · intro peer hpeer
    simp at hpeer
  · rintro peer groupName ⟨peersInGroup, hfind, -⟩
    simp at hfind

theorem hostLive_peerOpened_iff (host : Host) :
    HostLive host (log ++ [.peerOpened peer]) ↔ HostLive host log := by
  rw [HostLive, outstanding_concat]
  simp [HostLive]

theorem peerLive_peerOpened_iff (other : Peer) :
    PeerLive other (log ++ [.peerOpened peer]) ↔ peer = other ∨ PeerLive other log := by
  rw [PeerLive, outstanding_concat]
  simp [PeerLive, LibraryCall.EndsPeer]

theorem peerOpened (h : Custody log manager) (hhost : manager.host = some host) (peer : Peer) :
    Custody (log ++ [.peerOpened peer]) manager := by
  constructor
  · exact historically_concat.mpr ⟨h.proper, host, (h.host host).mpr hhost⟩
  · simpa only [hostLive_peerOpened_iff] using h.host
  · intro hnone
    rw [hhost] at hnone
    simp at hnone
  · intro other hother
    exact (peerLive_peerOpened_iff other).mpr (Or.inr (h.serverPeer other hother))
  · intro other groupName hmember
    exact (peerLive_peerOpened_iff other).mpr (Or.inr (h.member other groupName hmember))

theorem setServerPeer (h : Custody log manager) (hlive : PeerLive peer log) :
    Custody log { manager with serverPeer := some peer } where
  proper := h.proper
  host := h.host
  idle := h.idle
  serverPeer other hother := by
    obtain rfl : peer = other := Option.some.inj hother
    exact hlive
  member := h.member

/-- A peer that has come to its end is not kept: neither as the server peer nor in a group,
which is what the event of its disconnect has to see to. -/
theorem peerClosed (h : Custody log manager) (hhost : manager.host = some host)
    (hnext : next.host = manager.host)
    (hserverPeer : ∀ other, next.serverPeer = some other →
      manager.serverPeer = some other ∧ other ≠ peer)
    (hgroups : ∀ other groupName, next.InGroup other groupName →
      manager.InGroup other groupName ∧ other ≠ peer) :
    Custody (log ++ [.peerClosed peer]) next := by
  have hlive : ∀ host, HostLive host (log ++ [.peerClosed peer]) ↔ HostLive host log := by
    intro host
    rw [HostLive, outstanding_concat]
    simp [HostLive]
  have hpeer : ∀ other, other ≠ peer → PeerLive other log →
      PeerLive other (log ++ [.peerClosed peer]) := by
    intro other hne hother
    exact outstanding_concat.mpr (Or.inr ⟨hother, Ne.symm hne⟩)
  constructor
  · exact historically_concat.mpr ⟨h.proper, host, (h.host host).mpr hhost⟩
  · simpa only [hlive, hnext] using h.host
  · intro hnone
    rw [hnext, hhost] at hnone
    simp at hnone
  · intro other hother
    obtain ⟨hkept, hne⟩ := hserverPeer other hother
    exact hpeer other hne (h.serverPeer other hkept)
  · intro other groupName hother
    obtain ⟨hkept, hne⟩ := hgroups other groupName hother
    exact hpeer other hne (h.member other groupName hkept)

end Custody

end Custody

/-! ## Events -/

variable [DecidableEq Peer] [DecidableEq Name]

/-- The calls of the library that an event makes, with what they have returned. -/
def libraryCalls (manager : ENetManager Host Peer Name) (event : ManagerEvent Host Peer Name) :
    List (LibraryCall Host Peer) :=
  manager.serviced event ++ ((manager.step event).trace.drop manager.trace.length).flatMap
    (ENetAction.libraryCalls event.created event.connected)

theorem libraryCalls_of_trace {manager : ENetManager Host Peer Name}
    {event : ManagerEvent Host Peer Name} {actions : List (ENetAction Host Peer)}
    (htrace : (manager.step event).trace = manager.trace ++ actions) :
    manager.libraryCalls event = manager.serviced event ++
      actions.flatMap (ENetAction.libraryCalls event.created event.connected) := by
  rw [libraryCalls, htrace, List.drop_left]

/-- A caller that passes a peer to be kept or sent to passes one that is alive. -/
def PassesLive (log : List (LibraryCall Host Peer)) : ManagerEvent Host Peer Name → Prop
  | .addPeerToGroup (some peer) _ => PeerLive peer log
  | .sendPacketToPeer (some peer) _ _ => PeerLive peer log
  | _ => True

instance [DecidableEq Host] (log : List (LibraryCall Host Peer)) :
    DecidablePred (PassesLive log : ManagerEvent Host Peer Name → Prop)
  | .addPeerToGroup (some peer) _ => inferInstanceAs (Decidable (PeerLive peer log))
  | .sendPacketToPeer (some peer) _ _ => inferInstanceAs (Decidable (PeerLive peer log))
  | .addPeerToGroup none _ => .isTrue trivial
  | .sendPacketToPeer none _ _ => .isTrue trivial
  | .startServer .. => .isTrue trivial
  | .startClient .. => .isTrue trivial
  | .stop => .isTrue trivial
  | .service _ => .isTrue trivial
  | .removePeerFromGroup .. => .isTrue trivial
  | .removePeerFromAllGroups _ => .isTrue trivial
  | .broadcastPacketToClients .. => .isTrue trivial
  | .sendPacketToServer .. => .isTrue trivial
  | .sendPacketToGroup .. => .isTrue trivial

namespace Custody

variable {log : List (LibraryCall Host Peer)} {manager : ENetManager Host Peer Name}

theorem silent_step {event : ManagerEvent Host Peer Name} (h : Custody log (manager.step event))
    (hserviced : manager.serviced event = [])
    (htrace : (manager.step event).trace = manager.trace) :
    Custody (log ++ manager.libraryCalls event) (manager.step event) := by
  have hnone : (manager.step event).trace = manager.trace ++ [] := by
    rw [htrace, List.append_nil]
  rw [libraryCalls_of_trace hnone, hserviced, List.flatMap_nil, List.append_nil, List.append_nil]
  exact h

theorem idle_step (h : Custody log manager) {event : ManagerEvent Host Peer Name}
    (hserviced : manager.serviced event = []) (hsame : manager.step event = manager) :
    Custody (log ++ manager.libraryCalls event) (manager.step event) := by
  refine silent_step ?_ hserviced ?_
  · rwa [hsame]
  · rw [hsame]

theorem startServer (h : Custody log manager) (port : UInt16) (maxClients : Int32)
    (created : Option Host) :
    Custody (log ++ manager.libraryCalls (.startServer port maxClients created))
      (manager.step (.startServer port maxClients created)) := by
  by_cases hguard : (!manager.bIsInitialized || manager.host.isSome) = true
  · refine h.idle_step rfl ?_
    rw [step, ENetManager.startServer, if_pos hguard]
  · have hnone : manager.host = none := (stopped_of_guard hguard).2
    have hstep : manager.step (.startServer port maxClients created) =
        { manager with host := created }.emit (.hostCreate (some ⟨.any, port⟩) maxClients 2) := by
      rw [step, ENetManager.startServer, if_neg hguard]
      cases created <;> rfl
    rw [libraryCalls_of_trace (by rw [hstep]; rfl), hstep]
    cases created with
    | none =>
        simp only [serviced, ManagerEvent.created, ENetAction.libraryCalls, Option.toList_none,
          List.map_nil, List.flatMap_cons, List.flatMap_nil, List.append_nil]
        exact h.mono hnone.symm (fun _ hpeer => hpeer) fun _ _ hmember => hmember
    | some host =>
        have hcreated := h.hostCreated hnone host
        exact hcreated.mono rfl (fun _ hpeer => hpeer) fun _ _ hmember => hmember

theorem startClient (h : Custody log manager) (hostName : String) (port : UInt16)
    (created : Option Host) (connected : Option Peer) :
    Custody (log ++ manager.libraryCalls (.startClient hostName port created connected))
      (manager.step (.startClient hostName port created connected)) := by
  by_cases hguard : (!manager.bIsInitialized || manager.host.isSome) = true
  · refine h.idle_step rfl ?_
    rw [step, ENetManager.startClient, if_pos hguard]
  · have hnone : manager.host = none := (stopped_of_guard hguard).2
    cases created with
    | none =>
        have hstep : manager.step (.startClient hostName port none connected) =
            { manager with host := none }.emit (.hostCreate none 1 2) := by
          rw [step, ENetManager.startClient, if_neg hguard]
        rw [libraryCalls_of_trace (by rw [hstep]; rfl), hstep]
        simp only [serviced, ManagerEvent.created, ENetAction.libraryCalls, Option.toList_none,
          List.map_nil, List.flatMap_cons, List.flatMap_nil, List.append_nil]
        exact h.mono hnone.symm (fun _ hpeer => hpeer) fun _ _ hmember => hmember
    | some host =>
        have hstep : manager.step (.startClient hostName port (some host) connected) =
            { ({ manager with host := some host }.emit (.hostCreate none 1 2)) with
              serverPeer := connected }.emit (.hostConnect host ⟨.named hostName, port⟩ 2) := by
          rw [step, ENetManager.startClient, if_neg hguard]
          cases connected <;> rfl
        have hused := (h.hostCreated hnone host).hostUsed rfl
        rw [libraryCalls_of_trace
          (by rw [hstep, emit, emit, List.append_assoc]), hstep]
        cases connected with
        | none =>
            -- the host is kept, and stays to be destroyed
            rw [List.append_assoc] at hused
            exact hused.mono rfl (by simp [emit]) fun _ _ hmember => hmember
        | some peer =>
            have hopened := hused.peerOpened rfl peer
            have hlive : PeerLive peer
                (log ++ [.hostCreated host] ++ [.hostUsed host] ++ [.peerOpened peer]) :=
              (peerLive_peerOpened_iff peer).mpr (Or.inl rfl)
            have hkept := hopened.setServerPeer hlive
            rw [List.append_assoc, List.append_assoc] at hkept
            exact hkept.mono rfl (fun _ hpeer => hpeer) fun _ _ hmember => hmember

theorem stop (h : Custody log manager) :
    Custody (log ++ manager.libraryCalls .stop) (manager.step .stop) := by
  cases hhost : manager.host with
  | none =>
      refine h.idle_step rfl ?_
      rw [step, ENetManager.stop, hhost]
  | some host =>
      have hstep : manager.step .stop =
          { manager with clientGroups := ∅, host := none, serverPeer := none }.emit
            (.hostDestroy host) := by
        rw [step, ENetManager.stop, hhost]
      rw [libraryCalls_of_trace (by rw [hstep]; rfl), hstep]
      have hdestroyed := h.hostDestroyed hhost
      exact hdestroyed.mono rfl (fun _ hpeer => hpeer) fun _ _ hmember => hmember

/-- The events of a `Tick`.  A connected peer is kept only through the calls that follow; a
disconnected one leaves every group, and the server peer if it was that. -/
theorem service (h : Custody log manager) (event : ENetEvent Peer) :
    Custody (log ++ manager.libraryCalls (.service event)) (manager.step (.service event)) := by
  cases hhost : manager.host with
  | none =>
      refine h.idle_step (by rw [serviced, hhost]; rfl) ?_
      rw [step, ENetManager.service, hhost]
  | some host =>
      have hstep : manager.step (.service event) = manager.handleEvent event := by
        rw [step, ENetManager.service, hhost]
      have hserviced : manager.serviced (.service event : ManagerEvent Host Peer Name) =
          [.hostUsed host] := by
        rw [serviced, hhost]
        rfl
      have hused := h.hostUsed hhost
      cases event with
      | none =>
          have htrace : (manager.step (.service .none)).trace = manager.trace ++ [] := by
            rw [hstep, handleEvent, List.append_nil]
          rw [libraryCalls_of_trace htrace, hserviced, hstep]
          exact hused
      | connect peer =>
          rw [libraryCalls_of_trace (by rw [hstep]; rfl), hserviced, hstep, ← List.append_assoc]
          exact (hused.peerOpened hhost peer).mono rfl (fun _ hpeer => hpeer)
            fun _ _ hmember => hmember
      | receive peer packetData =>
          rw [libraryCalls_of_trace (by rw [hstep]; rfl), hserviced, hstep]
          exact hused.mono rfl (fun _ hpeer => hpeer) fun _ _ hmember => hmember
      | disconnect peer =>
          have htrace : (manager.handleEvent (.disconnect peer)).trace =
              manager.trace ++ [.onClientDisconnected peer] := by
            unfold handleEvent
            dsimp only
            split <;> rfl
          rw [libraryCalls_of_trace (by rw [hstep, htrace]), hserviced, hstep, ← List.append_assoc]
          -- the manager forgets the peer in all the places where it may be kept
          refine hused.peerClosed hhost (host_handleEvent _ manager) ?_ ?_
          · intro other hother
            unfold handleEvent at hother
            dsimp only at hother
            split at hother
            · simp at hother
            · next hne => exact ⟨hother, fun hsame => hne (by rw [← hsame]; exact hother)⟩
          · intro other groupName hother
            rw [InGroup, clientGroups_handleEvent] at hother
            obtain ⟨hkept, hne⟩ := inGroup_removePeerFromAllGroups.mp hother
            exact ⟨hkept, Ne.symm hne⟩

omit [DecidableEq Peer] in
/-- One packet for each of some live peers. -/
theorem peersUsed (h : Custody log manager) {peers : List Peer}
    (hlive : ∀ peer ∈ peers, PeerLive peer log) :
    Custody (log ++ peers.map .peerUsed) manager := by
  induction peers using List.reverseRecOn with
  | nil => simpa using h
  | append_singleton before peer ih =>
      have hbefore := ih fun other hother => hlive other (by simp [hother])
      rw [List.map_append, List.map_singleton, ← List.append_assoc]
      refine hbefore.peerUsed ?_
      have hopen : PeerLive peer log := hlive peer (by simp)
      refine Outstanding.append hopen fun call hcall => ?_
      obtain ⟨other, -, rfl⟩ := List.mem_map.mp hcall
      exact id

theorem sendPacketToGroup (h : Custody log manager) (groupName : Name) (data : List UInt8)
    (flags : UInt32) :
    Custody (log ++ manager.libraryCalls (.sendPacketToGroup groupName data flags))
      (manager.step (.sendPacketToGroup groupName data flags)) := by
  have hstep := manager.sendPacketToGroup_eq groupName data flags
  have hlive : ∀ peer ∈ (manager.clientGroups.find groupName).getD [], PeerLive peer log := by
    intro peer hpeer
    refine h.member peer groupName ?_
    cases hfind : manager.clientGroups.find groupName with
    | none => simp [hfind] at hpeer
    | some peersInGroup =>
        rw [hfind] at hpeer
        exact ⟨peersInGroup, hfind, hpeer⟩
  have hused := h.peersUsed hlive
  rw [List.map_eq_flatMap] at hused
  rw [libraryCalls_of_trace (by rw [step, hstep]), step, hstep, List.flatMap_map]
  exact hused.mono rfl (fun _ hpeer => hpeer) fun _ _ hmember => hmember

/-- Every event keeps custody, where a caller passes what is alive: the members of the manager
are alive by custody, and the arguments by assumption. -/
theorem step (h : Custody log manager) {event : ManagerEvent Host Peer Name}
    (hpasses : PassesLive log event) :
    Custody (log ++ manager.libraryCalls event) (manager.step event) := by
  cases event with
  | startServer port maxClients created => exact h.startServer port maxClients created
  | startClient hostName port created connected =>
      exact h.startClient hostName port created connected
  | stop => exact h.stop
  | service event => exact h.service event
  | addPeerToGroup peer groupName =>
      cases peer with
      | none => exact h.idle_step rfl rfl
      | some peer =>
          refine silent_step ?_ rfl rfl
          refine ⟨h.proper, h.host, h.idle, h.serverPeer, fun other name hmember => ?_⟩
          -- a peer enters a group alive, because the caller passes live ones
          rcases inGroup_addPeerToGroup.mp hmember with ⟨rfl, -⟩ | hmember
          · exact hpasses
          · exact h.member other name hmember
  | removePeerFromGroup peer groupName =>
      cases peer with
      | none => exact h.idle_step rfl rfl
      | some peer =>
          refine silent_step ?_ rfl rfl
          refine h.mono rfl (fun _ hpeer => hpeer) fun other name hmember => ?_
          exact (lists_removePeer.mp hmember).1
  | removePeerFromAllGroups peer =>
      cases peer with
      | none => exact h.idle_step rfl rfl
      | some peer =>
          refine silent_step ?_ rfl rfl
          refine h.mono rfl (fun _ hpeer => hpeer) fun other name hmember => ?_
          exact (inGroup_removePeerFromAllGroups.mp hmember).1
  | sendPacketToPeer peer data flags =>
      cases peer with
      | none => exact h.idle_step rfl rfl
      | some peer =>
          rw [libraryCalls_of_trace (by rfl)]
          have hused := h.peerUsed hpasses
          exact hused.mono rfl (fun _ hpeer => hpeer) fun _ _ hmember => hmember
  | broadcastPacketToClients data flags =>
      cases hhost : manager.host with
      | none =>
          refine h.idle_step rfl ?_
          rw [ENetManager.step, broadcastPacketToClients, hhost]
      | some host =>
          have hstep : manager.step (.broadcastPacketToClients data flags) =
              manager.emit (.hostBroadcast host 0 ⟨data, flags⟩) := by
            rw [ENetManager.step, broadcastPacketToClients, hhost]
          rw [libraryCalls_of_trace (by rw [hstep]; rfl), hstep]
          have hused := h.hostUsed hhost
          exact hused.mono rfl (fun _ hpeer => hpeer) fun _ _ hmember => hmember
  | sendPacketToServer data flags =>
      cases hpeer : manager.serverPeer with
      | none =>
          refine h.idle_step rfl ?_
          rw [ENetManager.step, sendPacketToServer, hpeer]
      | some peer =>
          have hstep : manager.step (.sendPacketToServer data flags) =
              manager.emit (.peerSend peer 0 ⟨data, flags⟩) := by
            rw [ENetManager.step, sendPacketToServer, hpeer]
            rfl
          rw [libraryCalls_of_trace (by rw [hstep]; rfl), hstep]
          have hused := h.peerUsed (h.serverPeer peer hpeer)
          exact hused.mono rfl (fun _ hkept => hkept) fun _ _ hmember => hmember
  | sendPacketToGroup groupName data flags => exact h.sendPacketToGroup groupName data flags

end Custody

/-! ## Runs -/

/-- What a run has done with the library since the constructor. -/
def libraryLog (initialized : Bool) (events : List (ManagerEvent Host Peer Name)) :
    List (LibraryCall Host Peer) :=
  outputs step libraryCalls (create initialized) events

/-- Every caller of a run that passes a peer passes one that is alive. -/
def AllPassLive (initialized : Bool) (events : List (ManagerEvent Host Peer Name)) : Prop :=
  Historically (fun before => PassesLive (libraryLog initialized before)) events

instance [DecidableEq Host] (initialized : Bool) (events : List (ManagerEvent Host Peer Name)) :
    Decidable (AllPassLive initialized events) :=
  decidableHistorically events _

theorem custody_run {initialized : Bool} {events : List (ManagerEvent Host Peer Name)}
    (hpasses : AllPassLive initialized events) :
    Custody (libraryLog initialized events) (run step (create initialized) events) := by
  induction events using List.reverseRecOn with
  | nil => exact custody_create initialized
  | append_singleton before event ih =>
      obtain ⟨hbefore, hevent⟩ := historically_concat.mp hpasses
      rw [libraryLog, outputs_concat, run_concat]
      exact (ih hbefore).step hevent

omit [DecidableEq Name] in
/-- Where the calls are proper, every host has been destroyed as often as it has been created,
or once less while it is alive. -/
theorem count_hostCreated [DecidableEq Host] {log : List (LibraryCall Host Peer)}
    (hproper : Historically Proper log) (host : Host) :
    (HostLive host log ∧
        log.count (.hostCreated host) = log.count (.hostDestroyed host) + 1) ∨
      (¬ HostLive host log ∧ log.count (.hostCreated host) = log.count (.hostDestroyed host)) := by
  induction log using List.reverseRecOn with
  | nil => exact Or.inr ⟨not_outstanding_nil _ _, rfl⟩
  | append_singleton before call ih =>
      obtain ⟨hbefore, hcall⟩ := historically_concat.mp hproper
      rw [HostLive, outstanding_concat]
      by_cases hcreated : call = .hostCreated host
      · subst hcreated
        rcases ih hbefore with ⟨hlive, -⟩ | ⟨-, hcount⟩
        · exact absurd hlive (hcall host)
        · refine Or.inl ⟨Or.inl rfl, ?_⟩
          simp [List.count_append, hcount]
      · by_cases hdestroyed : call = .hostDestroyed host
        · subst hdestroyed
          rcases ih hbefore with ⟨-, hcount⟩ | ⟨hdead, -⟩
          · refine Or.inr ⟨by simp, ?_⟩
            simp [List.count_append, hcount]
          · exact absurd hcall hdead
        · simp only [hcreated, hdestroyed, false_or, not_false_eq_true, and_true,
            List.count_append, List.count_singleton, beq_iff_eq, if_false, Nat.add_zero]
          exact ih hbefore

/-- What holds of a manager and its library in every state of a run. -/
structure UsesWhatLives [DecidableEq Host] (log : List (LibraryCall Host Peer))
    (manager : ENetManager Host Peer Name) : Prop where
  /-- No call names a host or a peer after its end, and there is one host at a time. -/
  proper : Historically Proper log
  /-- The pointers that are kept are to what is alive. -/
  host : ∀ host, manager.host = some host ↔ HostLive host log
  serverPeer : ∀ peer, manager.serverPeer = some peer → PeerLive peer log
  member : ∀ peer groupName, manager.InGroup peer groupName → PeerLive peer log
  /-- A `Stop` leaves no host and no peer, and destroys each host once. -/
  stopped : ∀ ended, ended = log ++ manager.libraryCalls .stop →
    (∀ peer, ¬ PeerLive peer ended) ∧ ∀ host, ¬ HostLive host ended ∧
      ended.count (.hostCreated host) = ended.count (.hostDestroyed host)

theorem host_stop (manager : ENetManager Host Peer Name) : (manager.step .stop).host = none := by
  rw [step, stop]
  split
  · next hnone => exact hnone
  · rfl

/-- **Nothing of the library is used after its end.**  In every run of a manager whose delegates
do not call it, and in which a caller that passes a peer passes one that is alive, whether starts
fail or not: every host and every peer that the manager names in a call is alive, and so is
everything that it keeps; when it stops, as its destructor does, each host that was created has
been destroyed once. -/
theorem uses_what_lives [DecidableEq Host] (initialized : Bool)
    {calls : List (ManagerCall Host Peer Name)}
    (hpasses : AllPassLive initialized (calls.flatMap ManagerCall.rounds)) :
    UsesWhatLives (libraryLog initialized (calls.flatMap ManagerCall.rounds))
      (run perform (create initialized) calls) := by
  have h := custody_run hpasses
  rw [run_perform_eq]
  refine ⟨h.proper, fun host => (h.host host).symm, h.serverPeer, h.member, ?_⟩
  rintro ended rfl
  have hstopped := h.stop
  refine ⟨hstopped.idle (host_stop _), fun host => ?_⟩
  have hdead : ¬ HostLive host (libraryLog initialized (calls.flatMap ManagerCall.rounds) ++
      (run step (create initialized) (calls.flatMap ManagerCall.rounds)).libraryCalls .stop) := by
    intro hlive
    have hhost := (hstopped.host host).mp hlive
    rw [host_stop] at hhost
    simp at hhost
  rcases count_hostCreated hstopped.proper host with ⟨hlive, -⟩ | ⟨-, hcount⟩
  · exact absurd hlive hdead
  · exact ⟨hdead, hcount⟩

/-- A client that does not get a peer, then a server with one client that leaves. -/
def failedThenServed : List (ManagerCall ℕ ℕ String) :=
  [.call (.startClient "host" 7777 (some 0) none) nofun, .call (.broadcastPacketToClients [1] 1) nofun,
    .call .stop nofun, .call (.startServer 7777 32 (some 0)) nofun, .tick [.connect 1],
    .call (.addPeerToGroup (some 1) "room") nofun, .call (.sendPacketToGroup "room" [2] 1) nofun,
    .call (.sendPacketToPeer (some 1) [3] 1) nofun, .tick [.receive 1 [5], .disconnect 1],
    .call (.sendPacketToGroup "room" [4] 1) nofun]

theorem uses_what_lives_failedThenServed :
    UsesWhatLives (libraryLog true (failedThenServed.flatMap ManagerCall.rounds))
        (run perform (create true) failedThenServed) ∧
      (libraryLog true (failedThenServed.flatMap ManagerCall.rounds)).count (.peerUsed 1) = 2 :=
  ⟨uses_what_lives true (by decide +kernel), by decide +kernel⟩

end ENetManager

end HktBase.ENet
