import HktBase.Base.TagIndex
import HktBase.ENet.Manager

/-!
# The groups of the ENet manager

`ClientGroups` as a relation between peers and group names.  `GroupsStep` says once what a
call or an event of `Tick` can do to the map; every step adds the pairs of one
`AddPeerToGroup`, takes some pairs away, or leaves the relation alone (`inGroup_step`), so a
peer is in a group when it has been added and nothing has taken it out since.

`Stop` clears the groups only if there is a host.  It follows from the way in which the manager
is used that there are none otherwise: peers are added while a host runs.

The layers are those of the source: `find_removePeer` and `lists_removePeer` are about one
array, `groupsStep` about one call, `inGroup_step` about the relation, and `inGroup_run_iff`
about a run.  That an array has no duplicates and is never empty is kept apart from it, in
`ArraysValid`.
-/

namespace HktBase.ENet

open Base Transition

variable {Host Peer Name : Type}

/-! ## Arrays of peers -/

/-- A peer is in the array of a group. -/
def Lists [DecidableEq Name] (groups : TMap Name (List Peer)) (groupName : Name) (peer : Peer) :
    Prop :=
  ∃ peersInGroup, groups.find groupName = some peersInGroup ∧ peer ∈ peersInGroup

/-- No array holds a peer twice, and none is empty. -/
def ArraysValid [DecidableEq Name] (groups : TMap Name (List Peer)) : Prop :=
  ∀ groupName peersInGroup, groups.find groupName = some peersInGroup →
    peersInGroup.Nodup ∧ peersInGroup ≠ []

section Arrays

variable [DecidableEq Peer] [DecidableEq Name]

open ENetManager

theorem mem_removeAll {peers : List Peer} {peer other : Peer} :
    other ∈ removeAll peers peer ↔ other ∈ peers ∧ other ≠ peer := by
  simp [removeAll]

theorem find_removePeer (peer : Peer) (groups : TMap Name (List Peer)) (groupName other : Name) :
    (removePeer peer groups groupName).find other =
      if other = groupName then
        ((groups.find groupName).map fun peersInGroup => removeAll peersInGroup peer).filter
          fun remaining => remaining ≠ []
      else groups.find other := by
  cases hfind : groups.find groupName with
  | none =>
      simp only [removePeer, hfind]
      split
      · next h => rw [h, hfind]; rfl
      · rfl
  | some peersInGroup =>
      simp only [removePeer, hfind, Option.map_some, List.length_eq_zero_iff]
      by_cases hempty : removeAll peersInGroup peer = []
      -- the peer was the last one, and the array is removed with its name
      · rw [if_pos hempty, SparseMap.find_remove]
        by_cases h : other = groupName
        · simp [h, hempty, Option.filter]
        · rw [if_neg h, if_neg h, SparseMap.find_add_of_ne _ _ h]
      · rw [if_neg hempty, SparseMap.find_add]
        simp [hempty, Option.filter]

/-- Removing a peer from a group takes that pair and no other.  An array that gets empty is
removed with its name, which takes no further pair. -/
theorem lists_removePeer {peer member : Peer} {groups : TMap Name (List Peer)}
    {groupName other : Name} :
    Lists (removePeer peer groups groupName) other member ↔
      Lists groups other member ∧ ¬ (other = groupName ∧ member = peer) := by
  unfold Lists
  rw [find_removePeer]
  by_cases h : other = groupName
  · subst h
    rw [if_pos rfl]
    constructor
    · rintro ⟨remaining, hremaining, hmember⟩
      obtain ⟨hmap, -⟩ := Option.filter_eq_some_iff.mp hremaining
      obtain ⟨peersInGroup, hfind, rfl⟩ := Option.map_eq_some_iff.mp hmap
      obtain ⟨hmember, hne⟩ := mem_removeAll.mp hmember
      exact ⟨⟨peersInGroup, hfind, hmember⟩, fun hsame => hne hsame.2⟩
    · rintro ⟨⟨peersInGroup, hfind, hmember⟩, hne⟩
      have hremain : member ∈ removeAll peersInGroup peer :=
        mem_removeAll.mpr ⟨hmember, fun hsame => hne ⟨rfl, hsame⟩⟩
      refine ⟨removeAll peersInGroup peer, ?_, hremain⟩
      refine Option.filter_eq_some_iff.mpr ⟨by rw [hfind]; rfl, ?_⟩
      exact decide_eq_true (List.ne_nil_of_mem hremain)
  · simp [h]

theorem ArraysValid.removePeer {groups : TMap Name (List Peer)} (h : ArraysValid groups)
    (peer : Peer) (groupName : Name) : ArraysValid (removePeer peer groups groupName) := by
  intro other remaining hremaining
  rw [find_removePeer] at hremaining
  split at hremaining
  · obtain ⟨hmap, hne⟩ := Option.filter_eq_some_iff.mp hremaining
    obtain ⟨peersInGroup, hfind, rfl⟩ := Option.map_eq_some_iff.mp hmap
    exact ⟨(h groupName peersInGroup hfind).1.filter _, of_decide_eq_true hne⟩
  · exact h other remaining hremaining

theorem lists_foldl_removePeer {peer member : Peer} {groupNames : List Name}
    {groups : TMap Name (List Peer)} {other : Name} :
    Lists (groupNames.foldl (removePeer peer) groups) other member ↔
      Lists groups other member ∧ ¬ (other ∈ groupNames ∧ member = peer) := by
  induction groupNames generalizing groups with
  | nil => simp
  | cons groupName rest ih =>
      rw [List.foldl_cons, ih, lists_removePeer, List.mem_cons]
      tauto

theorem ArraysValid.foldl_removePeer {groups : TMap Name (List Peer)} (h : ArraysValid groups)
    (peer : Peer) (groupNames : List Name) :
    ArraysValid (groupNames.foldl (ENetManager.removePeer peer) groups) := by
  induction groupNames generalizing groups with
  | nil => exact h
  | cons groupName rest ih => exact ih (h.removePeer peer groupName)

end Arrays

namespace ENetManager

variable [DecidableEq Peer] [DecidableEq Name]

/-! ## What a step does to the groups -/

omit [DecidableEq Peer] in
/-- A peer is in a group. -/
def InGroup (manager : ENetManager Host Peer Name) (peer : Peer) (groupName : Name) : Prop :=
  Lists manager.clientGroups groupName peer

/-- An event adds a peer to a group. -/
def Adds (peer : Peer) (groupName : Name) (event : ManagerEvent Host Peer Name) : Prop :=
  event = .addPeerToGroup (some peer) groupName

/-- An event takes a peer out of a group, if it is there. -/
def Drops (peer : Peer) (groupName : Name) (event : ManagerEvent Host Peer Name) : Prop :=
  event = .removePeerFromGroup (some peer) groupName ∨
    event = .removePeerFromAllGroups (some peer) ∨
    event = .service (.disconnect peer) ∨ event = .stop

variable {manager : ENetManager Host Peer Name}

omit [DecidableEq Peer] [DecidableEq Name] in
theorem clientGroups_startServer (port : UInt16) (maxClients : Int32) (created : Option Host) :
    (manager.startServer port maxClients created).1.clientGroups = manager.clientGroups := by
  unfold startServer
  cases created <;> dsimp only <;> split <;> rfl

omit [DecidableEq Peer] [DecidableEq Name] in
theorem clientGroups_startClient (hostName : String) (port : UInt16) (created : Option Host)
    (connected : Option Peer) :
    (manager.startClient hostName port created connected).1.clientGroups =
      manager.clientGroups := by
  unfold startClient
  cases created <;> cases connected <;> dsimp only <;> split <;> rfl

theorem inGroup_addPeerToGroup {peer member : Peer} {groupName other : Name} :
    (manager.addPeerToGroup (some peer) groupName).InGroup member other ↔
      (peer = member ∧ groupName = other) ∨ manager.InGroup member other := by
  unfold InGroup Lists addPeerToGroup
  dsimp only
  rw [SparseMap.find_add]
  by_cases h : other = groupName
  · subst h
    rw [if_pos rfl]
    cases hfind : manager.clientGroups.find other with
    | none => simp [mem_addUnique, eq_comm]
    | some peersInGroup => simp [mem_addUnique, eq_comm, or_comm]
  · simp [h, Ne.symm h]

theorem inGroup_removePeerFromAllGroups {peer member : Peer} {groupName : Name} :
    (manager.removePeerFromAllGroups (some peer)).InGroup member groupName ↔
      manager.InGroup member groupName ∧ peer ≠ member := by
  unfold InGroup removePeerFromAllGroups
  rw [lists_foldl_removePeer]
  apply and_congr_right
  rintro ⟨peersInGroup, hfind, -⟩
  have hkey : groupName ∈ manager.clientGroups.keys := SparseMap.mem_keys.mpr ⟨_, hfind⟩
  simp [hkey, eq_comm]

theorem clientGroups_handleEvent (event : ENetEvent Peer) :
    (manager.handleEvent event).clientGroups =
      match event with
      | .disconnect peer => (manager.removePeerFromAllGroups (some peer)).clientGroups
      | _ => manager.clientGroups := by
  cases event with
  | disconnect peer =>
      unfold handleEvent
      dsimp only
      split <;> rfl
  | _ => rfl

omit [DecidableEq Peer] [DecidableEq Name] in
theorem clientGroups_sendPacketToPeer (peer : Option Peer) (data : List UInt8) (flags : UInt32) :
    (manager.sendPacketToPeer peer data flags).clientGroups = manager.clientGroups := by
  cases peer <;> rfl

omit [DecidableEq Peer] in
/-- `SendPacketToGroup` sends one packet to each entry of the array, in its order, and none
where there is no array for the name. -/
theorem sendPacketToGroup_eq (groupName : Name) (data : List UInt8) (flags : UInt32) :
    manager.sendPacketToGroup groupName data flags =
      { manager with
        trace := manager.trace ++
          ((manager.clientGroups.find groupName).getD []).map fun peer =>
            .peerSend peer 0 ⟨data, flags⟩ } := by
  have hloop : ∀ (peers : List Peer) (manager : ENetManager Host Peer Name),
      peers.foldl (fun manager peer => manager.sendPacketToPeer (some peer) data flags) manager =
        { manager with
          trace := manager.trace ++ peers.map fun peer => .peerSend peer 0 ⟨data, flags⟩ } := by
    intro peers
    induction peers with
    | nil => simp
    | cons peer rest ih =>
        intro manager
        rw [List.foldl_cons, ih]
        simp [sendPacketToPeer, emit]
  unfold sendPacketToGroup
  cases hfind : manager.clientGroups.find groupName with
  | none => simp
  | some peersInGroup => exact hloop peersInGroup manager

/-- Without a host no peer is in a group. -/
def IdleWithoutHost (manager : ENetManager Host Peer Name) : Prop :=
  manager.host = none → ∀ peer groupName, ¬ manager.InGroup peer groupName

/-- What an event makes of the groups. -/
inductive GroupsStep (manager : ENetManager Host Peer Name) :
    ManagerEvent Host Peer Name → TMap Name (List Peer) → Prop
  /-- An event that adds nothing, and drops nothing unless there is no host. -/
  | same (event : ManagerEvent Host Peer Name)
      (hadds : ∀ peer groupName, ¬ Adds peer groupName event)
      (hdrops : manager.host = none ∨ ∀ peer groupName, ¬ Drops peer groupName event) :
      GroupsStep manager event manager.clientGroups
  | add (peer : Peer) (groupName : Name) :
      GroupsStep manager (.addPeerToGroup (some peer) groupName)
        (manager.addPeerToGroup (some peer) groupName).clientGroups
  | remove (peer : Peer) (groupName : Name) :
      GroupsStep manager (.removePeerFromGroup (some peer) groupName)
        (removePeer peer manager.clientGroups groupName)
  | sweep (peer : Peer) (event : ManagerEvent Host Peer Name)
      (hevent : event = .removePeerFromAllGroups (some peer) ∨
        event = .service (.disconnect peer)) :
      GroupsStep manager event (manager.removePeerFromAllGroups (some peer)).clientGroups
  | clear : GroupsStep manager .stop ∅

theorem GroupsStep.of_eq {event : ManagerEvent Host Peer Name} {groups : TMap Name (List Peer)}
    (hgroups : groups = manager.clientGroups)
    (hadds : ∀ peer groupName, ¬ Adds peer groupName event)
    (hdrops : ∀ peer groupName, ¬ Drops peer groupName event) : GroupsStep manager event groups := by
  rw [hgroups]
  exact .same event hadds (Or.inr hdrops)

theorem groupsStep_service (event : ENetEvent Peer) :
    GroupsStep manager (.service event) (manager.service event).clientGroups := by
  cases hhost : manager.host with
  | none =>
      have hsame : manager.service event = manager := by rw [service, hhost]
      rw [hsame]
      exact .same _ (by simp [Adds]) (Or.inl hhost)
  | some host =>
      have hevent : manager.service event = manager.handleEvent event := by rw [service, hhost]
      rw [hevent, clientGroups_handleEvent]
      cases event with
      | disconnect peer => exact .sweep peer _ (Or.inr rfl)
      | _ => exact .of_eq rfl (by simp [Adds]) (by simp [Drops])

theorem groupsStep (manager : ENetManager Host Peer Name) (event : ManagerEvent Host Peer Name) :
    GroupsStep manager event (manager.step event).clientGroups := by
  cases event with
  | startServer port maxClients created =>
      exact .of_eq (clientGroups_startServer port maxClients created) (by simp [Adds])
        (by simp [Drops])
  | startClient hostName port created connected =>
      exact .of_eq (clientGroups_startClient hostName port created connected) (by simp [Adds])
        (by simp [Drops])
  | stop =>
      cases hhost : manager.host with
      | none =>
          have hsame : manager.step .stop = manager := by rw [step, stop, hhost]
          rw [hsame]
          exact .same _ (by simp [Adds]) (Or.inl hhost)
      | some host =>
          have hcleared : (manager.step .stop).clientGroups = ∅ := by
            rw [step, stop, hhost]
            rfl
          rw [hcleared]
          exact .clear
  | service event => exact groupsStep_service event
  | addPeerToGroup peer groupName =>
      cases peer with
      | none => exact .of_eq rfl (by simp [Adds]) (by simp [Drops])
      | some peer => exact .add peer groupName
  | removePeerFromGroup peer groupName =>
      cases peer with
      | none => exact .of_eq rfl (by simp [Adds]) (by simp [Drops])
      | some peer => exact .remove peer groupName
  | removePeerFromAllGroups peer =>
      cases peer with
      | none => exact .of_eq rfl (by simp [Adds]) (by simp [Drops])
      | some peer => exact .sweep peer _ (Or.inl rfl)
  | sendPacketToPeer peer data flags =>
      exact .of_eq (clientGroups_sendPacketToPeer peer data flags) (by simp [Adds])
        (by simp [Drops])
  | broadcastPacketToClients data flags =>
      refine .of_eq ?_ (by simp [Adds]) (by simp [Drops])
      rw [step, broadcastPacketToClients]
      split <;> rfl
  | sendPacketToServer data flags =>
      refine .of_eq ?_ (by simp [Adds]) (by simp [Drops])
      rw [step, sendPacketToServer]
      split <;> rfl
  | sendPacketToGroup groupName data flags =>
      refine .of_eq ?_ (by simp [Adds]) (by simp [Drops])
      rw [step, sendPacketToGroup_eq]

/-- The relation after an event: the pair that it adds, and those that it does not drop.  A
manager without a host has no groups, so that a `Stop` that does nothing drops nothing. -/
theorem inGroup_step (hidle : manager.IdleWithoutHost) (event : ManagerEvent Host Peer Name)
    (peer : Peer) (groupName : Name) :
    (manager.step event).InGroup peer groupName ↔
      Adds peer groupName event ∨ (manager.InGroup peer groupName ∧ ¬ Drops peer groupName event) := by
  have hstep := groupsStep manager event
  rw [InGroup]
  generalize (manager.step event).clientGroups = groups at hstep ⊢
  cases hstep with
  | same _ hadds hdrops =>
      rw [or_iff_right (hadds peer groupName)]
      -- a `Stop` without a host leaves the map, which is empty then
      rcases hdrops with hhost | hdrops
      · exact iff_of_false (hidle hhost peer groupName) fun h => hidle hhost peer groupName h.1
      · exact (and_iff_left (hdrops peer groupName)).symm
  | add other name =>
      show (manager.addPeerToGroup (some other) name).InGroup peer groupName ↔ _
      rw [inGroup_addPeerToGroup]
      simp [Adds, Drops]
  | remove other name =>
      rw [lists_removePeer]
      simp only [InGroup, Adds, Drops, reduceCtorEq, ManagerEvent.removePeerFromGroup.injEq,
        Option.some.injEq, or_false, false_or]
      rw [eq_comm (a := groupName), eq_comm (a := peer), and_comm (a := name = groupName)]
  | sweep other _ hevent =>
      show (manager.removePeerFromAllGroups (some other)).InGroup peer groupName ↔ _
      rw [inGroup_removePeerFromAllGroups]
      rcases hevent with rfl | rfl
      · simp [Adds, Drops]
      · simp [Adds, Drops]
  | clear => simp [Lists, Adds, Drops]

theorem arraysValid_addPeerToGroup (h : ArraysValid manager.clientGroups) (peer : Peer)
    (groupName : Name) :
    ArraysValid (manager.addPeerToGroup (some peer) groupName).clientGroups := by
  intro other peersInGroup hfind
  simp only [addPeerToGroup, SparseMap.find_add] at hfind
  split at hfind
  · obtain rfl := Option.some.inj hfind
    have hnodup : ((manager.clientGroups.find groupName).getD []).Nodup := by
      cases hgroup : manager.clientGroups.find groupName with
      | none => exact List.nodup_nil
      | some before => exact (h groupName before hgroup).1
    refine ⟨nodup_addUnique hnodup peer, List.ne_nil_of_mem (a := peer) ?_⟩
    exact mem_addUnique.mpr (Or.inr rfl)
  · exact h other peersInGroup hfind

theorem arraysValid_step (h : ArraysValid manager.clientGroups)
    (event : ManagerEvent Host Peer Name) : ArraysValid (manager.step event).clientGroups := by
  have hstep := groupsStep manager event
  generalize (manager.step event).clientGroups = groups at hstep ⊢
  cases hstep with
  | same => exact h
  | add peer groupName => exact arraysValid_addPeerToGroup h peer groupName
  | remove peer groupName => exact h.removePeer peer groupName
  | sweep peer => exact h.foldl_removePeer peer _
  | clear =>
      intro groupName peersInGroup hfind
      simp at hfind

/-- Only a start without a host, and `Stop`, change the host; what the delegates of an event do
are calls of their own. -/
theorem host_step_cases (event : ManagerEvent Host Peer Name) :
    (manager.step event).host = manager.host ∨ manager.host = none ∨ event = .stop := by
  cases event with
  | startServer port maxClients created =>
      cases hhost : manager.host with
      | none => exact Or.inr (Or.inl rfl)
      | some host => simp [step, startServer, hhost]
  | startClient hostName port created connected =>
      cases hhost : manager.host with
      | none => exact Or.inr (Or.inl rfl)
      | some host => simp [step, startClient, hhost]
  | stop => exact Or.inr (Or.inr rfl)
  | service event =>
      refine Or.inl ?_
      rw [step, service]
      split
      · rfl
      · exact host_handleEvent event manager
  | addPeerToGroup peer groupName => cases peer <;> exact Or.inl rfl
  | removePeerFromGroup peer groupName => cases peer <;> exact Or.inl rfl
  | removePeerFromAllGroups peer => cases peer <;> exact Or.inl rfl
  | sendPacketToPeer peer data flags => cases peer <;> exact Or.inl rfl
  | broadcastPacketToClients data flags =>
      rw [step, broadcastPacketToClients]
      split <;> exact Or.inl rfl
  | sendPacketToServer data flags =>
      rw [step, sendPacketToServer]
      split <;> exact Or.inl rfl
  | sendPacketToGroup groupName data flags =>
      rw [step, sendPacketToGroup_eq]
      exact Or.inl rfl

/-- Peers are added while a host runs. -/
def AddsWithHost (manager : ENetManager Host Peer Name) (event : ManagerEvent Host Peer Name) :
    Prop :=
  ∀ peer groupName, Adds peer groupName event → manager.host.isSome = true

theorem IdleWithoutHost.step (h : manager.IdleWithoutHost) {event : ManagerEvent Host Peer Name}
    (hadds : manager.AddsWithHost event) : (manager.step event).IdleWithoutHost := by
  intro hhost peer groupName
  rw [inGroup_step h]
  rintro (hadd | ⟨hbefore, hkept⟩)
  · have hruns := hadds peer groupName hadd
    obtain rfl : event = .addPeerToGroup (some peer) groupName := hadd
    rw [show manager.host = none from hhost] at hruns
    simp at hruns
  · rcases host_step_cases event with hsame | hnone | hstop
    · exact h (hsame.symm.trans hhost) peer groupName hbefore
    · exact h hnone peer groupName hbefore
    · exact hkept (Or.inr (Or.inr (Or.inr hstop)))

/-! ## Histories -/

/-- The CONNECT event of a peer was processed, and its DISCONNECT event was not. -/
def Connected (events : List (ManagerEvent Host Peer Name)) (peer : Peer) : Prop :=
  Outstanding (fun event => event = .service (.connect peer))
    (fun event => event = .service (.disconnect peer)) events

instance (events : List (ManagerEvent Host Peer Name)) [DecidableEq Host] (peer : Peer) :
    Decidable (Connected events peer) :=
  inferInstanceAs (Decidable (Outstanding _ _ events))

/-- `AddPeerToGroup` is called while a host runs, with a peer that is connected. -/
def AddsConnected (initialized : Bool) (before : List (ManagerEvent Host Peer Name)) :
    ManagerEvent Host Peer Name → Prop
  | .addPeerToGroup (some peer) _ =>
      (run step (create initialized) before).host.isSome = true ∧ Connected before peer
  | _ => True

instance (initialized : Bool) (before : List (ManagerEvent Host Peer Name)) [DecidableEq Host] :
    DecidablePred (AddsConnected initialized before)
  | .addPeerToGroup (some _) _ => inferInstanceAs (Decidable (_ ∧ _))
  | .addPeerToGroup none _ => .isTrue trivial
  | .startServer .. => .isTrue trivial
  | .startClient .. => .isTrue trivial
  | .stop => .isTrue trivial
  | .service _ => .isTrue trivial
  | .removePeerFromGroup .. => .isTrue trivial
  | .removePeerFromAllGroups _ => .isTrue trivial
  | .sendPacketToPeer .. => .isTrue trivial
  | .broadcastPacketToClients .. => .isTrue trivial
  | .sendPacketToServer .. => .isTrue trivial
  | .sendPacketToGroup .. => .isTrue trivial

/-- Every `AddPeerToGroup` of a run meets the condition. -/
theorem connected_of_historically {initialized : Bool}
    {events : List (ManagerEvent Host Peer Name)}
    (hadds : Historically (AddsConnected initialized) events)
    {before after : List (ManagerEvent Host Peer Name)} {event : ManagerEvent Host Peer Name}
    (hevents : events = before ++ event :: after) {peer : Peer} {groupName : Name}
    (hadd : Adds peer groupName event) :
    (run step (create initialized) before).host.isSome = true ∧ Connected before peer := by
  obtain rfl : event = .addPeerToGroup (some peer) groupName := hadd
  exact hadds before _ after hevents

/-- The groups are a set of pairs that the history determines: arrays have no repetitions
and are never empty, a peer is in a group when it was added and has not been taken out since,
and a packet for a group goes once to each of its peers.  A peer is in no group while it is not
connected, nor when a client connects in its place, nor after a `Stop` until it is added again. -/
structure Faithful (events : List (ManagerEvent Host Peer Name))
    (manager : ENetManager Host Peer Name) : Prop where
  arrays : ArraysValid manager.clientGroups
  member_iff : ∀ peer groupName,
    manager.InGroup peer groupName ↔ Outstanding (Adds peer groupName) (Drops peer groupName) events
  sends : ∀ groupName data flags, ∃ recipients : List Peer, recipients.Nodup ∧
    (∀ peer, peer ∈ recipients ↔ manager.InGroup peer groupName) ∧
    manager.sendPacketToGroup groupName data flags =
      { manager with
        trace := manager.trace ++ recipients.map fun peer => .peerSend peer 0 ⟨data, flags⟩ }
  unconnected : ∀ peer, ¬ Connected events peer → ∀ groupName, ¬ manager.InGroup peer groupName
  reused : ∀ before peer, events = before ++ [.service (.connect peer)] →
    ¬ Connected before peer → ∀ groupName, ¬ manager.InGroup peer groupName
  restarted : ∀ before after, events = before ++ .stop :: after → ∀ peer groupName,
    .addPeerToGroup (some peer) groupName ∉ after → ¬ manager.InGroup peer groupName

omit [DecidableEq Peer] in
theorem exists_recipients (harrays : ArraysValid manager.clientGroups) (groupName : Name)
    (data : List UInt8) (flags : UInt32) :
    ∃ recipients : List Peer, recipients.Nodup ∧
      (∀ peer, peer ∈ recipients ↔ manager.InGroup peer groupName) ∧
      manager.sendPacketToGroup groupName data flags =
        { manager with
          trace := manager.trace ++ recipients.map fun peer => .peerSend peer 0 ⟨data, flags⟩ } := by
  refine ⟨(manager.clientGroups.find groupName).getD [], ?_, ?_, sendPacketToGroup_eq ..⟩
  · cases hfind : manager.clientGroups.find groupName with
    | none => exact List.nodup_nil
    | some peersInGroup => exact (harrays groupName peersInGroup hfind).1
  · intro peer
    unfold InGroup Lists
    cases hfind : manager.clientGroups.find groupName <;> simp

theorem idleWithoutHost_run {initialized : Bool} {events : List (ManagerEvent Host Peer Name)}
    (hadds : Historically (AddsConnected initialized) events) :
    (run step (create initialized) events).IdleWithoutHost := by
  apply run_invariant_of_everyStep (P := IdleWithoutHost) (Q := AddsWithHost)
  · rintro - peer groupName ⟨peersInGroup, hfind, -⟩
    simp [create] at hfind
  · exact fun manager event h hevent => h.step hevent
  · intro before event after hevents peer groupName hadd
    exact (connected_of_historically hadds hevents hadd).1

/-- A peer is in a group when it was added to it and has not been taken out since. -/
theorem inGroup_run_iff {initialized : Bool} {events : List (ManagerEvent Host Peer Name)}
    (hadds : Historically (AddsConnected initialized) events) (peer : Peer) (groupName : Name) :
    (run step (create initialized) events).InGroup peer groupName ↔
      Outstanding (Adds peer groupName) (Drops peer groupName) events := by
  induction events using List.reverseRecOn with
  | nil =>
      apply iff_of_false
      · rintro ⟨peersInGroup, hfind, -⟩
        simp [create] at hfind
      · exact not_outstanding_nil _ _
  | append_singleton before event ih =>
      obtain ⟨hbefore, -⟩ := historically_concat.mp hadds
      rw [run_concat, inGroup_step (idleWithoutHost_run hbefore), outstanding_concat, ih hbefore]

omit [DecidableEq Peer] [DecidableEq Name] in
/-- Whoever was added while connected, and has not been taken out, is still connected. -/
theorem connected_of_outstanding {events : List (ManagerEvent Host Peer Name)} {peer : Peer}
    {groupName : Name}
    (hadds : ∀ before after, events = before ++ .addPeerToGroup (some peer) groupName :: after →
      Connected before peer)
    (h : Outstanding (Adds peer groupName) (Drops peer groupName) events) :
    Connected events peer := by
  obtain ⟨before, entry, after, hevents, rfl, hkept⟩ := h
  rw [hevents]
  apply Outstanding.append (hadds before after hevents)
  intro later hlater
  rcases List.mem_cons.mp hlater with rfl | hlater
  · simp
  · intro hdisconnect
    exact hkept later hlater (Or.inr (Or.inr (Or.inl hdisconnect)))

theorem connected_of_inGroup {initialized : Bool} {events : List (ManagerEvent Host Peer Name)}
    (hadds : Historically (AddsConnected initialized) events) {peer : Peer} {groupName : Name}
    (hmember : (run step (create initialized) events).InGroup peer groupName) :
    Connected events peer := by
  have houtstanding := (inGroup_run_iff hadds peer groupName).mp hmember
  refine connected_of_outstanding ?_ houtstanding
  intro before after hevents
  exact (connected_of_historically hadds hevents rfl).2

/-- **The groups are a faithful set of live peers.**  In every run of a manager in which
peers are added while a host runs and they are connected. -/
theorem groups_faithful (initialized : Bool) {events : List (ManagerEvent Host Peer Name)}
    (hadds : Historically (AddsConnected initialized) events) :
    Faithful events (run step (create initialized) events) := by
  have harrays : ArraysValid (run step (create initialized) events).clientGroups := by
    refine run_invariant
      (P := fun manager : ENetManager Host Peer Name => ArraysValid manager.clientGroups) ?_
      (fun manager event h => arraysValid_step h event) events
    intro groupName peersInGroup hfind
    simp [create] at hfind
  constructor
  · exact harrays
  · exact inGroup_run_iff hadds
  · exact exists_recipients harrays
  · intro peer hgone groupName hmember
    exact hgone (connected_of_inGroup hadds hmember)
  · rintro before peer rfl hgone groupName hmember
    obtain ⟨hbefore, -⟩ := historically_concat.mp hadds
    rw [run_concat, inGroup_step (idleWithoutHost_run hbefore)] at hmember
    rcases hmember with hadd | ⟨hmember, -⟩
    · simp [Adds] at hadd
    · exact hgone (connected_of_inGroup hbefore hmember)
  · rintro before after rfl peer groupName hnever hmember
    -- the `Stop` drops every pair, so that only a later addition counts
    have hdrops : Drops peer groupName (.stop : ManagerEvent Host Peer Name) :=
      Or.inr (Or.inr (Or.inr rfl))
    rcases ((inGroup_run_iff hadds peer groupName).mp hmember).of_closed hdrops with
      hadd | ⟨first, entry, rest, rfl, rfl, -⟩
    · simp [Adds] at hadd
    · exact hnever (by simp)

/-- Two peers connect and are added to a room, one of them twice; the other one disconnects,
and its slot is used again. -/
def twoJoin : List (ManagerEvent ℕ ℕ String) :=
  [.startServer 7777 32 (some 0), .service (.connect 1), .service (.connect 2),
    .addPeerToGroup (some 1) "room", .addPeerToGroup (some 1) "room",
    .addPeerToGroup (some 2) "room", .service (.disconnect 2), .service (.connect 2)]

theorem groups_faithful_twoJoin :
    Faithful twoJoin (run step (create true) twoJoin) ∧
      (run step (create true) twoJoin).clientGroups.find "room" = some [1] := by
  exact ⟨groups_faithful true (by decide +kernel), by decide +kernel⟩

end ENetManager

end HktBase.ENet
