import HktBase.CustomNet.ServerMoves

/-!
# Group membership

The server keeps membership twice: `Groups` maps a group id to its members, and
every connection lists its own groups.  `GroupsConsistent` says that the two indexes
describe one relation between addresses and group ids, that no group is empty and
that every stored address prints to the key it is stored under.  It is preserved by
every move, so it holds in every reachable state.

`listsGroup_joinGroup_iff` and `listsGroup_leaveGroup_iff` say what the group calls do to that
relation, and `listsGroup_remove_iff` what the removal of a connection does.

Three layers carry the proof.  `find_removeMember` and `isMember_removeMember` are about one
member map, `GroupsWellFormed` with its two operations about all of them, and the lemmas
`GroupsConsistent.joinGroup`, `GroupsConsistent.leaveGroup` and
`GroupsConsistent.disconnectClient` about both indexes at once.  `GroupsConsistent.move`
collects them, one for each move.
-/

namespace HktBase.CustomNet

variable {Addr : Type}

/-! ## The two indexes -/

/-- The address string is a key of the member map of the group. -/
def IsMember (groups : TMap Int32 (TMap String Addr)) (groupId : Int32) (addrStr : String) : Prop :=
  ∃ groupMembers, groups.find groupId = some groupMembers ∧ groupMembers.contains addrStr = true

/-- The connection of the address string lists the group. -/
def ListsGroup (connections : TMap String (ClientConnection Addr)) (addrStr : String)
    (groupId : Int32) : Prop :=
  ∃ connection, connections.find addrStr = some connection ∧
    connection.groupIds.contains groupId = true

/-- No group is empty, and members are stored under their printed address. -/
structure GroupsWellFormed [Platform Addr] (groups : TMap Int32 (TMap String Addr)) : Prop where
  nonempty : ∀ groupId groupMembers, groups.find groupId = some groupMembers →
    groupMembers.isEmpty = false
  member_address : ∀ groupId groupMembers addrStr (address : Addr),
    groups.find groupId = some groupMembers → groupMembers.find addrStr = some address →
    Platform.toString address = addrStr

structure GroupsConsistent [Platform Addr] (server : HktReliableUdpServer Addr) : Prop extends
    GroupsWellFormed server.groups where
  member_iff : ∀ groupId addrStr,
    IsMember server.groups groupId addrStr ↔ ListsGroup server.connections addrStr groupId
  connection_address : ∀ addrStr connection, server.connections.find addrStr = some connection →
    Platform.toString connection.address = addrStr

/-! ## Removing a member -/

open HktReliableUdpServer

theorem find_removeMember (addrStr : String) (groups : TMap Int32 (TMap String Addr))
    (groupId other : Int32) :
    (removeMember addrStr groups groupId).find other =
      if other = groupId then
        ((groups.find groupId).map fun groupMembers => groupMembers.remove addrStr).filter
          fun groupMembers => !groupMembers.isEmpty
      else groups.find other := by
  cases hfind : groups.find groupId with
  | none =>
      simp only [removeMember, hfind]
      split
      · next h => rw [h, hfind]; rfl
      · rfl
  | some groupMembers =>
      simp only [removeMember, hfind, Option.map_some]
      by_cases hempty : (groupMembers.remove addrStr).isEmpty = true
      -- the group has lost its last member and is removed
      · rw [if_pos hempty, SparseMap.find_remove]
        by_cases h : other = groupId
        · simp [h, hempty, Option.filter]
        · rw [if_neg h, if_neg h, SparseMap.find_add_of_ne _ _ h]
      · rw [if_neg hempty, SparseMap.find_add]
        simp only [Bool.not_eq_true] at hempty
        simp [hempty, Option.filter]

theorem isMember_removeMember (addrStr : String) (groups : TMap Int32 (TMap String Addr))
    (groupId other : Int32) (member : String) :
    IsMember (removeMember addrStr groups groupId) other member ↔
      IsMember groups other member ∧ ¬ (other = groupId ∧ member = addrStr) := by
  unfold IsMember
  rw [find_removeMember]
  by_cases h : other = groupId
  · subst h
    rw [if_pos rfl]
    constructor
    · rintro ⟨remaining, hremaining, hmember⟩
      obtain ⟨hmap, -⟩ := Option.filter_eq_some_iff.mp hremaining
      obtain ⟨groupMembers, hfind, rfl⟩ := Option.map_eq_some_iff.mp hmap
      obtain ⟨hne, hmember⟩ := SparseMap.contains_remove.mp hmember
      exact ⟨⟨groupMembers, hfind, hmember⟩, fun hsame => hne hsame.2⟩
    · rintro ⟨⟨groupMembers, hfind, hmember⟩, hne⟩
      have hremain : (groupMembers.remove addrStr).contains member = true :=
        SparseMap.contains_remove.mpr ⟨fun hsame => hne ⟨rfl, hsame⟩, hmember⟩
      refine ⟨groupMembers.remove addrStr, ?_, hremain⟩
      refine Option.filter_eq_some_iff.mpr ⟨by rw [hfind]; rfl, ?_⟩
      -- the group is kept, since the other member is still in it
      rw [Bool.not_eq_true', ← Bool.not_eq_true, SparseMap.isEmpty_iff]
      intro hnone
      simp [SparseMap.contains, hnone member] at hremain
  · simp [h]

theorem GroupsWellFormed.removeMember [Platform Addr] {groups : TMap Int32 (TMap String Addr)}
    (h : GroupsWellFormed groups) (addrStr : String) (groupId : Int32) :
    GroupsWellFormed (HktReliableUdpServer.removeMember addrStr groups groupId) := by
  constructor
  · intro other remaining hremaining
    rw [find_removeMember] at hremaining
    split at hremaining
    · simpa using (Option.filter_eq_some_iff.mp hremaining).2
    · exact h.nonempty other remaining hremaining
  · intro other remaining member address hremaining hmember
    rw [find_removeMember] at hremaining
    split at hremaining
    · obtain ⟨hmap, -⟩ := Option.filter_eq_some_iff.mp hremaining
      obtain ⟨groupMembers, hfind, rfl⟩ := Option.map_eq_some_iff.mp hmap
      rw [SparseMap.find_remove] at hmember
      split at hmember
      · simp at hmember
      · exact h.member_address groupId groupMembers member address hfind hmember
    · exact h.member_address other remaining member address hremaining hmember

theorem isMember_foldl_removeMember (addrStr : String) (groupIds : List Int32)
    (groups : TMap Int32 (TMap String Addr)) (other : Int32) (member : String) :
    IsMember (groupIds.foldl (removeMember addrStr) groups) other member ↔
      IsMember groups other member ∧ ¬ (other ∈ groupIds ∧ member = addrStr) := by
  induction groupIds generalizing groups with
  | nil => simp
  | cons groupId rest ih =>
      rw [List.foldl_cons, ih, isMember_removeMember, List.mem_cons]
      tauto

theorem GroupsWellFormed.foldl_removeMember [Platform Addr] (addrStr : String)
    (groupIds : List Int32) {groups : TMap Int32 (TMap String Addr)}
    (h : GroupsWellFormed groups) :
    GroupsWellFormed (groupIds.foldl (HktReliableUdpServer.removeMember addrStr) groups) := by
  induction groupIds generalizing groups with
  | nil => exact h
  | cons groupId rest ih => exact ih (GroupsWellFormed.removeMember h addrStr groupId)

/-! ## The group operations on the two indexes -/

theorem listsGroup_add_iff {connections : TMap String (ClientConnection Addr)} {addrStr : String}
    {connection : ClientConnection Addr} {other : String} {groupId : Int32} :
    ListsGroup (connections.add addrStr connection) other groupId ↔
      if other = addrStr then connection.groupIds.contains groupId = true
      else ListsGroup connections other groupId := by
  unfold ListsGroup
  rw [SparseMap.find_add]
  split <;> simp

/-- Writing back a record with the same groups changes no membership. -/
theorem listsGroup_add_of_groupIds_eq {connections : TMap String (ClientConnection Addr)}
    {addrStr : String} {before : ClientConnection Addr} (after : ClientConnection Addr)
    (hfind : connections.find addrStr = some before) (hgroups : after.groupIds = before.groupIds)
    (other : String) (groupId : Int32) :
    ListsGroup (connections.add addrStr after) other groupId ↔
      ListsGroup connections other groupId := by
  rw [listsGroup_add_iff]
  split
  · next h =>
      subst h
      simp [ListsGroup, hfind, hgroups]
  · rfl

theorem listsGroup_remove_iff {connections : TMap String (ClientConnection Addr)}
    {addrStr other : String} {groupId : Int32} :
    ListsGroup (connections.remove addrStr) other groupId ↔
      other ≠ addrStr ∧ ListsGroup connections other groupId := by
  unfold ListsGroup
  rw [SparseMap.find_remove]
  split <;> simp_all

theorem isMember_add_iff {groups : TMap Int32 (TMap String Addr)} {groupId other : Int32}
    {groupMembers : TMap String Addr} {member : String} :
    IsMember (groups.add groupId groupMembers) other member ↔
      if other = groupId then groupMembers.contains member = true
      else IsMember groups other member := by
  unfold IsMember
  rw [SparseMap.find_add]
  split <;> simp

/-- A group with a new member is not empty, and the member is stored under its address. -/
theorem GroupsWellFormed.addMember [Platform Addr] {groups : TMap Int32 (TMap String Addr)}
    (h : GroupsWellFormed groups) (clientAddr : Addr) (groupId : Int32) :
    GroupsWellFormed (groups.add groupId
      (((groups.find groupId).getD ∅).add (Platform.toString clientAddr) clientAddr)) := by
  constructor
  · intro other groupMembers hother
    rw [SparseMap.find_add] at hother
    split at hother
    · obtain rfl := Option.some.inj hother
      rw [← Bool.not_eq_true, SparseMap.isEmpty_iff]
      intro hnone
      simpa [SparseMap.find_add_self] using hnone (Platform.toString clientAddr)
    · exact h.nonempty other groupMembers hother
  · intro other groupMembers member address hother hmember
    rw [SparseMap.find_add] at hother
    split at hother
    · obtain rfl := Option.some.inj hother
      rw [SparseMap.find_add] at hmember
      split at hmember
      · next hsame => rw [hsame, Option.some.inj hmember]
      · cases hgroup : groups.find groupId with
        | none => simp [hgroup] at hmember
        | some old =>
            rw [hgroup] at hmember
            exact h.member_address groupId old member address hgroup hmember
    · exact h.member_address other groupMembers member address hother hmember

/-- `Groups.FindOrAdd` makes an absent group an empty one. -/
theorem contains_getD_iff {groups : TMap Int32 (TMap String Addr)} {groupId : Int32}
    {member : String} :
    ((groups.find groupId).getD ∅).contains member = true ↔ IsMember groups groupId member := by
  unfold IsMember
  cases groups.find groupId <;> simp

section

variable [Platform Addr] {server : HktReliableUdpServer Addr}

theorem listsGroup_joinGroup_iff (server : HktReliableUdpServer Addr) (clientAddr : Addr)
    (groupId : Int32) (other : String) (otherId : Int32) :
    ListsGroup (server.joinGroup clientAddr groupId).connections other otherId ↔
      ListsGroup server.connections other otherId ∨
        (server.connections.contains other = true ∧ other = Platform.toString clientAddr ∧
          otherId = groupId) := by
  unfold joinGroup
  dsimp only
  split
  · next hfind =>
      -- without a record `JoinGroup` returns at once
      refine (or_iff_left ?_).symm
      rintro ⟨hcontains, rfl, -⟩
      simp [SparseMap.contains, hfind] at hcontains
  · next connection hfind =>
      split
      · next hlisted =>
          -- the group is listed already, and the pair is an old one
          refine (or_iff_left_of_imp ?_).symm
          rintro ⟨-, rfl, rfl⟩
          exact ⟨connection, hfind, hlisted⟩
      · rw [listsGroup_add_iff]
        split
        · next h =>
            subst h
            rw [SparseMap.contains_add]
            simp [ListsGroup, SparseMap.contains, hfind, or_comm]
        · next h => simp [h]

theorem listsGroup_leaveGroup_iff (server : HktReliableUdpServer Addr) (clientAddr : Addr)
    (groupId : Int32) (other : String) (otherId : Int32) :
    ListsGroup (server.leaveGroup clientAddr groupId).connections other otherId ↔
      ListsGroup server.connections other otherId ∧
        ¬ (other = Platform.toString clientAddr ∧ otherId = groupId) := by
  unfold leaveGroup
  dsimp only
  split
  · next hfind =>
      refine (and_iff_left_of_imp ?_).symm
      rintro ⟨connection, hother, -⟩ ⟨rfl, -⟩
      simp [hfind] at hother
  · next connection hfind =>
      split
      · rw [listsGroup_add_iff]
        split
        · next h =>
            subst h
            rw [SparseMap.contains_remove]
            simp [ListsGroup, hfind, and_comm]
        · next h => simp [h]
      · next hlisted =>
          refine (and_iff_left_of_imp ?_).symm
          rintro ⟨found, hother, hcontains⟩ ⟨rfl, rfl⟩
          rw [hfind, Option.some.injEq] at hother
          exact hlisted (hother ▸ hcontains)

/-! ## The invariant -/

theorem groupsConsistent_init : GroupsConsistent ({} : HktReliableUdpServer Addr) where
  nonempty := by simp
  member_address := by simp
  member_iff := by simp [IsMember, ListsGroup]
  connection_address := by simp

/-- A change of connections that keeps every record's address and groups. -/
theorem GroupsConsistent.of_connections {next : HktReliableUdpServer Addr}
    (h : GroupsConsistent server) (hgroups : next.groups = server.groups)
    (hlists : ∀ addrStr groupId, ListsGroup next.connections addrStr groupId ↔
      ListsGroup server.connections addrStr groupId)
    (haddress : ∀ addrStr connection, next.connections.find addrStr = some connection →
      Platform.toString connection.address = addrStr) :
    GroupsConsistent next where
  nonempty := by rw [hgroups]; exact h.nonempty
  member_address := by rw [hgroups]; exact h.member_address
  member_iff groupId addrStr := by rw [hgroups, h.member_iff, hlists]
  connection_address := haddress

theorem ConnectionStep.groupIds_eq {hears : String → PacketHeader → Prop} {listenSocket : Bool}
    {addrStr : String} {before after : ClientConnection Addr} {actions : List (ServerAction Addr)}
    (hstep : ConnectionStep hears listenSocket addrStr before actions after) :
    after.groupIds = before.groupIds ∧ after.address = before.address := by
  cases hstep <;> exact ⟨rfl, rfl⟩

theorem GroupsConsistent.connection (h : GroupsConsistent server)
    {hears : String → PacketHeader → Prop} {addrStr : String}
    {before after : ClientConnection Addr} {actions : List (ServerAction Addr)}
    (hfind : server.connections.find addrStr = some before)
    (hstep : ConnectionStep hears server.listenSocket addrStr before actions after) :
    GroupsConsistent { server.setConnection addrStr after with
      trace := server.trace ++ actions } := by
  obtain ⟨hgroups, haddress⟩ := ConnectionStep.groupIds_eq hstep
  refine h.of_connections rfl (listsGroup_add_of_groupIds_eq after hfind hgroups) ?_
  intro other connection hother
  rw [setConnection, SparseMap.find_add] at hother
  split at hother
  · next hsame =>
      obtain rfl : after = connection := by simpa using hother
      rw [haddress, h.connection_address addrStr before hfind, hsame]
  · exact h.connection_address other connection hother

/-- The loop of `CheckForResends` keeps every record's address and groups. -/
theorem GroupsConsistent.resend (h : GroupsConsistent server) (currentTime : Time) :
    GroupsConsistent (server.resendAll currentTime).1 := by
  obtain ⟨actions, hresends⟩ := resends_resendAll currentTime server
  refine h.of_connections hresends.groups ?_ ?_
  · intro addrStr groupId
    unfold ListsGroup
    rw [hresends.find_keys]
    cases server.connections.find addrStr <;> simp [ClientConnection.afterResend]
  · intro addrStr connection hfind
    rw [hresends.find_keys] at hfind
    obtain ⟨before, hbefore, rfl⟩ := Option.map_eq_some_iff.mp hfind
    exact h.connection_address addrStr before hbefore

theorem GroupsConsistent.accept (h : GroupsConsistent server) (now : Time) (newAddr : Addr)
    (hnew : server.connections.find (Platform.toString newAddr) = none) :
    GroupsConsistent ((server.setConnection (Platform.toString newAddr)
      { address := newAddr, lastReceiveTime := now }).emit
        (.newConnection (Platform.toString newAddr))) := by
  refine h.of_connections rfl ?_ ?_
  · intro other groupId
    rw [connections_emit, connections_setConnection, listsGroup_add_iff]
    split
    · next hsame => simp [ListsGroup, hsame, hnew]
    · rfl
  · intro other connection hother
    rw [connections_emit, connections_setConnection, SparseMap.find_add] at hother
    split at hother
    · next hsame =>
        obtain rfl : ({ address := newAddr, lastReceiveTime := now } : ClientConnection Addr) =
          connection := by simpa using hother
        exact hsame.symm
    · exact h.connection_address other connection hother

/-- `DisconnectClient` sweeps the groups that the record lists and then drops the record: both
indexes lose every pair with the client, and no other. -/
theorem GroupsConsistent.disconnectClient (h : GroupsConsistent server) (addrStr : String) :
    GroupsConsistent (server.disconnectClient addrStr) := by
  unfold HktReliableUdpServer.disconnectClient
  split
  · exact h
  · next connection hfind =>
      have hwell := GroupsWellFormed.foldl_removeMember addrStr connection.groupIds.keys
        h.toGroupsWellFormed
      refine ⟨hwell, ?_, ?_⟩
      · intro groupId other
        rw [groups_emit, connections_emit, isMember_foldl_removeMember, h.member_iff,
          listsGroup_remove_iff]
        -- the groups swept are those that the removed connection lists
        have hown : ListsGroup server.connections addrStr groupId ↔
            groupId ∈ connection.groupIds.keys := by
          simp [ListsGroup, hfind, SparseMap.contains_iff, SparseMap.mem_keys]
        constructor
        · rintro ⟨hlists, hnot⟩
          refine ⟨?_, hlists⟩
          rintro rfl
          exact hnot ⟨hown.mp hlists, rfl⟩
        · rintro ⟨hne, hlists⟩
          exact ⟨hlists, fun hsame => hne hsame.2⟩
      · intro other found hother
        rw [connections_emit, SparseMap.find_remove] at hother
        split at hother
        · simp at hother
        · exact h.connection_address other found hother

theorem GroupsConsistent.address_of_changesGroups (h : GroupsConsistent server) {changed : String}
    {next : HktReliableUdpServer Addr} (hchanges : ChangesGroups changed server next)
    (addrStr : String) (connection : ClientConnection Addr)
    (hfind : next.connections.find addrStr = some connection) :
    Platform.toString connection.address = addrStr := by
  obtain ⟨before, groupIds, hbefore, rfl⟩ := hchanges.find_connections hfind
  exact h.connection_address addrStr before hbefore

/-- `JoinGroup` adds the pair to both indexes, or to neither: a sender without a record and one
that lists the group already are turned away before anything is written. -/
theorem GroupsConsistent.joinGroup (h : GroupsConsistent server) (clientAddr : Addr)
    (groupId : Int32) : GroupsConsistent (server.joinGroup clientAddr groupId) := by
  have hlists := listsGroup_joinGroup_iff server clientAddr groupId
  revert hlists
  unfold HktReliableUdpServer.joinGroup
  dsimp only
  split
  · exact fun _ => h
  · next connection hfind =>
      split
      · exact fun _ => h
      · intro hlists
        have hcontains : server.connections.contains (Platform.toString clientAddr) = true := by
          simp [SparseMap.contains, hfind]
        refine ⟨h.toGroupsWellFormed.addMember clientAddr groupId, ?_, ?_⟩
        · -- the member map of the group and the list of the connection gain the same pair
          intro other member
          rw [hlists, isMember_add_iff, ← h.member_iff]
          split
          · next hsame =>
              subst hsame
              rw [SparseMap.contains_add, contains_getD_iff]
              constructor
              · rintro (rfl | hmember)
                · exact Or.inr ⟨hcontains, rfl, rfl⟩
                · exact Or.inl hmember
              · rintro (hmember | ⟨-, rfl, -⟩)
                · exact Or.inr hmember
                · exact Or.inl rfl
          · next hne => simp [hne]
        · exact h.address_of_changesGroups (.groups connection _ _ hfind)

/-- `LeaveGroup` takes the pair out of both indexes.  It is guarded by the list of the record,
and a member map that gets empty is removed with its key. -/
theorem GroupsConsistent.leaveGroup (h : GroupsConsistent server) (clientAddr : Addr)
    (groupId : Int32) : GroupsConsistent (server.leaveGroup clientAddr groupId) := by
  have hlists := listsGroup_leaveGroup_iff server clientAddr groupId
  revert hlists
  unfold HktReliableUdpServer.leaveGroup
  dsimp only
  split
  · exact fun _ => h
  · next connection hfind =>
      split
      · intro hlists
        refine ⟨GroupsWellFormed.removeMember h.toGroupsWellFormed _ _, ?_, ?_⟩
        · intro other member
          rw [hlists, isMember_removeMember, h.member_iff]
          tauto
        · exact h.address_of_changesGroups (.groups connection _ _ hfind)
      · exact fun _ => h

/-- Every move keeps the two indexes consistent. -/
theorem GroupsConsistent.move {hears : String → PacketHeader → Prop}
    {next : HktReliableUdpServer Addr} (hmove : Move hears server next)
    (h : GroupsConsistent server) : GroupsConsistent next := by
  cases hmove with
  | environment hconnections hgroups _ _ =>
      refine h.of_connections hgroups ?_ ?_
      · intro addrStr groupId
        rw [hconnections]
      · rw [hconnections]
        exact h.connection_address
  | report action _ =>
      exact h.of_connections rfl (fun _ _ => Iff.rfl) h.connection_address
  | accept now newAddr hnew => exact h.accept now newAddr hnew
  | connection hfind hstep => exact h.connection hfind hstep
  | resend currentTime => exact h.resend currentTime
  | disconnect addrStr => exact h.disconnectClient addrStr
  | joinGroup clientAddr groupId => exact h.joinGroup clientAddr groupId
  | leaveGroup clientAddr groupId => exact h.leaveGroup clientAddr groupId

theorem GroupsConsistent.moves {hears : String → PacketHeader → Prop}
    {next : HktReliableUdpServer Addr} (h : GroupsConsistent server)
    (hmoves : Moves hears server next) : GroupsConsistent next :=
  Transition.preserved_of_moves (P := GroupsConsistent) (fun _ _ => GroupsConsistent.move) hmoves h

theorem HktReliableUdpServer.Reachable.groupsConsistent (h : Reachable server) :
    GroupsConsistent server :=
  h.of_moves groupsConsistent_init fun _ _ => GroupsConsistent.move

end

/-- **Group membership is consistent in both directions.**  After any sequence of
datagrams, ticks and calls: an address is a member of a group exactly when its
connection lists the group, every member and every connection is stored under its
printed address, and no group is empty. -/
theorem groups_consistent [Platform Addr] (events : List (ServerEvent Addr)) :
    GroupsConsistent (Transition.run HktReliableUdpServer.step {} events) :=
  HktReliableUdpServer.Reachable.groupsConsistent ⟨events, rfl⟩

end HktBase.CustomNet
