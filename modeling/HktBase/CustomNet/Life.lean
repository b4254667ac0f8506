import HktBase.CustomNet.ServerMoves

/-!
# The life of a connection

The history of a connection is the part of the trace since it was registered, `life`.
`lifeStep_of_move` says once what a move can do to one address.  `ConnectionInvariant`
collects what a property of a connection and its history has to satisfy, one condition
for each kind of step, and `ConnectionInvariant.moves` concludes that it holds of every
connection after any chain of moves.

A life starts with the entry that registers the address and ends with the one that drops it
(`bounds`).  In between, entries of other addresses are `Irrelevant` and pass by, so that an
invariant is stated about one record and its own entries only.
-/

namespace HktBase.CustomNet

open Transition HktReliableUdpServer

variable {Addr : Type}

/-! ## Histories -/

namespace ServerAction

/-- The connection whose history an entry belongs to. -/
def key : ServerAction Addr → Option String
  | .socketSendTo .. => none
  | .nullSocket => none
  | .checkForResends _ => none
  | .newConnection addrStr => addrStr
  | .disconnected addrStr => addrStr
  | .processAck addrStr _ => addrStr
  | .sentData addrStr _ _ => addrStr
  | .resent addrStr _ _ => addrStr
  | .resendLimit addrStr => addrStr

/-- The entry begins or ends a life. -/
def isBoundary : ServerAction Addr → Bool
  | .newConnection _ => true
  | .disconnected _ => true
  | _ => false

/-- The entry says nothing about the connection. -/
def Irrelevant (addrStr : String) (action : ServerAction Addr) : Prop :=
  action.key ≠ some addrStr ∧ ∀ currentTime, action ≠ .checkForResends currentTime

theorem IsReport.irrelevant {addrStr : String} {action : ServerAction Addr}
    (h : action.IsReport) : action.Irrelevant addrStr := by
  cases action <;> simp_all [IsReport, Irrelevant, key]

theorem IsResend.isBoundary_eq_false {action : ServerAction Addr} (h : action.IsResend) :
    action.isBoundary = false := by
  cases action <;> simp_all [IsResend, isBoundary]

end ServerAction

/-- The entry begins or ends a life of the connection. -/
def bounds (addrStr : String) (action : ServerAction Addr) : Bool :=
  action.isBoundary && decide (action.key = some addrStr)

/-- The part of a trace since the connection was registered or its last life ended. -/
def lifeIn (addrStr : String) (trace : List (ServerAction Addr)) : List (ServerAction Addr) :=
  sinceLast (bounds addrStr) trace

/-- The history of a connection. -/
def HktReliableUdpServer.life (server : HktReliableUdpServer Addr) (addrStr : String) :
    List (ServerAction Addr) :=
  lifeIn addrStr server.trace

theorem mem_of_mem_lifeIn {addrStr : String} {trace : List (ServerAction Addr)}
    {action : ServerAction Addr} (h : action ∈ lifeIn addrStr trace) : action ∈ trace :=
  (sinceLast_suffix (bounds addrStr) trace).subset h

theorem lifeIn_append_of_irrelevant {addrStr : String} {trace actions : List (ServerAction Addr)}
    (hactions : ∀ action ∈ actions, action.Irrelevant addrStr) :
    lifeIn addrStr (trace ++ actions) = lifeIn addrStr trace ++ actions := by
  refine sinceLast_append_of_not (fun action haction => ?_) trace
  simp [bounds, (hactions action haction).1]

theorem lifeIn_append_of_not_isBoundary {addrStr : String}
    {trace actions : List (ServerAction Addr)}
    (hactions : ∀ action ∈ actions, action.isBoundary = false) :
    lifeIn addrStr (trace ++ actions) = lifeIn addrStr trace ++ actions := by
  refine sinceLast_append_of_not (fun action haction => ?_) trace
  simp [bounds, hactions action haction]

theorem lifeIn_concat_of_bounds {addrStr : String} {trace : List (ServerAction Addr)}
    {action : ServerAction Addr} (hbounds : bounds addrStr action = true) :
    lifeIn addrStr (trace ++ [action]) = [] := by
  rw [lifeIn, sinceLast_concat, if_pos hbounds]

/-! ## Moves as one address sees them -/

variable [Platform Addr] {hears : String → PacketHeader → Prop}

omit [Platform Addr] in
theorem ServerAction.irrelevant_of_key {addrStr other : String} {action : ServerAction Addr}
    (hkey : action.key = some other) (hne : addrStr ≠ other) : action.Irrelevant addrStr := by
  refine ⟨fun hsame => hne (Option.some.inj (hsame.symm.trans hkey)), ?_⟩
  rintro currentTime rfl
  simp [key] at hkey

/-- The entries that one step of a connection adds are no boundaries, and irrelevant to
every other connection. -/
theorem ConnectionStep.irrelevant_of_mem {listenSocket : Bool} {addrStr : String}
    {before after : ClientConnection Addr} {actions : List (ServerAction Addr)}
    (hstep : ConnectionStep hears listenSocket addrStr before actions after)
    {action : ServerAction Addr} (haction : action ∈ actions) :
    action.isBoundary = false ∧ ∀ other, other ≠ addrStr → action.Irrelevant other := by
  cases hstep with
  | processAck now header _ =>
      obtain rfl := List.mem_singleton.mp haction
      exact ⟨rfl, fun other hne => ServerAction.irrelevant_of_key rfl hne⟩
  | updateReceivedState sequence => simp at haction
  | sendTo dstAddr now data =>
      rcases List.mem_pair.mp haction with rfl | rfl
      · exact ⟨rfl, fun other _ => ⟨by simp [ServerAction.key], by simp⟩⟩
      · exact ⟨rfl, fun other hne => ServerAction.irrelevant_of_key rfl hne⟩

/-- What a move can do to the record of one address, if there is one, and its history. -/
inductive LifeStep (hears : String → PacketHeader → Prop) (addrStr : String) :
    Option (ClientConnection Addr) → List (ServerAction Addr) →
      Option (ClientConnection Addr) → List (ServerAction Addr) → Prop
  | irrelevant {record : Option (ClientConnection Addr)} {life : List (ServerAction Addr)}
      (actions : List (ServerAction Addr)) : (∀ action ∈ actions, action.Irrelevant addrStr) →
      LifeStep hears addrStr record life record (life ++ actions)
  | accept {life : List (ServerAction Addr)} (now : Time) (newAddr : Addr) :
      Platform.toString newAddr = addrStr →
      LifeStep hears addrStr none life (some { address := newAddr, lastReceiveTime := now }) []
  | disconnect {connection : ClientConnection Addr} {life : List (ServerAction Addr)} :
      LifeStep hears addrStr (some connection) life none []
  | connection {listenSocket : Bool} {before after : ClientConnection Addr}
      {life actions : List (ServerAction Addr)} :
      ConnectionStep hears listenSocket addrStr before actions after →
      LifeStep hears addrStr (some before) life (some after) (life ++ actions)
  | resend {record : Option (ClientConnection Addr)} {life actions : List (ServerAction Addr)}
      (currentTime : Time) : (∀ action ∈ actions, action.IsResend) →
      (.resendLimit addrStr ∈ actions ↔ ∃ connection, record = some connection ∧
        (resendPending currentTime connection.pendingAckPackets).limitExceeded = true) →
      LifeStep hears addrStr record life
        (record.map fun connection => connection.afterResend currentTime)
        (life ++ .checkForResends currentTime :: actions)
  | groups {connection : ClientConnection Addr} {life : List (ServerAction Addr)}
      (groupIds : TSet Int32) :
      LifeStep hears addrStr (some connection) life
        (some { connection with groupIds := groupIds }) life

theorem LifeStep.refl (hears : String → PacketHeader → Prop) (addrStr : String)
    (record : Option (ClientConnection Addr)) (life : List (ServerAction Addr)) :
    LifeStep hears addrStr record life record life := by
  have hstep : LifeStep hears addrStr record life record (life ++ []) :=
    .irrelevant [] (by simp)
  rwa [List.append_nil] at hstep

/-- Where a function changes nothing but the groups of the records. -/
theorem lifeStep_of_groups {server next : HktReliableUdpServer Addr} {changed : String}
    (h : ChangesGroups changed server next) (addrStr : String) :
    LifeStep hears addrStr (server.connections.find addrStr) (server.life addrStr)
      (next.connections.find addrStr) (next.life addrStr) := by
  rw [HktReliableUdpServer.life, HktReliableUdpServer.life, h.trace]
  cases hnext : next.connections.find addrStr with
  | none =>
      have hnone : server.connections.find addrStr = none := by
        simpa [SparseMap.contains, hnext] using h.contains_connections addrStr
      rw [hnone]
      exact .refl hears addrStr none _
  | some connection =>
      obtain ⟨before, groupIds, hbefore, rfl⟩ := h.find_connections hnext
      rw [hbefore]
      exact .groups groupIds

/-- Every move is one of these steps for every address: for the one that it is about the step of
that name, for every other address irrelevant entries. -/
theorem lifeStep_of_move {server next : HktReliableUdpServer Addr} (hmove : Move hears server next)
    (addrStr : String) :
    LifeStep hears addrStr (server.connections.find addrStr) (server.life addrStr)
      (next.connections.find addrStr) (next.life addrStr) := by
  unfold HktReliableUdpServer.life
  cases hmove with
  | environment hconnections _ htrace _ =>
      rw [hconnections, htrace]
      exact .refl hears addrStr _ _
  | report action hreport =>
      rw [trace_emit, connections_emit,
        lifeIn_append_of_irrelevant (by simpa using hreport.irrelevant)]
      exact .irrelevant [action] (by simpa using hreport.irrelevant)
  -- a new connection begins a life for its address and means nothing to the others
  | accept now newAddr hnew =>
      rw [trace_emit, trace_setConnection, connections_emit,
        connections_setConnection, SparseMap.find_add]
      split
      · next hsame =>
          subst hsame
          rw [hnew,
            lifeIn_concat_of_bounds (by simp [bounds, ServerAction.isBoundary, ServerAction.key])]
          exact .accept now newAddr rfl
      · next hne =>
          have hirrelevant : ∀ action ∈
              [(.newConnection (Platform.toString newAddr) : ServerAction Addr)],
              action.Irrelevant addrStr := by
            intro action haction
            obtain rfl := List.mem_singleton.mp haction
            exact ServerAction.irrelevant_of_key rfl hne
          rw [lifeIn_append_of_irrelevant hirrelevant]
          exact .irrelevant _ hirrelevant
  | @connection changed before after actions hbefore hstep =>
      have hactions := fun action (haction : action ∈ actions) => hstep.irrelevant_of_mem haction
      rw [lifeIn_append_of_not_isBoundary fun action haction => (hactions action haction).1,
        connections_setConnection, SparseMap.find_add]
      split
      · -- the record of this address changes
        next hsame =>
          subst hsame
          rw [hbefore]
          exact .connection hstep
      · next hne => exact .irrelevant _ fun action haction => (hactions action haction).2 addrStr hne
  -- one round of the loop for every address that is registered
  | resend currentTime =>
      obtain ⟨actions, hresends⟩ := resends_resendAll currentTime server
      rw [hresends.find_keys, hresends.trace, trace_emit,
        List.append_assoc, List.singleton_append, lifeIn_append_of_not_isBoundary]
      · refine .resend currentTime hresends.isResend ?_
        rw [hresends.resendLimit, connections_emit]
        refine and_iff_right_of_imp ?_
        rintro ⟨connection, hfind, -⟩
        exact SparseMap.mem_keys.mpr ⟨connection, hfind⟩
      · intro action haction
        rcases List.mem_cons.mp haction with rfl | haction
        · rfl
        · exact (hresends.isResend action haction).isBoundary_eq_false
  -- the life of the dropped address ends with the entry that says so
  | disconnect changed =>
      rw [find_connections_disconnectClient, trace_disconnectClient]
      split
      · next hsame =>
          subst hsame
          cases hfind : server.connections.find addrStr with
          -- a stranger's disconnect is not even recorded
          | none =>
              simp only [SparseMap.contains, hfind, Option.isSome_none, Bool.false_eq_true,
                if_false, List.append_nil]
              exact .refl hears addrStr none _
          | some connection =>
              simp only [SparseMap.contains, hfind, Option.isSome_some, if_true]
              rw [lifeIn_concat_of_bounds
                (by simp [bounds, ServerAction.isBoundary, ServerAction.key])]
              exact .disconnect
      · next hne =>
          have hirrelevant : ∀ action ∈ (if server.connections.contains changed then
              [(.disconnected changed : ServerAction Addr)] else []),
              action.Irrelevant addrStr := by
            intro action haction
            split at haction
            · obtain rfl := List.mem_singleton.mp haction
              exact ServerAction.irrelevant_of_key rfl hne
            · simp at haction
          rw [lifeIn_append_of_irrelevant hirrelevant]
          exact .irrelevant _ hirrelevant
  | joinGroup clientAddr groupId =>
      exact lifeStep_of_groups (changesGroups_joinGroup clientAddr groupId server) addrStr
  | leaveGroup clientAddr groupId =>
      exact lifeStep_of_groups (changesGroups_leaveGroup clientAddr groupId server) addrStr

/-! ## Properties of a connection and its history -/

/-- What a property of a connection and its history has to satisfy. -/
structure ConnectionInvariant (hears : String → PacketHeader → Prop)
    (P : String → List (ServerAction Addr) → ClientConnection Addr → Prop) : Prop where
  fresh : ∀ now newAddr, P (Platform.toString newAddr) []
    { address := newAddr, lastReceiveTime := now }
  step : ∀ {listenSocket addrStr before actions after life},
    ConnectionStep hears listenSocket addrStr before actions after → P addrStr life before →
    P addrStr (life ++ actions) after
  resend : ∀ {currentTime addrStr life connection} {actions : List (ServerAction Addr)},
    (∀ action ∈ actions, action.IsResend) →
    (.resendLimit addrStr ∈ actions ↔
      (resendPending currentTime connection.pendingAckPackets).limitExceeded = true) →
    P addrStr life connection →
    P addrStr (life ++ .checkForResends currentTime :: actions)
      (connection.afterResend currentTime)
  groups : ∀ {addrStr life connection} groupIds, P addrStr life connection →
    P addrStr life { connection with groupIds := groupIds }
  irrelevant : ∀ {addrStr life connection} {action : ServerAction Addr},
    action.Irrelevant addrStr → P addrStr life connection → P addrStr (life ++ [action]) connection

namespace ConnectionInvariant

variable {P : String → List (ServerAction Addr) → ClientConnection Addr → Prop}

/-- The property holds of every registered connection and its history. -/
def HoldsIn (P : String → List (ServerAction Addr) → ClientConnection Addr → Prop)
    (server : HktReliableUdpServer Addr) : Prop :=
  ∀ addrStr connection, server.connections.find addrStr = some connection →
    P addrStr (server.life addrStr) connection

theorem append (h : ConnectionInvariant hears P) {addrStr : String}
    {connection : ClientConnection Addr} {life actions : List (ServerAction Addr)}
    (hactions : ∀ action ∈ actions, action.Irrelevant addrStr) (hlife : P addrStr life connection) :
    P addrStr (life ++ actions) connection := by
  induction actions using List.reverseRecOn with
  | nil => simpa using hlife
  | append_singleton before action ih =>
      rw [← List.append_assoc]
      refine h.irrelevant (hactions action (by simp)) (ih fun other hother => ?_)
      exact hactions other (by simp [hother])

/-- One step of an address, by the condition that `ConnectionInvariant` has for its kind. -/
theorem lifeStep (h : ConnectionInvariant hears P) {addrStr : String}
    {before after : Option (ClientConnection Addr)} {life later : List (ServerAction Addr)}
    (hstep : LifeStep hears addrStr before life after later)
    (hbefore : ∀ connection, before = some connection → P addrStr life connection) :
    ∀ connection, after = some connection → P addrStr later connection := by
  intro connection hafter
  cases hstep with
  | irrelevant actions hactions => exact h.append hactions (hbefore connection hafter)
  | accept now newAddr hnew =>
      obtain rfl := Option.some.inj hafter
      exact hnew ▸ h.fresh now newAddr
  | disconnect => simp at hafter
  | connection hstep =>
      obtain rfl := Option.some.inj hafter
      exact h.step hstep (hbefore _ rfl)
  | resend currentTime hactions hlimit =>
      obtain ⟨record, rfl, rfl⟩ := Option.map_eq_some_iff.mp hafter
      exact h.resend hactions (by simpa using hlimit) (hbefore record rfl)
  | groups groupIds =>
      obtain rfl := Option.some.inj hafter
      exact h.groups groupIds (hbefore _ rfl)

theorem moves (h : ConnectionInvariant hears P) {server : HktReliableUdpServer Addr}
    (hmoves : Moves hears {} server) : HoldsIn P server :=
  preserved_of_moves (P := HoldsIn P)
    (fun _ _ hmove hbefore addrStr => h.lifeStep (lifeStep_of_move hmove addrStr) (hbefore addrStr))
    hmoves (by simp [HoldsIn])

end ConnectionInvariant

end HktBase.CustomNet
