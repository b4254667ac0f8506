import HktBase.Library.TopicLog
import HktBase.Grpc.UnaryService

/-!
# What a session is given

The broadcasts of the server are a log in which every behavior has a group.  From the
moment at which a client joins a group its session is passed every behavior of the group,
in the order of the log, until it is destroyed.

Nothing but the listing in the group connects the two.  The entry of a session is
overwritten or erased only under the id of the session, so that it is enough that no id is
given out twice: `Phase` says what a session is waiting for or has been given, and
`Following` that every session is in one of these phases.  Neither the order in which a
group is visited nor the order in which operations complete plays a part.

## Strategy

One `Proceed` is one step here, as on one completion queue (`RpcWorkers.one_worker_is_atomic`).
Where broadcasts of several workers overlap there is no log that all sessions of a group agree
on; `RpcWorkers.workers_deliver_once` is about what is left then.

* `WritesEach` and `Extends` say what a broadcast, and any step, does to the sessions it does not
  concern;
* `Phase.of_same`, `Phase.write`, `Phase.fail` and `Phase.wrote` are the steps of one session;
* `Following.connect`, `Following.broadcast` and `Following.completeSession` put them together for
  an event of the server, and `following_run` for a run.
-/

namespace HktBase.Grpc

open Transition TopicLog

/-! ## Sessions -/

namespace StreamSession

theorem completed_complete_false (index : ℕ) (request : SyncRequest) (session : StreamSession) :
    (session.complete index false request).completed = session.completed := by
  unfold complete
  split
  · rfl
  · unfold proceed
    dsimp only
    split <;> rfl

end StreamSession

namespace RpcService

/-- A broadcast creates no session. -/
theorem nextSessionId_foldl_writeSession (packet : BehaviorPacket) (targets : List ℕ)
    (service : RpcService) :
    (targets.foldl (writeSession packet) service).nextSessionId = service.nextSessionId := by
  induction targets generalizing service with
  | nil => rfl
  | cons target rest ih =>
      rw [List.foldl_cons, ih]
      unfold writeSession
      split
      · rfl
      · split <;> rfl

theorem WritesEach.length_eq {packet : BehaviorPacket} {targets : List ℕ}
    {before after : RpcService} (h : WritesEach packet targets before after) :
    after.sessions.length = before.sessions.length := by
  have hnone : ∀ session, after.sessions.length ≤ session ↔ before.sessions.length ≤ session := by
    intro session
    rw [← List.getElem?_eq_none_iff, ← List.getElem?_eq_none_iff, h.sessions]
    split
    · exact Option.map_eq_none_iff
    · exact Iff.rfl
  have hle := (hnone before.sessions.length).mpr le_rfl
  have hge := (hnone after.sessions.length).mp le_rfl
  omega

/-- Only a client makes the service create a session. -/
theorem nextSessionId_complete {service : RpcService} {session index : ℕ} {bOk : Bool}
    (hclient : ∀ value, service.sessions[session]? = some value →
      value.outstanding[index]? = some .connect → bOk = false) (request : SyncRequest) :
    (service.complete session index bOk request).nextSessionId = service.nextSessionId := by
  unfold complete
  cases hvalue : service.sessions[session]? with
  | none => rfl
  | some value =>
      dsimp only
      cases hoperation : value.outstanding[index]? with
      | none => rfl
      | some operation =>
          cases hhandler : value.handler with
          | none => rfl
          | some handler =>
              cases bOk with
              | false =>
                  simp only [Bool.not_false, if_true, destroyed]
                  split <;> rfl
              | true =>
                  cases operation with
                  | connect => simpa using hclient value hvalue hoperation
                  | write response => rfl

theorem ListedAt.destroyed {service : RpcService} {groupId : Int32} {sessionId : UInt64}
    {session : ℕ} (h : service.ListedAt groupId sessionId session)
    {handler : StreamSessionHandler} (hne : sessionId ≠ handler.sessionId) :
    (service.destroyed handler).ListedAt groupId sessionId session := by
  unfold RpcService.destroyed
  split
  · exact listedAt_unregisterSession.mpr ⟨fun hkey => hne hkey.2, h⟩
  · exact h

theorem sessions_of_destroyed (handler : StreamSessionHandler) (service : RpcService) :
    (service.destroyed handler).sessions = service.sessions := by
  unfold destroyed
  split <;> rfl

/-! ## What becomes of what was passed to a session -/

/-- No session is lost, and what is passed to one is added to what it was passed. -/
def Extends (before after : RpcService) : Prop :=
  ∀ (session : ℕ) (value : StreamSession), before.sessions[session]? = some value →
    ∃ next, after.sessions[session]? = some next ∧ value.written <+: next.written

theorem Extends.refl (service : RpcService) : Extends service service :=
  fun _ value hvalue => ⟨value, hvalue, List.prefix_rfl⟩

/-- One session is changed, and others may be created. -/
theorem extends_of_set {before after : RpcService} {session : ℕ} {value changed : StreamSession}
    (hvalue : before.sessions[session]? = some value) (hwritten : value.written <+: changed.written)
    {more : List StreamSession}
    (hsessions : after.sessions = before.sessions.set session changed ++ more) :
    Extends before after := by
  intro other found hfound
  have hlt : other < before.sessions.length := (List.getElem?_eq_some_iff.mp hfound).1
  rw [hsessions, List.getElem?_append_left (by rwa [List.length_set])]
  by_cases hsame : session = other
  · subst hsame
    obtain rfl := Option.some.inj (hvalue.symm.trans hfound)
    exact ⟨changed, List.getElem?_set_self hlt, hwritten⟩
  · exact ⟨found, by rw [List.getElem?_set_ne hsame, hfound], List.prefix_rfl⟩

theorem extends_newSession (service : RpcService) : Extends service service.newSession := by
  intro session value hvalue
  have hlt : session < service.sessions.length := (List.getElem?_eq_some_iff.mp hvalue).1
  refine ⟨value, ?_, List.prefix_rfl⟩
  rw [newSession, List.getElem?_append_left hlt, hvalue]

theorem extends_complete (service : RpcService) (session index : ℕ) (bOk : Bool)
    (request : SyncRequest) : Extends service (service.complete session index bOk request) := by
  rcases service.complete_cases session index bOk request with
    ⟨hsessions, -⟩ | ⟨value, handler, operation, hvalue, -, -, hcases⟩
  · intro other found hfound
    exact ⟨found, by rw [hsessions, hfound], List.prefix_rfl⟩
  have hwritten : ∀ bOk, value.written <+: (value.complete index bOk request).written := by
    intro bOk
    rw [StreamSession.written_complete]
  rcases hcases with ⟨-, hnext⟩ | ⟨-, -, hnext⟩ | ⟨-, -, hnext⟩
  · have hsessions : (service.complete session index bOk request).sessions =
        service.sessions.set session (value.complete index false request) ++ [] := by
      rw [hnext, sessions_of_destroyed, List.append_nil]
      rfl
    exact extends_of_set hvalue (hwritten false) hsessions
  · apply extends_of_set hvalue (hwritten true)
    rw [hnext]
    rfl
  · have hsessions : (service.complete session index bOk request).sessions =
        service.sessions.set session (value.complete index true request) ++ [] := by
      rw [hnext, List.append_nil]
      rfl
    exact extends_of_set hvalue (hwritten true) hsessions

theorem WritesEach.extends {packet : BehaviorPacket} {targets : List ℕ}
    {before after : RpcService} (h : WritesEach packet targets before after) :
    Extends before after := by
  intro session value hvalue
  rw [h.sessions, hvalue]
  split
  · refine ⟨value.write packet, rfl, ?_⟩
    cases hhandler : value.handler with
    | none => rw [StreamSession.write, hhandler]
    | some handler =>
        rw [StreamSession.written_write hhandler]
        exact List.prefix_append ..
  · exact ⟨value, rfl, List.prefix_rfl⟩

theorem Extends.length_le {before after : RpcService} (h : Extends before after) :
    before.sessions.length ≤ after.sessions.length := by
  by_contra hlt
  rw [not_le] at hlt
  obtain ⟨found, hfound, -⟩ := h _ _ (List.getElem?_eq_getElem hlt)
  simp at hfound

end RpcService

namespace RpcServer

/-! ## Joining a group -/

/-- The id of a session, by the number of sessions before it. -/
def sessionIdOf (session : ℕ) : UInt64 := UInt64.ofNat (session + 1)

theorem sessionIdOf_injective {first second : ℕ} (hfirst : first + 1 < 2 ^ 64)
    (hsecond : second + 1 < 2 ^ 64) (h : sessionIdOf first = sessionIdOf second) :
    first = second := by
  have hnat := congrArg UInt64.toNat h
  rw [sessionIdOf, sessionIdOf, UInt64.toNat_ofNat', UInt64.toNat_ofNat',
    Nat.mod_eq_of_lt hfirst, Nat.mod_eq_of_lt hsecond] at hnat
  omega

/-- The behaviors that have been broadcast to a group. -/
def groupLog (groupId : Int32) (server : RpcServer) : List BehaviorPacket :=
  ofTopic groupId (server.broadcasts.map Prod.snd)

/-- A client has joined: its session, its group, and how many behaviors the group had seen
by then. -/
structure Join where
  session : ℕ
  groupId : Int64
  position : ℕ
  deriving DecidableEq

/-- The group as the messages carry it. -/
def Join.group (join : Join) : Int32 := join.groupId.toInt32

/-- The client that an event brings to a session. -/
def joined (server : RpcServer) : RpcEvent → Option Join
  | .syncGroup session index _ groupId =>
      if server.operation session index = some .connect ∧
          (server.service.handler session).isSome = true then
        some ⟨session, groupId, (server.groupLog groupId.toInt32).length⟩
      else none
  | _ => none

/-- What becomes of a session. -/
inductive Phase (joins : List Join) (server : RpcServer) (session : ℕ) : StreamSession → Prop
  /-- No client has come. -/
  | waiting :
      (∀ join ∈ joins, join.session ≠ session) →
      Phase joins server session (.start (sessionIdOf session))
  /-- No client will come. -/
  | refused {value : StreamSession} :
      (∀ join ∈ joins, join.session ≠ session) → value.handler = none →
      value.outstanding = [] → Phase joins server session value
  /-- The group of the client lists the session, which has been given all that the group has
  seen since. -/
  | live {value : StreamSession} {handler : StreamSessionHandler} (join : Join) :
      join ∈ joins → join.session = session → value.handler = some handler →
      handler.sessionId = sessionIdOf session →
      server.service.ListedAt join.group (sessionIdOf session) session →
      value.InStep handler → join.position ≤ (server.groupLog join.group).length →
      value.written =
        slice join.position (server.groupLog join.group).length (server.groupLog join.group) →
      Phase joins server session value
  /-- The session has been destroyed, and had been given what the group had seen until
  then. -/
  | left {value : StreamSession} (join : Join) (last : ℕ) :
      join ∈ joins → join.session = session → value.handler = none → value.outstanding = [] →
      join.position ≤ last → last ≤ (server.groupLog join.group).length →
      value.written = slice join.position last (server.groupLog join.group) →
      value.completed <+: value.written.map createResponseFromPacket →
      Phase joins server session value

/-- Every session is in a phase, and the ids have been given out in order. -/
structure Following (joins : List Join) (server : RpcServer) : Prop where
  nextSessionId : server.service.nextSessionId = sessionIdOf server.service.sessions.length
  opened : server.opened = joins.map fun join => (join.session, join.groupId)
  once : (joins.map Join.session).Nodup
  phases : ∀ session value, server.service.sessions[session]? = some value →
    Phase joins server session value

theorem following_init : Following [] {} where
  nextSessionId := rfl
  opened := rfl
  once := List.nodup_nil
  phases session value hvalue := by simp at hvalue

variable {joins : List Join} {server next : RpcServer}

/-! ## Steps that broadcast nothing -/

/-- A session of which nothing changes, while its group may go on without it: a session in the
group has to be written to when the log grows, a destroyed one has not. -/
theorem Phase.of_same {session : ℕ} {value : StreamSession}
    (h : Phase joins server session value) {more : List Join}
    (hmore : ∀ join ∈ more, join.session ≠ session)
    (hlisted : ∀ groupId, server.service.ListedAt groupId (sessionIdOf session) session →
      next.service.ListedAt groupId (sessionIdOf session) session ∧
        next.groupLog groupId = server.groupLog groupId)
    (hlog : ∀ groupId, server.groupLog groupId <+: next.groupLog groupId) :
    Phase (joins ++ more) next session value := by
  have hjoins : (∀ join ∈ joins, join.session ≠ session) →
      ∀ join ∈ joins ++ more, join.session ≠ session := by
    intro hnone join hmem
    rcases List.mem_append.mp hmem with hold | hnew
    · exact hnone join hold
    · exact hmore join hnew
  cases h with
  | waiting hnone => exact .waiting (hjoins hnone)
  | refused hnone hhandler houtstanding => exact .refused (hjoins hnone) hhandler houtstanding
  | live join hmem hsession hhandler hid hentry hstep hposition hwritten =>
      obtain ⟨hnext, hsame⟩ := hlisted _ hentry
      refine .live join (List.mem_append_left _ hmem) hsession hhandler hid hnext hstep ?_ ?_
      · rwa [hsame]
      · rwa [hsame]
  | left join last hmem hsession hhandler houtstanding hposition hlast hwritten hcompleted =>
      obtain ⟨later, hlater⟩ := hlog join.group
      refine .left join last (List.mem_append_left _ hmem) hsession hhandler houtstanding hposition
        ?_ ?_ hcompleted
      · rw [← hlater, List.length_append]
        omega
      · rw [← hlater, slice_append hlast, hwritten]

theorem groupLog_of_broadcasts (h : next.broadcasts = server.broadcasts) (groupId : Int32) :
    next.groupLog groupId = server.groupLog groupId := by
  rw [groupLog, groupLog, h]

/-- A step that changes no session, no group and no log. -/
theorem Following.of_same (h : Following joins server)
    (hsessions : next.service.sessions = server.service.sessions)
    (hgroups : next.service.groups = server.service.groups)
    (hid : next.service.nextSessionId = server.service.nextSessionId)
    (hopened : next.opened = server.opened) (hbroadcasts : next.broadcasts = server.broadcasts) :
    Following joins next where
  nextSessionId := by rw [hid, hsessions, h.nextSessionId]
  opened := by rw [hopened, h.opened]
  once := h.once
  phases session value hvalue := by
    rw [hsessions] at hvalue
    have hphase : Phase (joins ++ []) next session value := by
      apply (h.phases session value hvalue).of_same
      · simp
      · intro groupId hentry
        rw [RpcService.ListedAt, hgroups]
        exact ⟨hentry, groupLog_of_broadcasts hbroadcasts groupId⟩
      · intro groupId
        rw [groupLog_of_broadcasts hbroadcasts groupId]
    rwa [List.append_nil] at hphase

theorem sessionIdOf_succ (session : ℕ) : sessionIdOf session + 1 = sessionIdOf (session + 1) := by
  rw [sessionIdOf, sessionIdOf, UInt64.ofNat_add (session + 1) 1]
  rfl

theorem Following.exists_session (h : Following joins server) (hregistered : server.Registered)
    {join : Join} (hjoin : join ∈ joins) :
    ∃ session, server.service.sessions[join.session]? = some session := by
  have hopened : (join.session, join.groupId) ∈ server.opened := by
    rw [h.opened]
    exact List.mem_map_of_mem hjoin
  obtain ⟨-, session, hsession, -⟩ := hregistered.opened _ _ hopened
  exact ⟨session, hsession⟩

/-- `Run` creates a session and a handler.  The new session waits, and no client has asked for a
group in it. -/
theorem Following.run (h : Following joins server) (hregistered : server.Registered) :
    Following joins { server.newUnaryCall with service := server.service.newSession } where
  nextSessionId := by
    show server.service.nextSessionId + 1 = sessionIdOf (server.service.sessions ++ [_]).length
    rw [h.nextSessionId, List.length_append, List.length_singleton, sessionIdOf_succ]
  opened := h.opened
  once := h.once
  phases session value hvalue := by
    have hbroadcasts : ({ server.newUnaryCall with
        service := server.service.newSession } : RpcServer).broadcasts = server.broadcasts := rfl
    -- a session is an old one, of which nothing changes, or the one that `Run` creates
    by_cases hlt : session < server.service.sessions.length
    · have hold : server.service.sessions[session]? = some value := by
        rw [← hvalue]
        exact (List.getElem?_append_left hlt).symm
      have hphase : Phase (joins ++ []) { server.newUnaryCall with
          service := server.service.newSession } session value := by
        apply (h.phases session value hold).of_same
        · simp
        · exact fun groupId hentry => ⟨hentry, groupLog_of_broadcasts hbroadcasts groupId⟩
        · intro groupId
          rw [groupLog_of_broadcasts hbroadcasts groupId]
      rwa [List.append_nil] at hphase
    · have hlast : session = server.service.sessions.length := by
        have hbound := (List.getElem?_eq_some_iff.mp hvalue).1
        simp only [RpcService.newSession, List.length_append, List.length_singleton] at hbound
        omega
      obtain rfl : value = .start (sessionIdOf session) := by
        rw [hlast, ← h.nextSessionId]
        simpa [RpcService.newSession, hlast, eq_comm] using hvalue
      refine .waiting fun join hmem hsame => ?_
      -- the new session is none of those that a client has joined
      obtain ⟨found, hfound⟩ := h.exists_session hregistered hmem
      have := (List.getElem?_eq_some_iff.mp hfound).1
      omega

/-! ## A client joins -/

/-- The only session that waits for a client is one that nothing has happened to: its operation
is the first one, and no client has joined with it. -/
theorem Phase.waiting_of_connect {session index : ℕ} {value : StreamSession}
    (h : Phase joins server session value)
    (hoperation : value.outstanding[index]? = some .connect) :
    value = .start (sessionIdOf session) ∧ index = 0 ∧
      ∀ join ∈ joins, join.session ≠ session := by
  cases h with
  | waiting hnone =>
      refine ⟨rfl, ?_, hnone⟩
      cases index with
      | zero => rfl
      | succ index => simp [StreamSession.start] at hoperation
  | refused _ _ houtstanding => simp [houtstanding] at hoperation
  | live join _ _ hhandler _ _ hstep _ _ =>
      have horder := (StreamSession.inOrder_of_some hhandler).mpr hstep
      obtain ⟨response, hwrite⟩ := horder.exists_write hoperation
      simp at hwrite
  | left join last _ _ _ houtstanding => simp [houtstanding] at hoperation

theorem sessionIdOf_ne {session other : ℕ} (hne : other ≠ session) (hsession : session + 1 < 2 ^ 64)
    (hother : other + 1 < 2 ^ 64) : sessionIdOf other ≠ sessionIdOf session :=
  fun hsame => hne (sessionIdOf_injective hother hsession hsame)

/-- The client of a session that waits for one joins its group. -/
theorem Following.joined_of_connect (h : Following joins server) {session index : ℕ}
    (hconnect : server.operation session index = some .connect) (playerId groupId : Int64) :
    server.joined (.syncGroup session index playerId groupId) =
      some ⟨session, groupId, (server.groupLog groupId.toInt32).length⟩ := by
  obtain ⟨value, hvalue, hoperation⟩ := Option.bind_eq_some_iff.mp hconnect
  have hlive : (server.service.handler session).isSome = true := by
    obtain ⟨rfl, -⟩ := (h.phases session value hvalue).waiting_of_connect hoperation
    rw [RpcService.handler_eq hvalue]
    rfl
  rw [joined, if_pos ⟨hconnect, hlive⟩]

theorem Following.connect (h : Following joins server) (hregistered : server.Registered)
    {session index : ℕ} {value : StreamSession}
    (hvalue : server.service.sessions[session]? = some value)
    (hoperation : value.outstanding[index]? = some .connect)
    (hfew : server.service.sessions.length < 2 ^ 64) (playerId groupId : Int64) :
    Following (joins ++ [⟨session, groupId, (server.groupLog groupId.toInt32).length⟩])
      { server with
        service := server.service.complete session index true
          (StreamCall.syncGroup playerId groupId).request
        opened := server.opened ++ [(session, groupId)] } := by
  obtain ⟨rfl, rfl, hnone⟩ := (h.phases session value hvalue).waiting_of_connect hoperation
  have hlt : session < server.service.sessions.length := (List.getElem?_eq_some_iff.mp hvalue).1
  have hcomplete := RpcService.complete_connect hvalue hoperation rfl
    (StreamCall.syncGroup playerId groupId).request
  have hlisted : ∀ other sessionId pointer, (server.service.complete session 0 true
      (StreamCall.syncGroup playerId groupId).request).ListedAt other sessionId pointer ↔
        if other = groupId.toInt32 ∧ sessionId = sessionIdOf session then pointer = session
        else server.service.ListedAt other sessionId pointer :=
    fun _ _ _ => RpcService.listedAt_complete_connect hvalue hoperation rfl _
  have hsessions : (server.service.complete session 0 true
      (StreamCall.syncGroup playerId groupId).request).sessions =
        server.service.sessions.set session (.connected (sessionIdOf session)
          (StreamCall.syncGroup playerId groupId).request) ++
            [.start server.service.nextSessionId] := by
    rw [hcomplete]
    rfl
  constructor
  · show (server.service.complete session 0 true _).nextSessionId = _
    dsimp only
    rw [hsessions, hcomplete, List.length_append, List.length_set, List.length_singleton,
      ← sessionIdOf_succ, ← h.nextSessionId]
    rfl
  · rw [List.map_append, ← h.opened]
    rfl
  · rw [List.map_append, List.nodup_append]
    refine ⟨h.once, List.nodup_singleton _, ?_⟩
    intro before hmem last hlast hsame
    obtain ⟨join, hjoin, rfl⟩ := List.mem_map.mp hmem
    obtain rfl := List.mem_singleton.mp hlast
    exact hnone join hjoin hsame
  · intro other found hfound
    dsimp only at hfound
    rw [hsessions] at hfound
    rcases Nat.lt_trichotomy other server.service.sessions.length with hother | rfl | hother
    · rw [List.getElem?_append_left (by rwa [List.length_set]), List.getElem?_set] at hfound
      by_cases hsame : session = other
      · subst hsame
        rw [if_pos rfl, if_pos hlt] at hfound
        obtain rfl := Option.some.inj hfound
        -- the client joins at the end of the log, with nothing written
        refine .live ⟨session, groupId, (server.groupLog groupId.toInt32).length⟩ (by simp) rfl rfl
          rfl ?_ ?_ le_rfl ?_
        · rw [hlisted, if_pos ⟨rfl, rfl⟩]
        · exact (StreamSession.inOrder_of_some rfl).mp (StreamSession.inOrder_connected _ _)
        · exact (slice_self ..).symm
      · rw [if_neg hsame] at hfound
        apply (h.phases other found hfound).of_same
        · simp [hsame]
        · intro other' hentry
          rw [hlisted, if_neg]
          · exact ⟨hentry, rfl⟩
          · intro hkey
            exact sessionIdOf_ne (Ne.symm hsame) (by omega) (by omega) hkey.2
        · exact fun _ => List.prefix_rfl
    · -- the session that replaces the one that was waiting
      rw [List.getElem?_append_right (by simp), List.length_set, Nat.sub_self] at hfound
      obtain rfl := Option.some.inj hfound
      rw [h.nextSessionId]
      refine .waiting fun join hmem hjoin => ?_
      rcases List.mem_append.mp hmem with hold | hnew
      · obtain ⟨before, hbefore⟩ := h.exists_session hregistered hold
        have := (List.getElem?_eq_some_iff.mp hbefore).1
        omega
      · obtain rfl := List.mem_singleton.mp hnew
        exact absurd hjoin (Nat.ne_of_lt hlt)
    · rw [List.getElem?_eq_none (by simp; omega)] at hfound
      cases hfound

/-! ## A behavior is broadcast -/

theorem groupLog_concat {call : ℕ} {groupId : Int32} {packet : BehaviorPacket}
    (h : next.broadcasts = server.broadcasts ++ [(call, groupId, packet)]) (other : Int32) :
    next.groupLog other = server.groupLog other ++ if groupId = other then [packet] else [] := by
  rw [groupLog, groupLog, h, List.map_append, List.map_singleton, ofTopic_concat]

theorem Following.joined_once (h : Following joins server) {first second : Join}
    (hfirst : first ∈ joins) (hsecond : second ∈ joins)
    (hsession : first.session = second.session) : first = second :=
  List.inj_on_of_nodup_map h.once hfirst hsecond hsession

/-- A group that is visited lists what has joined it. -/
theorem Following.exists_join (h : Following joins server) (hregistered : server.Registered)
    {groupId : Int32} {order : VisitOrder UInt64 ℕ} {session : ℕ}
    (hmem : session ∈ server.service.snapshot groupId order) :
    ∃ join ∈ joins, join.session = session ∧ join.group = groupId := by
  obtain ⟨sessionId, hentry⟩ := RpcService.mem_snapshot.mp hmem
  obtain ⟨number, hopened, hcut⟩ := hregistered.listed groupId sessionId session hentry
  rw [h.opened] at hopened
  obtain ⟨join, hjoin, hpair⟩ := List.mem_map.mp hopened
  obtain ⟨rfl, rfl⟩ := Prod.mk.inj hpair
  exact ⟨join, hjoin, rfl, hcut⟩

/-- `Write` on a session of the group: the packet goes behind those that were written, as it
goes behind those of the log. -/
theorem Phase.write {session : ℕ} {value : StreamSession} (h : Phase joins server session value)
    {groupId : Int32} {packet : BehaviorPacket}
    (hgroups : next.service.groups = server.service.groups)
    (hlog : ∀ other, next.groupLog other =
      server.groupLog other ++ if groupId = other then [packet] else [])
    {target : Join} (htarget : target ∈ joins) (hsession : target.session = session)
    (hgroup : ∀ join ∈ joins, join.session = session → join.group = groupId) :
    Phase joins next session (value.write packet) := by
  cases h with
  | waiting hnone => exact absurd hsession (hnone target htarget)
  | refused hnone => exact absurd hsession (hnone target htarget)
  | @live value handler join hmem hjoin hhandler hid hentry hstep hposition hwritten =>
      have hgrown : next.groupLog join.group = server.groupLog join.group ++ [packet] := by
        rw [hlog, if_pos (hgroup join hmem hjoin).symm]
      have hlength : (next.groupLog join.group).length =
          (server.groupLog join.group).length + 1 := by
        rw [hgrown, List.length_append, List.length_singleton]
      -- the log and what the session is given grow by the same packet
      refine .live join hmem hjoin (StreamSession.handler_write hhandler packet) ?_ ?_ ?_ ?_ ?_
      · rw [StreamSessionHandler.sessionId_write, hid]
      · rwa [RpcService.ListedAt, hgroups]
      · have horder := (StreamSession.inOrder_of_some hhandler).mpr hstep
        exact (StreamSession.inOrder_of_some (StreamSession.handler_write hhandler packet)).mp
          (horder.write packet)
      · omega
      · rw [StreamSession.written_write hhandler, hwritten, hlength, hgrown, slice_concat hposition]
  | left join last hmem hjoin hhandler houtstanding hposition hlast hwritten hcompleted =>
      -- nothing is written to a session that has been destroyed
      have hsame : value.write packet = value := by
        rw [StreamSession.write, hhandler]
      rw [hsame]
      refine .left join last hmem hjoin hhandler houtstanding hposition ?_ ?_ hcompleted
      · rw [hlog, List.length_append]
        omega
      · rw [hlog, slice_append hlast, hwritten]

/-- Every live session of the group is given the behavior, and no other one is: the snapshot
names each of them once, and nobody dies between the snapshot and the last write. -/
theorem Following.broadcast (h : Following joins server) (hregistered : server.Registered)
    {call : ℕ} {groupId : Int32} {packet : BehaviorPacket} {order : VisitOrder UInt64 ℕ}
    (hservice : next.service = server.service.broadcastToGroup groupId packet order)
    (hopened : next.opened = server.opened)
    (hbroadcasts : next.broadcasts = server.broadcasts ++ [(call, groupId, packet)]) :
    Following joins next := by
  have hwrites := hregistered.writesEach groupId packet order
  rw [← hservice] at hwrites
  have hlog := groupLog_concat hbroadcasts
  have hid : next.service.nextSessionId = server.service.nextSessionId := by
    rw [hservice, RpcService.broadcastToGroup_eq, RpcService.nextSessionId_foldl_writeSession]
  constructor
  · rw [hid, h.nextSessionId, hwrites.length_eq]
  · rw [hopened, h.opened]
  · exact h.once
  · intro session value hvalue
    rw [hwrites.sessions] at hvalue
    split at hvalue
    · next hmem =>
        obtain ⟨before, hbefore, rfl⟩ := Option.map_eq_some_iff.mp hvalue
        obtain ⟨target, htarget, rfl, rfl⟩ := h.exists_join hregistered hmem
        apply (h.phases target.session before hbefore).write hwrites.groups hlog htarget rfl
        intro join hjoin hsame
        rw [h.joined_once hjoin htarget hsame]
    -- a session that is not visited is listed in no entry of the group, so its own log stays
    · next hmem =>
        have hphase : Phase (joins ++ []) next session value := by
          apply (h.phases session value hvalue).of_same
          · simp
          · intro other hentry
            refine ⟨by rwa [RpcService.ListedAt, hwrites.groups], ?_⟩
            rw [hlog, if_neg, List.append_nil]
            rintro rfl
            exact hmem (RpcService.mem_snapshot.mpr ⟨_, hentry⟩)
          · intro other
            rw [hlog]
            exact List.prefix_append ..
        rwa [List.append_nil] at hphase

/-! ## An operation of a session completes -/

/-- The handler of a session has its id. -/
theorem Phase.sessionId_eq {session : ℕ} {value : StreamSession}
    (h : Phase joins server session value) {handler : StreamSessionHandler}
    (hhandler : value.handler = some handler) : handler.sessionId = sessionIdOf session := by
  cases h with
  | waiting =>
      obtain rfl := Option.some.inj hhandler
      rfl
  | refused _ hnone => simp [hnone] at hhandler
  | live join _ _ hfound hid =>
      obtain rfl := Option.some.inj (hfound.symm.trans hhandler)
      exact hid
  | left join last _ _ hnone => simp [hnone] at hhandler

/-- An operation fails, and the handler is destroyed.  What was written until then is what the
log had from the moment at which the client joined. -/
theorem Phase.fail {session index : ℕ} {value : StreamSession}
    (h : Phase joins server session value) {operation : AsyncOperation}
    (hoperation : value.outstanding[index]? = some operation)
    (hlog : ∀ groupId, next.groupLog groupId = server.groupLog groupId) (request : SyncRequest) :
    Phase joins next session (value.complete index false request) := by
  have hdead := StreamSession.handler_complete_false hoperation request
  cases h with
  | waiting hnone =>
      refine .refused hnone hdead ?_
      exact (StreamSession.inOrder_of_none hdead).mp
        (StreamSession.inOrder_start_failed hoperation request)
  | refused _ _ houtstanding => simp [houtstanding] at hoperation
  | @live value handler join hmem hsession hhandler hid hentry hstep hposition hwritten =>
      have horder := (StreamSession.inOrder_of_some hhandler).mpr hstep
      refine .left join (server.groupLog join.group).length hmem hsession hdead ?_ hposition ?_ ?_ ?_
      · exact (StreamSession.inOrder_of_none hdead).mp (horder.complete index false request)
      · rw [hlog]
      · rw [hlog, StreamSession.written_complete, hwritten]
      · rw [StreamSession.completed_complete_false, StreamSession.written_complete]
        exact ⟨handler.outgoingMessages, hstep.order⟩
  | left join last _ _ _ houtstanding => simp [houtstanding] at hoperation

/-- A message of a session has been written: it leaves the queue, and what was written with what
is queued is unchanged. -/
theorem Phase.wrote {session index : ℕ} {value : StreamSession}
    (h : Phase joins server session value) {response : SyncResponse}
    (hoperation : value.outstanding[index]? = some (.write response))
    (hgroups : next.service.groups = server.service.groups)
    (hlog : ∀ groupId, next.groupLog groupId = server.groupLog groupId) (request : SyncRequest) :
    Phase joins next session (value.complete index true request) := by
  cases h with
  | waiting hnone =>
      have hmem := List.mem_of_getElem? hoperation
      simp [StreamSession.start] at hmem
  | refused _ _ houtstanding => simp [houtstanding] at hoperation
  | @live value handler join hmem hsession hhandler hid hentry hstep hposition hwritten =>
      have horder := (StreamSession.inOrder_of_some hhandler).mpr hstep
      have hnext := StreamSession.handler_complete_write hoperation hhandler request
      refine .live join hmem hsession hnext ?_ ?_ ?_ ?_ ?_
      · rw [StreamSessionHandler.sessionId_executeWrite, hid]
      · rwa [RpcService.ListedAt, hgroups]
      · exact (StreamSession.inOrder_of_some hnext).mp (horder.complete index true request)
      · rwa [hlog]
      · rw [hlog, StreamSession.written_complete, hwritten]
  | left join last _ _ _ houtstanding => simp [houtstanding] at hoperation

/-- A step after which one session has changed. -/
theorem Following.of_setSession (h : Following joins server) {session : ℕ} {changed : StreamSession}
    (hsessions : next.service.sessions = server.service.sessions.set session changed)
    (hid : next.service.nextSessionId = server.service.nextSessionId)
    (hopened : next.opened = server.opened)
    (hlisted : ∀ groupId other, other ≠ session → other < server.service.sessions.length →
      server.service.ListedAt groupId (sessionIdOf other) other →
        next.service.ListedAt groupId (sessionIdOf other) other)
    (hlog : ∀ groupId, next.groupLog groupId = server.groupLog groupId)
    (hphase : Phase joins next session changed) : Following joins next where
  nextSessionId := by rw [hid, hsessions, h.nextSessionId, List.length_set]
  opened := by rw [hopened, h.opened]
  once := h.once
  phases other value hvalue := by
    rw [hsessions, List.getElem?_set] at hvalue
    split at hvalue
    · next hsame =>
        subst hsame
        split at hvalue
        · obtain rfl := Option.some.inj hvalue
          exact hphase
        · simp at hvalue
    · next hne =>
        have hlt := (List.getElem?_eq_some_iff.mp hvalue).1
        have hother : Phase (joins ++ []) next other value := by
          apply (h.phases other value hvalue).of_same
          · simp
          · exact fun groupId hentry =>
              ⟨hlisted groupId other (Ne.symm hne) hlt hentry, hlog groupId⟩
          · intro groupId
            rw [hlog]
        rwa [List.append_nil] at hother

/-- A completion that brings no client: of all sessions one changes, which stays in its phase or
is destroyed. -/
theorem Following.completeSession (h : Following joins server) {session index : ℕ} {bOk : Bool}
    (hclient : ¬ (server.operation session index = some .connect ∧ bOk = true))
    (hfew : server.service.sessions.length < 2 ^ 64)
    (hservice : next.service = server.service.complete session index bOk {})
    (hopened : next.opened = server.opened) (hbroadcasts : next.broadcasts = server.broadcasts) :
    Following joins next := by
  have hlog := groupLog_of_broadcasts hbroadcasts
  have hid : next.service.nextSessionId = server.service.nextSessionId := by
    rw [hservice]
    apply RpcService.nextSessionId_complete
    intro value hvalue hoperation
    rw [← Bool.not_eq_true]
    intro hok
    refine hclient ⟨?_, hok⟩
    rw [RpcServer.operation, hvalue]
    exact hoperation
  rcases server.service.complete_cases session index bOk {} with
    ⟨hsessions, hgroups⟩ | ⟨value, handler, operation, hvalue, hoperation, hhandler, hcases⟩
  · rw [← hservice] at hsessions hgroups
    exact h.of_same hsessions hgroups hid hopened hbroadcasts
  have hphase := h.phases session value hvalue
  have hlt : session < server.service.sessions.length := (List.getElem?_eq_some_iff.mp hvalue).1
  rcases hcases with ⟨rfl, hnext⟩ | ⟨rfl, rfl, -⟩ | ⟨rfl, ⟨response, rfl⟩, hnext⟩
  · rw [← hservice] at hnext
    have hsessions : next.service.sessions =
        server.service.sessions.set session (value.complete index false {}) := by
      rw [hnext, RpcService.sessions_of_destroyed]
      rfl
    -- the destroyed session leaves the groups, and ids of sessions are distinct
    refine h.of_setSession hsessions hid hopened ?_ hlog (hphase.fail hoperation hlog {})
    intro groupId other hne hother hentry
    have hset : (server.service.setSession session (value.complete index false {})).ListedAt groupId
        (sessionIdOf other) other := hentry
    rw [hnext]
    apply hset.destroyed
    rw [hphase.sessionId_eq hhandler]
    exact sessionIdOf_ne hne (by omega) (by omega)
  -- a client would have come
  · refine absurd ⟨?_, rfl⟩ hclient
    rw [RpcServer.operation, hvalue]
    exact hoperation
  · rw [← hservice] at hnext
    have hgroups : next.service.groups = server.service.groups := by
      rw [hnext]
      rfl
    have hsessions : next.service.sessions =
        server.service.sessions.set session (value.complete index true {}) := by
      rw [hnext]
      rfl
    refine h.of_setSession hsessions hid hopened ?_ hlog (hphase.wrote hoperation hgroups hlog {})
    intro groupId other _ _ hentry
    rwa [RpcService.ListedAt, hgroups]

/-! ## An operation of a handler completes -/

theorem Following.completeUnary (h : Following joins server) (hregistered : server.Registered)
    (call index : ℕ) (bOk : Bool) (request : BehaviorRequest) (order : VisitOrder UInt64 ℕ) :
    Following joins (server.completeUnary call index bOk request order) := by
  rcases hregistered.handlers.completeUnary_cases call index bOk request order with
    ⟨-, hsame⟩ | ⟨value, -, hnext, -⟩ | ⟨value, handler, -, -, -, hnext⟩
  · rwa [hsame]
  · rw [hnext]
    refine h.of_same rfl rfl rfl rfl ?_
    rw [RpcServer.broadcasts, actions_deleteUnaryCall]
    simp [RpcServer.broadcasts]
  · rw [hnext]
    have hservice : (server.processRequest call value handler order).service =
        server.service.broadcastToGroup handler.request.groupId
          (server.nextPacket handler.request) order := rfl
    have hbroadcasts : (server.processRequest call value handler order).broadcasts =
        server.broadcasts ++
          [(call, handler.request.groupId, server.nextPacket handler.request)] := by
      simp [RpcServer.broadcasts, actions_processRequest]
    exact h.broadcast hregistered hservice rfl hbroadcasts

/-! ## Runs -/

theorem Following.step (h : Following joins server) (hregistered : server.Registered)
    (hfew : server.service.sessions.length < 2 ^ 64) (event : RpcEvent) :
    Following (joins ++ (server.joined event).toList) (server.step event) := by
  cases event with
  | run =>
      simp only [joined, Option.toList_none, List.append_nil]
      exact h.run hregistered
  | syncGroup session index playerId groupId =>
      simp only [joined, RpcServer.step]
      by_cases hconnect : server.operation session index = some .connect
      · obtain ⟨value, hvalue, hoperation⟩ := Option.bind_eq_some_iff.mp hconnect
        have hlive : (server.service.handler session).isSome = true := by
          have hjoined := h.joined_of_connect hconnect playerId groupId
          rw [joined] at hjoined
          split at hjoined
          · next hboth => exact hboth.2
          · simp at hjoined
        rw [if_pos ⟨hconnect, hlive⟩, if_pos hconnect, if_pos hlive]
        exact h.connect hregistered hvalue hoperation hfew playerId groupId
      · rw [if_neg fun hboth => hconnect hboth.1, if_neg hconnect, Option.toList_none,
          List.append_nil]
        exact h
  -- requests join nothing, but broadcast
  | executeBehavior call index groupId packet order =>
      simp only [joined, Option.toList_none, List.append_nil, RpcServer.step]
      split
      · exact h.completeUnary hregistered ..
      · exact h
  | completeSession session index bOk =>
      simp only [joined, Option.toList_none, List.append_nil, RpcServer.step]
      split
      · exact h
      · next hclient => exact h.completeSession hclient hfew rfl rfl rfl
  | completeUnary call index bOk =>
      simp only [joined, Option.toList_none, List.append_nil, RpcServer.step]
      split
      · exact h
      · exact h.completeUnary hregistered ..

theorem extends_completeUnary (hregistered : server.Registered) (call index : ℕ) (bOk : Bool)
    (request : BehaviorRequest) (order : VisitOrder UInt64 ℕ) :
    RpcService.Extends server.service
      (server.completeUnary call index bOk request order).service := by
  rcases hregistered.handlers.completeUnary_cases call index bOk request order with
    ⟨-, hsame⟩ | ⟨value, -, hnext, -⟩ | ⟨value, handler, -, -, -, hnext⟩
  · rw [hsame]
    exact .refl _
  · rw [hnext]
    exact .refl _
  · rw [hnext]
    exact (hregistered.writesEach _ _ order).extends

theorem extends_step (hregistered : server.Registered) (event : RpcEvent) :
    RpcService.Extends server.service (server.step event).service := by
  cases event with
  | run => exact RpcService.extends_newSession _
  | syncGroup session index playerId groupId =>
      simp only [RpcServer.step]
      split
      · exact RpcService.extends_complete _ _ _ _ _
      · exact .refl _
  | executeBehavior call index groupId packet order =>
      simp only [RpcServer.step]
      split
      · exact extends_completeUnary hregistered _ _ _ _ _
      · exact .refl _
  | completeSession session index bOk =>
      simp only [RpcServer.step]
      split
      · exact .refl _
      · exact RpcService.extends_complete _ _ _ _ _
  | completeUnary call index bOk =>
      simp only [RpcServer.step]
      split
      · exact .refl _
      · exact extends_completeUnary hregistered _ _ _ _ _

theorem length_sessions_step (hregistered : server.Registered) (event : RpcEvent) :
    server.service.sessions.length ≤ (server.step event).service.sessions.length :=
  (extends_step hregistered event).length_le

/-- The clients that a run brings, in order. -/
def joinsOf (events : List RpcEvent) : List Join :=
  observed step joined {} events

theorem following_run {events : List RpcEvent}
    (hfew : (run step {} events).service.sessions.length < 2 ^ 64) :
    Following (joinsOf events) (run step {} events) := by
  unfold joinsOf
  induction events using List.reverseRecOn with
  | nil => exact following_init
  | append_singleton before event ih =>
      rw [run_concat] at hfew
      have hle := length_sessions_step (registered_run before) event
      have hbefore : (run RpcServer.step {} before).service.sessions.length < 2 ^ 64 := by omega
      rw [observed_concat, run_concat]
      exact (ih hbefore).step (registered_run before) hbefore event

/-! ## What the sessions have been given -/

/-- A session whose client has joined a group.  While it lives it has been given all that
the group has seen since, of which it has written what it does not queue; once destroyed,
what the group had seen by some later position, of which it has written the beginning. -/
structure FollowsGroup (server : RpcServer) (join : Join) (session : StreamSession) : Prop where
  live : ∀ handler, session.handler = some handler →
    session.written = (server.groupLog join.group).drop join.position ∧
      session.completed ++ handler.outgoingMessages =
        session.written.map createResponseFromPacket
  destroyed : session.handler = none → ∃ last, join.position ≤ last ∧
    last ≤ (server.groupLog join.group).length ∧
    session.written = slice join.position last (server.groupLog join.group) ∧
    session.completed <+: session.written.map createResponseFromPacket

/-- A session has been given a slice of the log. -/
theorem Following.written_slice (h : Following joins server) {join : Join} (hjoin : join ∈ joins)
    {session : StreamSession} (hsession : server.service.sessions[join.session]? = some session) :
    ∃ last, join.position ≤ last ∧ last ≤ (server.groupLog join.group).length ∧
      session.written = slice join.position last (server.groupLog join.group) := by
  cases h.phases join.session session hsession with
  | waiting hnone => exact absurd rfl (hnone join hjoin)
  | refused hnone => exact absurd rfl (hnone join hjoin)
  | live other hmem hsame _ _ _ _ hposition hwritten =>
      obtain rfl := h.joined_once hmem hjoin hsame
      exact ⟨_, hposition, le_rfl, hwritten⟩
  | left other last hmem hsame _ _ hposition hlast hwritten _ =>
      obtain rfl := h.joined_once hmem hjoin hsame
      exact ⟨last, hposition, hlast, hwritten⟩

theorem Following.followsGroup (h : Following joins server) (hregistered : server.Registered)
    {join : Join} (hjoin : join ∈ joins) :
    ∃ session, server.service.sessions[join.session]? = some session ∧
      server.FollowsGroup join session := by
  obtain ⟨session, hsession⟩ := h.exists_session hregistered hjoin
  refine ⟨session, hsession, ?_⟩
  cases h.phases join.session session hsession with
  | waiting hnone => exact absurd rfl (hnone join hjoin)
  | refused hnone => exact absurd rfl (hnone join hjoin)
  | live other hmem hsame hhandler _ _ hstep _ hwritten =>
      obtain rfl := h.joined_once hmem hjoin hsame
      constructor
      · intro found hfound
        obtain rfl := Option.some.inj (hhandler.symm.trans hfound)
        rw [slice, List.take_length] at hwritten
        exact ⟨hwritten, hstep.order⟩
      · simp [hhandler]
  | left other last hmem hsame hhandler _ hposition hlast hwritten hcompleted =>
      obtain rfl := h.joined_once hmem hjoin hsame
      constructor
      · simp [hhandler]
      · exact fun _ => ⟨last, hposition, hlast, hwritten, hcompleted⟩

/-- **What a session is given.**  In every run of the server with fewer than 2^64 sessions, one
`Proceed` after the other, whatever operations complete or fail and in whatever orders groups are
visited: every client that has opened a session has joined its group once, and its session follows
the group from there on. -/
theorem sessions_follow_groups {events : List RpcEvent}
    (hfew : (run step {} events).service.sessions.length < 2 ^ 64) :
    (run step {} events).opened =
        (joinsOf events).map (fun join => (join.session, join.groupId)) ∧
      ((joinsOf events).map Join.session).Nodup ∧
      ∀ join ∈ joinsOf events, ∃ session,
        (run step {} events).service.sessions[join.session]? = some session ∧
          (run step {} events).FollowsGroup join session := by
  have h := following_run hfew
  exact ⟨h.opened, h.once, fun join hjoin => h.followsGroup (registered_run events) hjoin⟩

/-- Two clients join a group one behavior apart, and the writing to the first one fails. -/
def twoJoins : List RpcEvent :=
  [.run, .syncGroup 0 0 7 1, .executeBehavior 0 0 1 (some (executePacket 9 3 [1])) .asStored,
    .syncGroup 1 0 8 1, .executeBehavior 1 0 1 (some (executePacket 9 3 [2])) .asStored,
    .completeSession 1 0 true, .completeSession 0 0 false,
    .executeBehavior 2 0 1 (some (executePacket 9 3 [3])) .asStored]

theorem sessions_follow_groups_two :
    (run step {} twoJoins).opened =
        (joinsOf twoJoins).map (fun join => (join.session, join.groupId)) ∧
      ((joinsOf twoJoins).map Join.session).Nodup ∧
      ∀ join ∈ joinsOf twoJoins, ∃ session,
        (run step {} twoJoins).service.sessions[join.session]? = some session ∧
          (run step {} twoJoins).FollowsGroup join session :=
  sessions_follow_groups (by decide +kernel)

end RpcServer

end HktBase.Grpc
