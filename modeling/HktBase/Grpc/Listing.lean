import Mathlib.Data.List.Nodup
import Mathlib.Data.List.Perm.Basic
import HktBase.Grpc.Service

/-!
# Listings

What the operations of the service do to the entries of the groups, and what the loop of a
broadcast does to the sessions, whatever state the service is in.  `ListedAt` is one entry
of one group.

A session asks for a client once, when it is created, and has no group until one comes:
`AwaitsOneClient`.
-/

namespace HktBase.Grpc

/-! ## Sessions that wait for a client -/

namespace StreamSession

/-- At most one operation waits for a client, and while it does the session has no group. -/
structure AwaitsOneClient (session : StreamSession) : Prop where
  once : session.outstanding.count .connect ≤ 1
  groupId : .connect ∈ session.outstanding → ∀ handler, session.handler = some handler →
    handler.groupId = -1

theorem awaitsOneClient_start (sessionId : UInt64) : (start sessionId).AwaitsOneClient where
  once := le_rfl
  groupId _ handler hhandler := by
    obtain rfl := Option.some.inj hhandler
    rfl

theorem count_connect_startWrite (message : Option SyncResponse) (session : StreamSession) :
    (session.startWrite message).outstanding.count .connect =
      session.outstanding.count .connect := by
  cases message with
  | none => rfl
  | some message => simp [startWrite]

theorem count_connect_write (packet : BehaviorPacket) (session : StreamSession) :
    (session.write packet).outstanding.count .connect = session.outstanding.count .connect := by
  unfold write
  split
  · rfl
  · rw [count_connect_startWrite]

/-- A completion takes its own operation off, and asks for no client. -/
theorem count_connect_complete {session : StreamSession} {index : ℕ} {operation : AsyncOperation}
    (hoperation : session.outstanding[index]? = some operation) (bOk : Bool)
    (request : SyncRequest) :
    (session.complete index bOk request).outstanding.count .connect =
      (session.outstanding.eraseIdx index).count .connect := by
  rw [complete, hoperation]
  unfold proceed
  dsimp only
  split
  · rfl
  · split
    · rfl
    · cases operation with
      | connect => rfl
      | write response => rw [count_connect_startWrite]

theorem connect_mem_iff {session : StreamSession} :
    .connect ∈ session.outstanding ↔ 0 < session.outstanding.count .connect :=
  List.count_pos_iff.symm

theorem AwaitsOneClient.write {session : StreamSession} (h : session.AwaitsOneClient)
    (packet : BehaviorPacket) : (session.write packet).AwaitsOneClient := by
  constructor
  · rw [count_connect_write]
    exact h.once
  · intro hconnect handler hhandler
    rw [connect_mem_iff, count_connect_write, ← connect_mem_iff] at hconnect
    cases hbefore : session.handler with
    | none => simp [StreamSession.write, hbefore] at hhandler
    | some before =>
        rw [handler_write hbefore] at hhandler
        obtain rfl := Option.some.inj hhandler
        rw [StreamSessionHandler.groupId_write]
        exact h.groupId hconnect before hbefore

/-- Once the client is there the session waits for none. -/
theorem AwaitsOneClient.count_eq_zero {session : StreamSession} (h : session.AwaitsOneClient)
    {index : ℕ} (hoperation : session.outstanding[index]? = some .connect) (bOk : Bool)
    (request : SyncRequest) :
    (session.complete index bOk request).outstanding.count .connect = 0 := by
  obtain ⟨hlt, hget⟩ := List.getElem?_eq_some_iff.mp hoperation
  have hperm := (List.getElem_cons_eraseIdx_perm hlt).count_eq AsyncOperation.connect
  rw [hget, List.count_cons_self] at hperm
  have honce := h.once
  rw [count_connect_complete hoperation]
  omega

theorem AwaitsOneClient.complete {session : StreamSession} (h : session.AwaitsOneClient)
    {index : ℕ} {operation : AsyncOperation}
    (hoperation : session.outstanding[index]? = some operation) (bOk : Bool)
    (request : SyncRequest) : (session.complete index bOk request).AwaitsOneClient := by
  have hle : (session.outstanding.eraseIdx index).count .connect ≤
      session.outstanding.count .connect :=
    List.Sublist.count_le _ (List.eraseIdx_sublist ..)
  constructor
  · rw [count_connect_complete hoperation]
    exact hle.trans h.once
  · intro hconnect handler hhandler
    cases operation with
    -- the only operation that asks for a client is the one that completes
    | connect =>
        rw [connect_mem_iff, h.count_eq_zero hoperation] at hconnect
        exact absurd hconnect (lt_irrefl 0)
    | write response =>
        rw [connect_mem_iff, count_connect_complete hoperation] at hconnect
        have hbefore := h.groupId (connect_mem_iff.mpr (hconnect.trans_le hle))
        cases hlive : session.handler with
        | none =>
            rw [StreamSession.complete, hoperation] at hhandler
            simp [proceed, hlive] at hhandler
        | some before =>
            cases bOk with
            | false =>
                rw [handler_complete_false hoperation] at hhandler
                simp at hhandler
            | true =>
                rw [handler_complete_write hoperation hlive] at hhandler
                obtain rfl := Option.some.inj hhandler
                rw [StreamSessionHandler.groupId_executeWrite]
                exact hbefore before hlive

end StreamSession

namespace RpcService

variable {service : RpcService} {groupId other : Int32} {sessionId otherId : UInt64}
  {session pointer : ℕ}

theorem handler_eq {value : StreamSession} (hvalue : service.sessions[session]? = some value) :
    service.handler session = value.handler := by
  rw [handler, hvalue]
  rfl

theorem handler_setSession (hlt : session < service.sessions.length)
    (value : StreamSession) (target : ℕ) :
    (service.setSession session value).handler target =
      if target = session then value.handler else service.handler target := by
  simp only [handler, setSession]
  by_cases h : target = session
  · subst h
    rw [List.getElem?_set_self hlt, if_pos rfl]
    rfl
  · rw [List.getElem?_set_ne (Ne.symm h), if_neg h]

/-! ## Entries of the groups -/

/-- The group has the pointer under the id. -/
def ListedAt (service : RpcService) (groupId : Int32) (sessionId : UInt64) (session : ℕ) : Prop :=
  ∃ group, service.groups.find groupId = some group ∧ group.find sessionId = some session

theorem listedAt_registerSession :
    (service.registerSession groupId sessionId session).ListedAt other otherId pointer ↔
      if other = groupId ∧ otherId = sessionId then pointer = session
      else service.ListedAt other otherId pointer := by
  simp only [ListedAt, registerSession, getOrCreateGroup, Group.addSession, SparseMap.find_add]
  by_cases hgroup : other = groupId
  · subst hgroup
    simp only [if_true, Option.some.injEq, exists_eq_left', SparseMap.find_add, true_and]
    by_cases hid : otherId = sessionId
    · simp [hid, eq_comm]
    · cases hfind : service.groups.find other with
      | none => simp [hid]
      | some group => simp [hid]
  · simp [hgroup]

theorem listedAt_unregisterSession :
    (service.unregisterSession groupId sessionId).ListedAt other otherId pointer ↔
      ¬ (other = groupId ∧ otherId = sessionId) ∧ service.ListedAt other otherId pointer := by
  simp only [ListedAt, unregisterSession, getOrCreateGroup, Group.removeSession,
    SparseMap.find_add]
  by_cases hgroup : other = groupId
  · subst hgroup
    simp only [if_true, Option.some.injEq, exists_eq_left', SparseMap.find_remove, true_and]
    by_cases hid : otherId = sessionId
    · simp [hid]
    · cases hfind : service.groups.find other with
      | none => simp [hid]
      | some group => simp [hid]
  · simp [hgroup]

theorem ListedAt.of_destroyed {handler : StreamSessionHandler}
    (h : (service.destroyed handler).ListedAt other otherId pointer) :
    service.ListedAt other otherId pointer := by
  unfold destroyed at h
  split at h
  · exact (listedAt_unregisterSession.mp h).2
  · exact h

/-! ## The loop of a broadcast -/

/-- The pointers that a broadcast writes to, in order: the snapshot of `TGroup::Broadcast`. -/
def snapshot (groupId : Int32) (order : VisitOrder UInt64 ℕ) (service : RpcService) : List ℕ :=
  match service.groups.find groupId with
  | none => []
  | some group => (order.visit group.entries).map Prod.snd

theorem broadcastToGroup_eq (groupId : Int32) (packet : BehaviorPacket)
    (order : VisitOrder UInt64 ℕ) (service : RpcService) :
    service.broadcastToGroup groupId packet order =
      (service.snapshot groupId order).foldl (writeSession packet) service := by
  unfold broadcastToGroup snapshot
  cases service.groups.find groupId <;> rfl

theorem mem_snapshot {order : VisitOrder UInt64 ℕ} :
    pointer ∈ service.snapshot groupId order ↔
      ∃ sessionId, service.ListedAt groupId sessionId pointer := by
  unfold snapshot ListedAt
  cases hgroup : service.groups.find groupId with
  | none => simp
  | some group =>
      simp only [List.mem_map, (order.perm group.entries).mem_iff, Option.some.injEq,
        exists_eq_left', Prod.exists, exists_eq_right, SparseMap.find_eq_some_iff]

/-- A snapshot has no pointer twice if the group has none under two ids: the entries of a map
have different keys, and the loop takes each entry once. -/
theorem nodup_snapshot (order : VisitOrder UInt64 ℕ)
    (hunique : ∀ first second pointer, service.ListedAt groupId first pointer →
      service.ListedAt groupId second pointer → first = second) :
    (service.snapshot groupId order).Nodup := by
  unfold snapshot
  cases hgroup : service.groups.find groupId with
  | none => exact List.nodup_nil
  | some group =>
      have hkeys : ((order.visit group.entries).map Prod.fst).Nodup :=
        ((order.perm group.entries).map Prod.fst).nodup_iff.mpr group.nodup_keys
      refine List.Nodup.map_on ?_ (List.Nodup.of_map Prod.fst hkeys)
      intro first hfirst second hsecond hsame
      have hlisted : ∀ entry ∈ order.visit group.entries,
          service.ListedAt groupId entry.1 entry.2 := by
        intro entry hentry
        refine ⟨group, hgroup, SparseMap.find_eq_some_iff.mpr ?_⟩
        exact (order.perm group.entries).mem_iff.mp hentry
      have hid := hunique first.1 second.1 first.2 (hlisted first hfirst)
        (by rw [hsame]; exact hlisted second hsecond)
      exact Prod.ext hid hsame

/-- What the loop does: every target that is alive is written to, and a call is made through
the pointer to every other one. -/
structure WritesEach (packet : BehaviorPacket) (targets : List ℕ) (before after : RpcService) :
    Prop where
  sessions : ∀ session, after.sessions[session]? =
    if session ∈ targets then
      (before.sessions[session]?).map fun value => value.write packet
    else before.sessions[session]?
  groups : after.groups = before.groups
  danglingCalls : after.danglingCalls = before.danglingCalls ++
    targets.filter fun session => (before.handler session).isNone

/-- `Write` through one pointer. -/
theorem writesEach_writeSession (packet : BehaviorPacket) (service : RpcService) (target : ℕ) :
    WritesEach packet [target] service (service.writeSession packet target) := by
  cases hvalue : service.sessions[target]? with
  | none =>
      have hwrite : service.writeSession packet target =
          { service with danglingCalls := service.danglingCalls ++ [target] } := by
        rw [writeSession, hvalue]
      rw [hwrite]
      refine ⟨fun session => ?_, rfl, ?_⟩
      · by_cases hsession : session = target
        · simp [hsession, hvalue]
        · simp [hsession]
      · simp [handler, hvalue]
  | some value =>
      have hlt : target < service.sessions.length := (List.getElem?_eq_some_iff.mp hvalue).1
      cases hhandler : value.handler with
      | none =>
          have hwrite : service.writeSession packet target =
              { service with danglingCalls := service.danglingCalls ++ [target] } := by
            simp [writeSession, hvalue, hhandler]
          rw [hwrite]
          refine ⟨fun session => ?_, rfl, ?_⟩
          · by_cases hsession : session = target
            · simp [hsession, hvalue, StreamSession.write, hhandler]
            · simp [hsession]
          · simp [handler, hvalue, hhandler]
      | some found =>
          have hwrite : service.writeSession packet target =
              service.setSession target (value.write packet) := by
            simp [writeSession, hvalue, hhandler]
          rw [hwrite]
          refine ⟨fun session => ?_, rfl, ?_⟩
          · by_cases hsession : session = target
            · subst hsession
              rw [if_pos (List.mem_singleton_self _), hvalue, setSession,
                List.getElem?_set_self hlt]
              rfl
            · simp [hsession, setSession, Ne.symm hsession]
          · simp [handler, hvalue, hhandler, setSession]

theorem writesEach_foldl (packet : BehaviorPacket) (targets : List ℕ) (hnodup : targets.Nodup)
    (service : RpcService) :
    WritesEach packet targets service (targets.foldl (writeSession packet) service) := by
  induction targets generalizing service with
  | nil => exact ⟨by simp, rfl, by simp⟩
  | cons target rest ih =>
      obtain ⟨hfresh, hrest⟩ := List.nodup_cons.mp hnodup
      have hfirst := writesEach_writeSession packet service target
      have hlater := ih hrest (service.writeSession packet target)
      -- the pointers are distinct, so that no session is written to twice
      have hsame : ∀ session, session ≠ target →
          (service.writeSession packet target).sessions[session]? =
            service.sessions[session]? := by
        intro session hne
        rw [hfirst.sessions, if_neg (by simpa using hne)]
      rw [List.foldl_cons]
      refine ⟨fun session => ?_, hlater.groups.trans hfirst.groups, ?_⟩
      · rw [hlater.sessions]
        by_cases hsession : session = target
        · subst hsession
          rw [if_neg hfresh, hfirst.sessions, if_pos (List.mem_singleton_self _),
            if_pos (List.mem_cons_self ..)]
        · rw [hsame session hsession]
          simp [hsession]
      · rw [hlater.danglingCalls, hfirst.danglingCalls, List.append_assoc, List.filter_cons]
        -- who is dead is not decided by the first write
        have hkept : rest.filter (fun session =>
            ((service.writeSession packet target).handler session).isNone) =
            rest.filter fun session => (service.handler session).isNone := by
          refine List.filter_congr fun session hsession => ?_
          rw [handler, handler, hsame session fun h => hfresh (h ▸ hsession)]
        rw [hkept]
        split
        · next hdead => simp [hdead]
        · next hlive => simp [hlive]

/-! ## What becomes of the sessions -/

/-- Every session waits for at most one client. -/
def SessionsAwait (service : RpcService) : Prop :=
  ∀ (session : ℕ) (value : StreamSession), service.sessions[session]? = some value →
    value.AwaitsOneClient

/-- No session is lost, none comes to wait for a client, and all wait for at most one. -/
structure KeepsSessions (before after : RpcService) : Prop where
  kept : ∀ (session : ℕ) (value : StreamSession), before.sessions[session]? = some value →
    ∃ next, after.sessions[session]? = some next ∧
      next.outstanding.count .connect ≤ value.outstanding.count .connect
  awaits : before.SessionsAwait → after.SessionsAwait

theorem KeepsSessions.refl (service : RpcService) : KeepsSessions service service where
  kept _ value hvalue := ⟨value, hvalue, le_rfl⟩
  awaits h := h

theorem KeepsSessions.trans {first second third : RpcService} (h : KeepsSessions first second)
    (hnext : KeepsSessions second third) : KeepsSessions first third where
  kept session value hvalue := by
    obtain ⟨middle, hmiddle, hle⟩ := h.kept session value hvalue
    obtain ⟨next, hfound, hle'⟩ := hnext.kept session middle hmiddle
    exact ⟨next, hfound, hle'.trans hle⟩
  awaits hall := hnext.awaits (h.awaits hall)

theorem KeepsSessions.of_sessions_eq {before after : RpcService}
    (hsessions : after.sessions = before.sessions) : KeepsSessions before after where
  kept _ value hvalue := ⟨value, hsessions ▸ hvalue, le_rfl⟩
  awaits hall session value hvalue := hall session value (hsessions ▸ hvalue)

theorem keepsSessions_newSession (service : RpcService) :
    KeepsSessions service service.newSession := by
  constructor
  · intro session value hvalue
    have hlt : session < service.sessions.length := (List.getElem?_eq_some_iff.mp hvalue).1
    refine ⟨value, ?_, le_rfl⟩
    rw [newSession, List.getElem?_append_left hlt, hvalue]
  · intro hall session value hvalue
    rw [newSession] at hvalue
    rcases List.mem_append.mp (List.mem_of_getElem? hvalue) with hold | hnew
    · obtain ⟨index, hindex⟩ := List.mem_iff_getElem?.mp hold
      exact hall index value hindex
    · obtain rfl := List.mem_singleton.mp hnew
      exact StreamSession.awaitsOneClient_start _

theorem keepsSessions_destroyed (handler : StreamSessionHandler) (service : RpcService) :
    KeepsSessions service (service.destroyed handler) := by
  apply KeepsSessions.of_sessions_eq
  unfold destroyed
  split <;> rfl

/-- A session is replaced. -/
theorem keepsSessions_setSession {value next : StreamSession}
    (hvalue : service.sessions[session]? = some value)
    (hcount : next.outstanding.count .connect ≤ value.outstanding.count .connect)
    (hawaits : value.AwaitsOneClient → next.AwaitsOneClient) :
    KeepsSessions service (service.setSession session next) := by
  have hlt : session < service.sessions.length := (List.getElem?_eq_some_iff.mp hvalue).1
  constructor
  · intro other found hfound
    by_cases hsame : other = session
    · subst hsame
      obtain rfl := Option.some.inj (hvalue.symm.trans hfound)
      exact ⟨next, List.getElem?_set_self hlt, hcount⟩
    · refine ⟨found, ?_, le_rfl⟩
      rw [setSession, List.getElem?_set_ne (Ne.symm hsame), hfound]
  · intro hall other found hfound
    rw [setSession, List.getElem?_set] at hfound
    split at hfound
    · obtain rfl := Option.some.inj hfound
      exact hawaits (hall session value hvalue)
    · exact hall other found hfound

theorem WritesEach.keepsSessions {packet : BehaviorPacket} {targets : List ℕ}
    {before after : RpcService} (h : WritesEach packet targets before after) :
    KeepsSessions before after := by
  constructor
  · intro session value hvalue
    rw [h.sessions, hvalue]
    split
    · exact ⟨value.write packet, rfl, (StreamSession.count_connect_write packet value).le⟩
    · exact ⟨value, rfl, le_rfl⟩
  · intro hall session value hvalue
    rw [h.sessions] at hvalue
    split at hvalue
    · obtain ⟨found, hfound, rfl⟩ := Option.map_eq_some_iff.mp hvalue
      exact (hall session found hfound).write packet
    · exact hall session value hvalue

/-! ## Completions -/

/-- What the completion of an operation does. -/
theorem complete_cases (service : RpcService) (session index : ℕ) (bOk : Bool)
    (request : SyncRequest) :
    ((service.complete session index bOk request).sessions = service.sessions ∧
        (service.complete session index bOk request).groups = service.groups) ∨
      ∃ value handler operation, service.sessions[session]? = some value ∧
        value.outstanding[index]? = some operation ∧ value.handler = some handler ∧
        ((bOk = false ∧ service.complete session index bOk request =
            (service.setSession session (value.complete index false request)).destroyed handler) ∨
          (bOk = true ∧ operation = .connect ∧ service.complete session index bOk request =
            (service.setSession session
              (value.complete index true request)).newSession.registerSession
                request.groupId handler.sessionId session) ∨
          (bOk = true ∧ (∃ response, operation = .write response) ∧
            service.complete session index bOk request =
              service.setSession session (value.complete index true request))) := by
  cases hvalue : service.sessions[session]? with
  | none =>
      rw [complete, hvalue]
      exact Or.inl ⟨rfl, rfl⟩
  | some value =>
      cases hoperation : value.outstanding[index]? with
      | none =>
          simp only [complete, hvalue, hoperation]
          exact Or.inl ⟨trivial, trivial⟩
      | some operation =>
          cases hhandler : value.handler with
          | none =>
              simp only [complete, hvalue, hoperation, hhandler]
              exact Or.inl ⟨trivial, trivial⟩
          | some handler =>
              refine Or.inr ⟨value, handler, operation, rfl, hoperation, hhandler, ?_⟩
              simp only [complete, hvalue, hoperation, hhandler]
              cases bOk with
              | false => exact Or.inl ⟨rfl, rfl⟩
              | true =>
                  cases operation with
                  | connect => exact Or.inr (Or.inl ⟨rfl, rfl, rfl⟩)
                  | write response => exact Or.inr (Or.inr ⟨rfl, ⟨response, rfl⟩, rfl⟩)

theorem complete_connect {index : ℕ} {value : StreamSession} {handler : StreamSessionHandler}
    (hvalue : service.sessions[session]? = some value)
    (hoperation : value.outstanding[index]? = some .connect)
    (hhandler : value.handler = some handler) (request : SyncRequest) :
    service.complete session index true request =
      (service.setSession session (value.complete index true request)).newSession.registerSession
        request.groupId handler.sessionId session := by
  simp [complete, hvalue, hoperation, hhandler]

theorem complete_write {index : ℕ} {value : StreamSession} {handler : StreamSessionHandler}
    {response : SyncResponse} (hvalue : service.sessions[session]? = some value)
    (hoperation : value.outstanding[index]? = some (.write response))
    (hhandler : value.handler = some handler) (request : SyncRequest) :
    service.complete session index true request =
      service.setSession session (value.complete index true request) := by
  simp [complete, hvalue, hoperation, hhandler]

theorem listedAt_complete_connect {index : ℕ} {value : StreamSession}
    {handler : StreamSessionHandler} (hvalue : service.sessions[session]? = some value)
    (hoperation : value.outstanding[index]? = some .connect)
    (hhandler : value.handler = some handler) (request : SyncRequest) :
    (service.complete session index true request).ListedAt other otherId pointer ↔
      if other = request.groupId ∧ otherId = handler.sessionId then pointer = session
      else service.ListedAt other otherId pointer := by
  rw [complete_connect hvalue hoperation hhandler, listedAt_registerSession]
  rfl

theorem keepsSessions_setSession_complete {index : ℕ} {value : StreamSession}
    {operation : AsyncOperation} (hvalue : service.sessions[session]? = some value)
    (hoperation : value.outstanding[index]? = some operation) (bOk : Bool)
    (request : SyncRequest) :
    KeepsSessions service (service.setSession session (value.complete index bOk request)) := by
  refine keepsSessions_setSession hvalue ?_ fun h => h.complete hoperation bOk request
  rw [StreamSession.count_connect_complete hoperation]
  exact List.Sublist.count_le _ (List.eraseIdx_sublist ..)

theorem keepsSessions_complete (service : RpcService) (session index : ℕ) (bOk : Bool)
    (request : SyncRequest) :
    KeepsSessions service (service.complete session index bOk request) := by
  rcases service.complete_cases session index bOk request with
    ⟨hsessions, -⟩ | ⟨value, handler, operation, hvalue, hoperation, -, hcases⟩
  · exact .of_sessions_eq hsessions
  have hset := fun bOk => keepsSessions_setSession_complete hvalue hoperation bOk request
  rcases hcases with ⟨-, hnext⟩ | ⟨-, -, hnext⟩ | ⟨-, -, hnext⟩
  · rw [hnext]
    exact (hset false).trans (keepsSessions_destroyed handler _)
  · rw [hnext]
    exact ((hset true).trans (keepsSessions_newSession _)).trans (.of_sessions_eq rfl)
  · rw [hnext]
    exact hset true

end RpcService

end HktBase.Grpc
