import HktBase.Grpc.GroupLog
import HktBase.Grpc.Workers

/-!
# Sessions among several workers

What the workers keep of the sessions, whatever the order of their steps: a session passes
on what it is given, one message after the other, and the groups list exactly the sessions
that have joined them and are not being deleted.

Between the failure of an operation and the end of the destructor a session still has its
handler, but nothing goes on in it.  A broadcast may queue messages there that are never
written.
-/

namespace HktBase.Grpc

open Transition RpcServer

/-! ## What a session passes on -/

/-- An entry is taken out of a list. -/
theorem filter_eraseIdx {α : Type} {values : List α} {index : ℕ} {value : α}
    (h : values[index]? = some value) (p : α → Bool) :
    ∃ front back, values.filter p = front ++ (if p value then [value] else []) ++ back ∧
      (values.eraseIdx index).filter p = front ++ back := by
  obtain ⟨hlt, rfl⟩ := List.getElem?_eq_some_iff.mp h
  refine ⟨(values.take index).filter p, (values.drop (index + 1)).filter p, ?_, ?_⟩
  · have hsplit : values = values.take index ++ values[index] :: values.drop (index + 1) := by
      rw [← List.drop_eq_getElem_cons hlt, List.take_append_drop]
    calc values.filter p
        = (values.take index ++ values[index] :: values.drop (index + 1)).filter p := by
          rw [← hsplit]
      _ = _ := by
          rw [List.filter_append, List.filter_cons, List.append_assoc]
          split
          · rfl
          · rfl
  · rw [List.eraseIdx_eq_take_drop_succ, List.filter_append]

namespace StreamSession

/-- The operations that write a message. -/
def writes (session : StreamSession) : List AsyncOperation :=
  session.outstanding.filter fun operation => operation ≠ .connect

/-- The messages written and those queued are the packets passed to `Write`, and at most one
write is going on, of the front of the queue. -/
structure Relays (session : StreamSession) (handler : StreamSessionHandler) : Prop where
  bIsWriting : handler.bIsWriting = true ↔ handler.outgoingMessages ≠ []
  writes : session.writes = [] ∨ ∃ front, handler.outgoingMessages.head? = some front ∧
    session.writes = [.write front]
  order : session.completed ++ handler.outgoingMessages =
    session.written.map createResponseFromPacket

theorem relays_start (sessionId : UInt64) :
    (start sessionId).Relays { sessionId := sessionId } where
  bIsWriting := by simp
  writes := Or.inl rfl
  order := rfl

variable {session : StreamSession} {handler : StreamSessionHandler}

theorem Relays.write (h : session.Relays handler) (hhandler : session.handler = some handler)
    (packet : BehaviorPacket) : (session.write packet).Relays (handler.write packet).1 := by
  have horder := h.order
  rw [StreamSession.write, hhandler]
  cases hqueue : handler.outgoingMessages with
  | nil =>
      have hidle : handler.bIsWriting = false := by
        rw [Bool.eq_false_iff, ne_eq, h.bIsWriting, hqueue]
        simp
      have hnone : session.writes = [] := by
        rcases h.writes with hnone | ⟨front, hfront, -⟩
        · exact hnone
        · simp [hqueue] at hfront
      rw [hqueue, List.append_nil] at horder
      simp only [StreamSessionHandler.write, hidle, hqueue, Bool.false_eq_true, if_false,
        List.nil_append, List.head?_cons, startWrite]
      refine ⟨by simp, Or.inr ⟨_, rfl, ?_⟩, by simp [horder]⟩
      rw [StreamSession.writes, List.filter_append]
      exact congrArg (· ++ [.write (createResponseFromPacket packet)]) hnone
  | cons front rest =>
      have hbusy : handler.bIsWriting = true := by
        rw [h.bIsWriting, hqueue]
        simp
      have hwrites := h.writes
      rw [hqueue] at horder hwrites
      simp only [StreamSessionHandler.write, hbusy, hqueue, if_true, startWrite]
      exact ⟨by simp, hwrites, by simp [← horder]⟩

/-- A client has come: the handler has its group from then on, and relays what is written to it. -/
theorem Relays.connect (h : session.Relays handler) (hhandler : session.handler = some handler)
    {index : ℕ} (hoperation : session.outstanding[index]? = some .connect)
    (request : SyncRequest) :
    (session.complete index true request).handler = some (handler.executeConnect request) ∧
      (session.complete index true request).Relays (handler.executeConnect request) := by
  have hcomplete : session.complete index true request =
      { session with
        outstanding := session.outstanding.eraseIdx index
        handler := some (handler.executeConnect request) } := by
    rw [complete, hoperation]
    simp [proceed, hhandler]
  rw [hcomplete]
  refine ⟨rfl, h.bIsWriting, ?_, h.order⟩
  obtain ⟨front, back, hbefore, hafter⟩ :=
    filter_eraseIdx hoperation fun operation => operation ≠ .connect
  have hsame : (session.outstanding.eraseIdx index).filter (fun operation => operation ≠ .connect) =
      session.writes := by
    rw [hafter, StreamSession.writes, hbefore]
    simp
  unfold StreamSession.writes
  rw [hsame]
  exact h.writes

/-- A message has been written, and the next one is: the queue loses its front, and the
operation that is outstanding is the write of the new front. -/
theorem Relays.wrote (h : session.Relays handler) (hhandler : session.handler = some handler)
    {index : ℕ} {response : SyncResponse}
    (hoperation : session.outstanding[index]? = some (.write response)) (request : SyncRequest) :
    (session.complete index true request).handler = some handler.executeWrite.1 ∧
      (session.complete index true request).Relays handler.executeWrite.1 := by
  refine ⟨handler_complete_write hoperation hhandler request, ?_⟩
  obtain ⟨front, back, hbefore, hafter⟩ :=
    filter_eraseIdx hoperation fun operation => operation ≠ .connect
  rcases h.writes with hnone | ⟨next, hnext, hone⟩
  · rw [StreamSession.writes, hbefore] at hnone
    simp at hnone
  -- the operation is the only one that writes, and writes the front
  rw [StreamSession.writes, hbefore] at hone
  obtain ⟨rfl, rfl, rfl⟩ : front = [] ∧ response = next ∧ back = [] := by
    cases front with
    | nil => simpa using hone
    | cons first rest => simp at hone
  have horder := h.order
  cases hqueue : handler.outgoingMessages with
  | nil => simp [hqueue] at hnext
  | cons first rest =>
      obtain rfl : first = response := by simpa [hqueue] using hnext
      rw [hqueue] at horder
      have hbusy : handler.bIsWriting = true := by
        rw [h.bIsWriting, hqueue]
        simp
      rw [complete, hoperation]
      simp only [proceed, hhandler, Bool.not_true, Bool.false_eq_true, if_false,
        StreamSessionHandler.executeWrite, hqueue, List.tail_cons]
      cases rest with
      | nil =>
          refine ⟨by simp, Or.inl ?_, by simp [startWrite, ← horder]⟩
          simpa [StreamSession.writes, startWrite] using hafter
      | cons second later =>
          refine ⟨by simp [hbusy], Or.inr ⟨second, rfl, ?_⟩, by simp [startWrite, ← horder]⟩
          simp only [StreamSession.writes, startWrite, List.filter_append, hafter]
          rfl

/-- An operation has failed, and nothing is started in its place. -/
theorem Relays.failed (h : session.Relays handler) (index : ℕ) :
    Relays { session with outstanding := session.outstanding.eraseIdx index } handler := by
  refine ⟨h.bIsWriting, ?_, h.order⟩
  have hsub : List.Sublist
      ((session.outstanding.eraseIdx index).filter fun operation => operation ≠ .connect)
      session.writes :=
    (List.eraseIdx_sublist ..).filter _
  rcases h.writes with hnone | ⟨front, hfront, hone⟩
  · rw [hnone] at hsub
    exact Or.inl (List.sublist_nil.mp hsub)
  · rw [hone] at hsub
    rcases List.sublist_singleton.mp hsub with hnone | hkept
    · exact Or.inl hnone
    · exact Or.inr ⟨front, hfront, hkept⟩

end StreamSession

namespace RpcWorkers

variable {pool next : RpcWorkers}

/-! ## What one step does -/

/-- A step of a worker, by what it does to the sessions and the groups. -/
inductive Acts (pool next : RpcWorkers) : Prop
  /-- No session and no group changes, and nobody enters or leaves a destructor. -/
  | idle (hsessions : next.service.sessions = pool.service.sessions)
      (hgroups : next.service.groups = pool.service.groups)
      (hid : next.service.nextSessionId = pool.service.nextSessionId)
      (hdeletes : ∀ worker session, next.workers worker = .delete session ↔
        pool.workers worker = .delete session)
  | run (hservice : next.service = pool.service.newSession)
      (hworkers : next.workers = pool.workers)
  | complete (session index : ℕ) (value : StreamSession) (operation : AsyncOperation)
      (handler : StreamSessionHandler) (request : SyncRequest)
      (hvalue : pool.service.sessions[session]? = some value)
      (hoperation : value.outstanding[index]? = some operation)
      (hhandler : value.handler = some handler)
      (hservice : next.service = pool.service.complete session index true request)
      (hworkers : next.workers = pool.workers)
  | fail (session index queue : ℕ) (value : StreamSession) (handler : StreamSessionHandler)
      (hvalue : pool.service.sessions[session]? = some value)
      (hhandler : value.handler = some handler)
      (hqueue : pool.workers queue = .next)
      (hservice : next.service = (pool.service.setSession session
        { value with outstanding := value.outstanding.eraseIdx index }).destroyed handler)
      (hworkers : next.workers = Function.update pool.workers queue (.delete session))
  | write (worker session : ℕ) (groupId : Int32) (packet : BehaviorPacket) (rest : List ℕ)
      (hworker : pool.workers worker = .broadcast groupId packet (session :: rest))
      (hservice : next.service = pool.service.writeSession packet session)
      (hworkers : next.workers =
        Function.update pool.workers worker (.broadcast groupId packet rest))
  | delete (worker session : ℕ) (hworker : pool.workers worker = .delete session)
      (hservice : next.service = deleteSession session pool.service)
      (hworkers : next.workers = Function.update pool.workers worker .next)

/-- A worker that is not in a destructor turns to something else than one. -/
theorem delete_update_iff {workers : ℕ → WorkerState} {worker : ℕ} {state : WorkerState}
    (hbefore : ∀ session, workers worker ≠ .delete session)
    (hafter : ∀ session, state ≠ .delete session) (other session : ℕ) :
    Function.update workers worker state other = .delete session ↔
      workers other = .delete session := by
  rw [Function.update_apply]
  split
  · next heq =>
      subst heq
      exact iff_of_false (hafter session) (hbefore session)
  · exact Iff.rfl

theorem acts_step (pool : RpcWorkers) (event : WorkerEvent) : Acts pool (pool.step event) := by
  cases event with
  | run queue => exact .run rfl rfl
  | complete session index bOk request =>
      rw [RpcWorkers.step]
      rcases pool.complete_cases session index bOk request with
        ⟨calls, hnext⟩ | ⟨queue, value, operation, handler, -, hvalue, hworker, hoperation,
          hhandler, ⟨-, hnext⟩ | ⟨-, hnext⟩⟩
      · rw [hnext]
        exact .idle rfl rfl rfl fun _ _ => Iff.rfl
      · rw [hnext]
        exact .complete session index value operation handler request hvalue hoperation hhandler
          rfl rfl
      · rw [hnext]
        exact .fail session index queue value handler hvalue hhandler hworker rfl rfl
  | broadcast worker groupId packet order =>
      simp only [RpcWorkers.step, beginBroadcast]
      split
      · next hworker =>
          exact .idle rfl rfl rfl (delete_update_iff (by simp [hworker]) (by simp))
      · exact .idle rfl rfl rfl fun _ _ => Iff.rfl
  | advance worker =>
      simp only [RpcWorkers.step, advance]
      split
      · exact .idle rfl rfl rfl fun _ _ => Iff.rfl
      · next hworker =>
          exact .idle rfl rfl rfl (delete_update_iff (by simp [hworker]) (by simp))
      · next groupId packet session rest hworker =>
          exact .write worker session groupId packet rest hworker rfl rfl
      · next session hworker => exact .delete worker session hworker rfl rfl

end RpcWorkers

/-! ## Every session relays -/

namespace RpcService

variable {service : RpcService}

/-- Every live session has the id of its number, and relays. -/
structure SessionsRelay (service : RpcService) : Prop where
  nextSessionId : service.nextSessionId = sessionIdOf service.sessions.length
  live : ∀ (session : ℕ) (value : StreamSession) (handler : StreamSessionHandler),
    service.sessions[session]? = some value → value.handler = some handler →
      handler.sessionId = sessionIdOf session ∧ value.Relays handler

theorem SessionsRelay.of_same (h : service.SessionsRelay) {next : RpcService}
    (hsessions : next.sessions = service.sessions)
    (hid : next.nextSessionId = service.nextSessionId) : next.SessionsRelay where
  nextSessionId := by rw [hid, hsessions, h.nextSessionId]
  live := by
    rw [hsessions]
    exact h.live

theorem SessionsRelay.newSession (h : service.SessionsRelay) :
    service.newSession.SessionsRelay where
  nextSessionId := by
    show service.nextSessionId + 1 = sessionIdOf (service.sessions ++ [_]).length
    rw [h.nextSessionId, List.length_append, List.length_singleton, sessionIdOf_succ]
  live session value handler hvalue hhandler := by
    rw [RpcService.newSession] at hvalue
    rcases Nat.lt_or_ge session service.sessions.length with hlt | hge
    · rw [List.getElem?_append_left hlt] at hvalue
      exact h.live session value handler hvalue hhandler
    · rw [List.getElem?_append_right hge, List.getElem?_singleton] at hvalue
      split at hvalue
      · next hzero =>
          obtain rfl : session = service.sessions.length := by omega
          obtain rfl := Option.some.inj hvalue
          obtain rfl := Option.some.inj hhandler
          exact ⟨h.nextSessionId, StreamSession.relays_start _⟩
      · simp at hvalue

theorem SessionsRelay.setSession (h : service.SessionsRelay) {session : ℕ} {value : StreamSession}
    (hvalue : ∀ handler, value.handler = some handler →
      handler.sessionId = sessionIdOf session ∧ value.Relays handler) :
    (service.setSession session value).SessionsRelay where
  nextSessionId := by
    rw [RpcService.setSession, List.length_set, h.nextSessionId]
  live other found handler hfound hhandler := by
    rw [RpcService.setSession, List.getElem?_set] at hfound
    split at hfound
    · next hsame =>
        subst hsame
        split at hfound
        · obtain rfl := Option.some.inj hfound
          exact hvalue handler hhandler
        · simp at hfound
    · exact h.live other found handler hfound hhandler

theorem SessionsRelay.complete (h : service.SessionsRelay) {session index : ℕ}
    {value : StreamSession} {operation : AsyncOperation} {handler : StreamSessionHandler}
    (hvalue : service.sessions[session]? = some value)
    (hoperation : value.outstanding[index]? = some operation)
    (hhandler : value.handler = some handler) (request : SyncRequest) :
    (service.complete session index true request).SessionsRelay := by
  obtain ⟨hid, hrelays⟩ := h.live session value handler hvalue hhandler
  cases operation with
  | connect =>
      obtain ⟨hafter, hnext⟩ := hrelays.connect hhandler hoperation request
      rw [complete_connect hvalue hoperation hhandler]
      have hset : (service.setSession session (value.complete index true request)).SessionsRelay := by
        refine h.setSession fun found hfound => ?_
        obtain rfl := Option.some.inj (hafter.symm.trans hfound)
        exact ⟨hid, hnext⟩
      exact hset.newSession.of_same rfl rfl
  | write response =>
      obtain ⟨hafter, hnext⟩ := hrelays.wrote hhandler hoperation request
      rw [complete_write hvalue hoperation hhandler]
      refine h.setSession fun found hfound => ?_
      obtain rfl := Option.some.inj (hafter.symm.trans hfound)
      exact ⟨(StreamSessionHandler.sessionId_executeWrite handler).trans hid, hnext⟩

theorem SessionsRelay.writeSession (h : service.SessionsRelay) (packet : BehaviorPacket)
    (session : ℕ) : (service.writeSession packet session).SessionsRelay := by
  unfold RpcService.writeSession
  split
  · exact h.of_same rfl rfl
  · next value hvalue =>
      split
      · next hlive =>
          obtain ⟨handler, hhandler⟩ := Option.isSome_iff_exists.mp hlive
          obtain ⟨hid, hrelays⟩ := h.live session value handler hvalue hhandler
          refine h.setSession fun found hfound => ?_
          rw [StreamSession.handler_write hhandler] at hfound
          obtain rfl := Option.some.inj hfound
          exact ⟨(StreamSessionHandler.sessionId_write packet handler).trans hid,
            hrelays.write hhandler packet⟩
      · exact h.of_same rfl rfl

/-! ## Every session is listed once -/

/-- A session is listed in one entry at most, and only after its client has come. -/
structure ListsOnce (service : RpcService) : Prop where
  once : ∀ groupId sessionId other otherId session, service.ListedAt groupId sessionId session →
    service.ListedAt other otherId session → groupId = other ∧ sessionId = otherId
  connected : ∀ groupId sessionId session, service.ListedAt groupId sessionId session →
    ∃ value, service.sessions[session]? = some value ∧ value.outstanding.count .connect = 0

/-- A step that lists nothing new. -/
theorem ListsOnce.of_keepsSessions (h : service.ListsOnce) {next : RpcService}
    (hkeeps : KeepsSessions service next)
    (hlisted : ∀ groupId sessionId session, next.ListedAt groupId sessionId session →
      service.ListedAt groupId sessionId session) : next.ListsOnce where
  once groupId sessionId other otherId session hfirst hsecond :=
    h.once groupId sessionId other otherId session (hlisted _ _ _ hfirst) (hlisted _ _ _ hsecond)
  connected groupId sessionId session hfound := by
    obtain ⟨value, hvalue, hnone⟩ := h.connected groupId sessionId session (hlisted _ _ _ hfound)
    obtain ⟨after, hafter, hle⟩ := hkeeps.kept session value hvalue
    exact ⟨after, hafter, by omega⟩

theorem ListedAt.of_groups_eq {next : RpcService} (hgroups : next.groups = service.groups)
    {groupId : Int32} {sessionId : UInt64} {session : ℕ}
    (h : next.ListedAt groupId sessionId session) :
    service.ListedAt groupId sessionId session := by
  rwa [ListedAt, hgroups] at h

theorem ListsOnce.complete (h : service.ListsOnce) (hawait : service.SessionsAwait)
    {session index : ℕ} {value : StreamSession} {operation : AsyncOperation}
    {handler : StreamSessionHandler} (hvalue : service.sessions[session]? = some value)
    (hoperation : value.outstanding[index]? = some operation)
    (hhandler : value.handler = some handler) (request : SyncRequest) :
    (service.complete session index true request).ListsOnce := by
  have hkeeps := keepsSessions_complete service session index true request
  cases operation with
  | write response =>
      refine h.of_keepsSessions hkeeps fun groupId sessionId other hfound => ?_
      rw [complete_write hvalue hoperation hhandler] at hfound
      exact hfound
  | connect =>
      have hlt : session < service.sessions.length := (List.getElem?_eq_some_iff.mp hvalue).1
      have hafter : (service.complete session index true request).sessions[session]? =
          some (value.complete index true request) := by
        rw [complete_connect hvalue hoperation hhandler]
        simp [registerSession, RpcService.newSession, RpcService.setSession,
          List.getElem?_append_left, hlt]
      have hzero := (hawait session value hvalue).count_eq_zero hoperation true request
      -- the session was waiting for its client, and listed nowhere
      have hunlisted : ∀ groupId sessionId, ¬ service.ListedAt groupId sessionId session := by
        intro groupId sessionId hfound
        obtain ⟨found, hfound, hnone⟩ := h.connected groupId sessionId session hfound
        obtain rfl := Option.some.inj (hvalue.symm.trans hfound)
        have hmem := List.mem_of_getElem? hoperation
        rw [StreamSession.connect_mem_iff, hnone] at hmem
        exact Nat.lt_irrefl 0 hmem
      have hlisted : ∀ groupId sessionId other,
          (service.complete session index true request).ListedAt groupId sessionId other ↔
            if groupId = request.groupId ∧ sessionId = handler.sessionId then other = session
            else service.ListedAt groupId sessionId other :=
        fun _ _ _ => listedAt_complete_connect hvalue hoperation hhandler request
      refine ⟨fun groupId sessionId other otherId target hfirst hsecond => ?_,
        fun groupId sessionId target hfound => ?_⟩
      · rw [hlisted] at hfirst hsecond
        split at hfirst
        · next hkey =>
            subst hfirst
            split at hsecond
            · next hother => exact ⟨hkey.1.trans hother.1.symm, hkey.2.trans hother.2.symm⟩
            · exact absurd hsecond (hunlisted other otherId)
        · split at hsecond
          · subst hsecond
            exact absurd hfirst (hunlisted groupId sessionId)
          · exact h.once groupId sessionId other otherId target hfirst hsecond
      · rw [hlisted] at hfound
        split at hfound
        · subst hfound
          exact ⟨_, hafter, hzero⟩
        · obtain ⟨before, hbefore, hnone⟩ := h.connected groupId sessionId target hfound
          obtain ⟨found, hfound, hle⟩ := hkeeps.kept target before hbefore
          exact ⟨found, hfound, by omega⟩

theorem ListsOnce.nodup_snapshot (h : service.ListsOnce) (groupId : Int32)
    (order : VisitOrder UInt64 ℕ) : (service.snapshot groupId order).Nodup :=
  RpcService.nodup_snapshot order fun first second session hfirst hsecond =>
    (h.once groupId first groupId second session hfirst hsecond).2

end RpcService

namespace RpcWorkers

variable {pool next : RpcWorkers}

/-! ## What the destructor does -/

theorem sessions_fail {session index : ℕ} {value : StreamSession}
    (hvalue : pool.service.sessions[session]? = some value) (handler : StreamSessionHandler) :
    RpcService.KeepsSessions pool.service ((pool.service.setSession session
      { value with outstanding := value.outstanding.eraseIdx index }).destroyed handler) := by
  have hle : (value.outstanding.eraseIdx index).count .connect ≤
      value.outstanding.count .connect :=
    List.Sublist.count_le _ (List.eraseIdx_sublist ..)
  refine (RpcService.keepsSessions_setSession hvalue hle fun hawaits => ?_).trans
    (RpcService.keepsSessions_destroyed handler _)
  exact ⟨hle.trans hawaits.once, fun hconnect =>
    hawaits.groupId (List.mem_of_mem_eraseIdx hconnect)⟩

theorem keepsSessions_deleteSession (session : ℕ) (service : RpcService) :
    RpcService.KeepsSessions service (deleteSession session service) := by
  unfold deleteSession
  split
  · exact .refl _
  · next value hvalue =>
      refine RpcService.keepsSessions_setSession hvalue le_rfl fun hawaits => ?_
      exact ⟨hawaits.once, fun _ handler hhandler => by simp at hhandler⟩

theorem groups_deleteSession (session : ℕ) (service : RpcService) :
    (deleteSession session service).groups = service.groups := by
  unfold deleteSession
  split <;> rfl

/-! ## Steps -/

theorem Acts.sessionsRelay (h : Acts pool next) (hrelay : pool.service.SessionsRelay) :
    next.service.SessionsRelay := by
  cases h with
  | idle hsessions hgroups hid hdeletes => exact hrelay.of_same hsessions hid
  | run hservice hworkers =>
      rw [hservice]
      exact hrelay.newSession
  | complete session index value operation handler request hvalue hoperation hhandler hservice =>
      rw [hservice]
      exact hrelay.complete hvalue hoperation hhandler request
  | fail session index queue value handler hvalue hhandler hqueue hservice =>
      rw [hservice]
      refine (hrelay.setSession fun found hfound => ?_).of_same
        (RpcService.sessions_destroyed handler _) ?_
      · obtain rfl := Option.some.inj (hhandler.symm.trans hfound)
        obtain ⟨hid, hrelays⟩ := hrelay.live session value handler hvalue hhandler
        exact ⟨hid, hrelays.failed index⟩
      · unfold RpcService.destroyed
        split <;> rfl
  | write worker session groupId packet rest hworker hservice =>
      rw [hservice]
      exact hrelay.writeSession packet session
  | delete worker session hworker hservice =>
      rw [hservice]
      unfold deleteSession
      split
      · exact hrelay
      · exact hrelay.setSession fun handler hhandler => by simp at hhandler

theorem Acts.listsOnce (h : Acts pool next) (htidy : pool.Tidy)
    (honce : pool.service.ListsOnce) : next.service.ListsOnce := by
  cases h with
  | idle hsessions hgroups =>
      exact honce.of_keepsSessions (.of_sessions_eq hsessions) fun _ _ _ hfound =>
        hfound.of_groups_eq hgroups
  | run hservice =>
      rw [hservice]
      exact honce.of_keepsSessions (RpcService.keepsSessions_newSession _) fun _ _ _ => id
  | complete session index value operation handler request hvalue hoperation hhandler hservice =>
      rw [hservice]
      exact honce.complete htidy.awaits hvalue hoperation hhandler request
  | fail session index queue value handler hvalue hhandler hqueue hservice =>
      rw [hservice]
      exact honce.of_keepsSessions (sessions_fail hvalue handler) fun _ _ _ hfound =>
        hfound.of_destroyed
  | write worker session groupId packet rest hworker hservice =>
      rw [hservice]
      have hwrites := RpcService.writesEach_writeSession packet pool.service session
      exact honce.of_keepsSessions hwrites.keepsSessions fun _ _ _ hfound =>
        hfound.of_groups_eq hwrites.groups
  | delete worker session hworker hservice =>
      rw [hservice]
      exact honce.of_keepsSessions (keepsSessions_deleteSession session _) fun _ _ _ hfound =>
        hfound.of_groups_eq (groups_deleteSession session _)

/-! ## Who has joined is listed -/

/-- A live session that has joined a group other than -1 is listed there under its id, unless
a worker is deleting it. -/
def ListsJoined (pool : RpcWorkers) : Prop :=
  ∀ session handler, pool.service.handler session = some handler → handler.groupId ≠ -1 →
    pool.service.ListedAt handler.groupId handler.sessionId session ∨
      ∃ worker, pool.workers worker = .delete session

theorem sessionId_eq (hrelay : pool.service.SessionsRelay) {session : ℕ}
    {handler : StreamSessionHandler} (hhandler : pool.service.handler session = some handler) :
    session < pool.service.sessions.length ∧ handler.sessionId = sessionIdOf session := by
  obtain ⟨value, hvalue, hfound⟩ := Option.bind_eq_some_iff.mp hhandler
  exact ⟨(List.getElem?_eq_some_iff.mp hvalue).1, (hrelay.live session value handler hvalue hfound).1⟩

/-- A session that is created has no group. -/
theorem handler_newSession {service : RpcService} {session : ℕ} {handler : StreamSessionHandler}
    (h : service.newSession.handler session = some handler) :
    service.handler session = some handler ∨ handler.groupId = -1 := by
  rcases Nat.lt_or_ge session service.sessions.length with hlt | hge
  · left
    rwa [RpcService.handler, RpcService.newSession, List.getElem?_append_left hlt] at h
  · right
    rw [RpcService.handler, RpcService.newSession, List.getElem?_append_right hge,
      List.getElem?_singleton] at h
    split at h
    · obtain rfl := Option.some.inj h
      rfl
    · simp at h

/-- A completion makes two sessions what they were not: the one whose client has come, and its
successor, which has no group. -/
theorem ListsJoined.complete (h : pool.ListsJoined) (hrelay : pool.service.SessionsRelay)
    (hfew : pool.service.sessions.length < 2 ^ 64) {session index : ℕ} {value : StreamSession}
    {operation : AsyncOperation} {handler : StreamSessionHandler}
    (hvalue : pool.service.sessions[session]? = some value)
    (hoperation : value.outstanding[index]? = some operation)
    (hhandler : value.handler = some handler) (request : SyncRequest)
    (hservice : next.service = pool.service.complete session index true request)
    (hworkers : next.workers = pool.workers) : next.ListsJoined := by
  have hlt : session < pool.service.sessions.length := (List.getElem?_eq_some_iff.mp hvalue).1
  have hlive : pool.service.handler session = some handler :=
    (RpcService.handler_eq hvalue).trans hhandler
  intro other found hfound hgroup
  rw [hworkers]
  rw [hservice] at hfound ⊢
  cases operation with
  | write response =>
      rw [RpcService.complete_write hvalue hoperation hhandler] at hfound ⊢
      rw [RpcService.handler_setSession hlt] at hfound
      split at hfound
      · next hsame =>
          subst hsame
          rw [StreamSession.handler_complete_write hoperation hhandler] at hfound
          obtain rfl := Option.some.inj hfound
          rw [StreamSessionHandler.groupId_executeWrite] at hgroup ⊢
          rw [StreamSessionHandler.sessionId_executeWrite]
          exact h other handler hlive hgroup
      · exact h other found hfound hgroup
  | connect =>
      rw [RpcService.listedAt_complete_connect hvalue hoperation hhandler]
      by_cases hsame : other = session
      · subst hsame
        rw [RpcService.handler_complete_connect hvalue hoperation hhandler] at hfound
        obtain rfl := Option.some.inj hfound
        left
        rw [if_pos ⟨rfl, rfl⟩]
      · have hbefore : pool.service.handler other = some found := by
          have hset : ((pool.service.setSession session
              (value.complete index true request)).newSession).handler other = some found := by
            rw [RpcService.complete_connect hvalue hoperation hhandler] at hfound
            exact hfound
          rcases handler_newSession hset with hold | hnone
          · rwa [RpcService.handler_setSession hlt, if_neg hsame] at hold
          · exact absurd hnone hgroup
        -- the entry of another session is under another id
        obtain ⟨hother, hid⟩ := sessionId_eq hrelay hbefore
        have hne : found.sessionId ≠ handler.sessionId := by
          rw [hid, (sessionId_eq hrelay hlive).2]
          exact sessionIdOf_ne hsame (by omega) (by omega)
        rw [if_neg fun hkey => hne hkey.2]
        exact h other found hbefore hgroup

/-- A destructor takes the entry of its own session only: it unregisters a group and an id, and
below 2^64 sessions no other one has that id. -/
theorem ListsJoined.fail (h : pool.ListsJoined) (hrelay : pool.service.SessionsRelay)
    (hfew : pool.service.sessions.length < 2 ^ 64) {session index queue : ℕ}
    {value : StreamSession} {handler : StreamSessionHandler}
    (hvalue : pool.service.sessions[session]? = some value)
    (hhandler : value.handler = some handler) (hqueue : pool.workers queue = .next)
    (hservice : next.service = (pool.service.setSession session
      { value with outstanding := value.outstanding.eraseIdx index }).destroyed handler)
    (hworkers : next.workers = Function.update pool.workers queue (.delete session)) :
    next.ListsJoined := by
  have hlt : session < pool.service.sessions.length := (List.getElem?_eq_some_iff.mp hvalue).1
  have hlive : pool.service.handler session = some handler :=
    (RpcService.handler_eq hvalue).trans hhandler
  intro other found hfound hgroup
  by_cases hsame : other = session
  · exact Or.inr ⟨queue, by rw [hworkers, Function.update_self, hsame]⟩
  · rw [hservice, RpcService.handler_of_sessions_eq (RpcService.sessions_destroyed handler _),
      RpcService.handler_setSession hlt, if_neg hsame] at hfound
    rcases h other found hfound hgroup with hlisted | ⟨worker, hdelete⟩
    · left
      have hset : (pool.service.setSession session
          { value with outstanding := value.outstanding.eraseIdx index }).ListedAt found.groupId
            found.sessionId other := hlisted
      rw [hservice]
      refine hset.destroyed ?_
      rw [(sessionId_eq hrelay hfound).2, (sessionId_eq hrelay hlive).2]
      have hother := (sessionId_eq hrelay hfound).1
      exact sessionIdOf_ne hsame (by omega) (by omega)
    · have hne : worker ≠ queue := by
        rintro rfl
        simp [hqueue] at hdelete
      exact Or.inr ⟨worker, by rw [hworkers, Function.update_of_ne hne, hdelete]⟩

/-- `Write` changes neither the group nor the id of a session. -/
theorem handler_writeSession {service : RpcService} {packet : BehaviorPacket} {target session : ℕ}
    {handler : StreamSessionHandler}
    (h : (service.writeSession packet target).handler session = some handler) :
    ∃ before, service.handler session = some before ∧ handler.groupId = before.groupId ∧
      handler.sessionId = before.sessionId := by
  have hsessions := (RpcService.writesEach_writeSession packet service target).sessions session
  rw [RpcService.handler, hsessions] at h
  split at h
  · cases hvalue : service.sessions[session]? with
    | none => simp [hvalue] at h
    | some value =>
        rw [hvalue] at h
        cases hbefore : value.handler with
        | none => simp [StreamSession.write, hbefore] at h
        | some before =>
            have hafter : (value.write packet).handler = some handler := h
            rw [StreamSession.handler_write hbefore] at hafter
            obtain rfl := Option.some.inj hafter
            refine ⟨before, ?_, by simp, by simp⟩
            rw [RpcService.handler_eq hvalue, hbefore]
  · exact ⟨handler, h, rfl, rfl⟩

theorem Acts.listsJoined (hacts : Acts pool next) (hrelay : pool.service.SessionsRelay)
    (hfew : pool.service.sessions.length < 2 ^ 64) (h : pool.ListsJoined) : next.ListsJoined := by
  cases hacts with
  | idle hsessions hgroups hid hdeletes =>
      intro session handler hhandler hgroup
      rw [RpcService.handler_of_sessions_eq hsessions] at hhandler
      simp only [RpcService.ListedAt, hgroups, hdeletes]
      exact h session handler hhandler hgroup
  | run hservice hworkers =>
      intro session handler hhandler hgroup
      rw [hservice] at hhandler ⊢
      rw [hworkers]
      rcases handler_newSession hhandler with hold | hnone
      · exact h session handler hold hgroup
      · exact absurd hnone hgroup
  | complete session index value operation handler request hvalue hoperation hhandler hservice
      hworkers =>
      exact h.complete hrelay hfew hvalue hoperation hhandler request hservice hworkers
  | fail session index queue value handler hvalue hhandler hqueue hservice hworkers =>
      exact h.fail hrelay hfew hvalue hhandler hqueue hservice hworkers
  | write worker session groupId packet rest hworker hservice hworkers =>
      intro other handler hhandler hgroup
      rw [hservice] at hhandler
      obtain ⟨before, hbefore, hsame, hid⟩ := handler_writeSession hhandler
      rw [hsame] at hgroup ⊢
      have hgroups := (RpcService.writesEach_writeSession packet pool.service session).groups
      have hdeletes : ∀ elsewhere, next.workers elsewhere = .delete other ↔
          pool.workers elsewhere = .delete other := by
        intro elsewhere
        rw [hworkers]
        exact delete_update_iff (by simp [hworker]) (by simp) elsewhere other
      simp only [hid, hservice, RpcService.ListedAt, hgroups, hdeletes]
      exact h other before hbefore hgroup
  | delete worker session hworker hservice hworkers =>
      intro other handler hhandler hgroup
      rw [hservice, handler_deleteSession] at hhandler
      split at hhandler
      · simp at hhandler
      · next hne =>
          rcases h other handler hhandler hgroup with hlisted | ⟨elsewhere, hdelete⟩
          · left
            rw [hservice, RpcService.ListedAt, groups_deleteSession]
            exact hlisted
          · have hother : elsewhere ≠ worker := by
              rintro rfl
              rw [hworker] at hdelete
              exact hne (WorkerState.delete.inj hdelete).symm
            exact Or.inr ⟨elsewhere, by rw [hworkers, Function.update_of_ne hother, hdelete]⟩

/-! ## Runs -/

/-- What holds after every run of fewer than 2^64 sessions. -/
structure Keeps (pool : RpcWorkers) : Prop where
  tidy : pool.Tidy
  relay : pool.service.SessionsRelay
  once : pool.service.ListsOnce
  joined : pool.ListsJoined

theorem keeps_init : ({} : RpcWorkers).Keeps where
  tidy := tidy_init
  relay := ⟨rfl, by simp⟩
  once := ⟨by simp [RpcService.ListedAt], by simp [RpcService.ListedAt]⟩
  joined := by simp [ListsJoined, RpcService.handler]

theorem Keeps.step (h : pool.Keeps) (hfew : pool.service.sessions.length < 2 ^ 64)
    (event : WorkerEvent) : (pool.step event).Keeps :=
  have hacts := acts_step pool event
  { tidy := h.tidy.step event
    relay := hacts.sessionsRelay h.relay
    once := hacts.listsOnce h.tidy h.once
    joined := hacts.listsJoined h.relay hfew h.joined }

/-- The sessions that have joined a group, are alive and are not being deleted. -/
def Joined (pool : RpcWorkers) (groupId : Int32) (session : ℕ) : Prop :=
  ∃ handler, pool.service.handler session = some handler ∧ handler.groupId = groupId ∧
    ∀ worker, pool.workers worker ≠ .delete session

/-- A snapshot of a group other than -1 is who has joined it. -/
theorem Keeps.mem_snapshot_iff (h : pool.Keeps) {groupId : Int32} (hgroup : groupId ≠ -1)
    (order : VisitOrder UInt64 ℕ) (session : ℕ) :
    session ∈ pool.service.snapshot groupId order ↔ pool.Joined groupId session := by
  rw [RpcService.mem_snapshot]
  constructor
  · rintro ⟨sessionId, hlisted⟩
    obtain ⟨handler, hhandler, rfl, -⟩ := h.tidy.listed groupId sessionId session hgroup hlisted
    refine ⟨handler, hhandler, rfl, fun worker hdelete => ?_⟩
    exact (h.tidy.deleting worker session hdelete).2 _ sessionId hgroup hlisted
  · rintro ⟨handler, hhandler, rfl, hnone⟩
    rcases h.joined session handler hhandler hgroup with hlisted | ⟨worker, hdelete⟩
    · exact ⟨handler.sessionId, hlisted⟩
    · exact absurd hdelete (hnone worker)

end RpcWorkers

end HktBase.Grpc
