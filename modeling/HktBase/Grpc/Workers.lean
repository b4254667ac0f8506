import Mathlib.Logic.Function.Basic
import HktBase.Grpc.Listing
import HktBase.Grpc.Registry

/-!
# Workers

`HandleRpcs` of several completion queues at once.  A step is what a worker does under one
lock: it processes a completion, takes the snapshot of a broadcast, writes to the next
session of its snapshot, or ends a destructor.  The steps of different workers come in any
order.

A session belongs to one completion queue, and only the worker of that queue completes its
operations and deletes it.  A broadcast writes to sessions of all queues.  Nothing keeps
a session alive between the snapshot and the write, so that a broadcast is safe exactly
when no other worker deletes one of its sessions in between: `broadcast_targets_live_iff`.

`Tidy` is the invariant: what a group other than -1 lists is alive under that group and id, and
a session whose destructor has run is listed nowhere.  `complete_cases` says once what a
completion can do, and `awaited_step` and `live_step` follow the two halves of
`Tidy.targetsLive_step_iff`, from which the runs follow by induction.
-/

namespace HktBase.Grpc

open Transition

/-! ## Workers and their steps -/

/-- What a worker is doing. -/
inductive WorkerState
  /-- It waits in `Next`. -/
  | next
  /-- It is in the loop of `TGroup::Broadcast`, with the rest of `TempSessions`. -/
  | broadcast (groupId : Int32) (packet : BehaviorPacket) (sessions : List ℕ)
  /-- It is in a destructor that has unregistered its session. -/
  | delete (session : ℕ)
  deriving DecidableEq

/-- The service and its workers, one for each completion queue. -/
structure RpcWorkers where
  service : RpcService := {}
  /-- The completion queue of each session. -/
  queues : List ℕ := []
  workers : ℕ → WorkerState := fun _ => .next

namespace RpcWorkers

def setWorker (worker : ℕ) (state : WorkerState) (pool : RpcWorkers) : RpcWorkers :=
  { pool with workers := Function.update pool.workers worker state }

/-- `Run` creates the first session of a queue. -/
def runQueue (queue : ℕ) (pool : RpcWorkers) : RpcWorkers :=
  { pool with
    service := pool.service.newSession
    queues := pool.queues ++ [queue] }

/-- The worker of the session's queue takes the completion of an operation out of `Next` and
runs `FAsyncOperation::Proceed`.  If the operation has failed it enters the destructor. -/
def complete (session index : ℕ) (bOk : Bool) (request : SyncRequest) (pool : RpcWorkers) :
    RpcWorkers :=
  match pool.queues[session]?, pool.service.sessions[session]? with
  | some queue, some value =>
      match pool.workers queue, value.outstanding[index]?, value.handler with
      | .next, some operation, some handler =>
          if bOk then
            { pool with
              service := pool.service.complete session index true request
              -- the successor of a connected session is on the same queue
              queues := pool.queues ++ if operation = .connect then [queue] else [] }
          else
            { pool with
              service := (pool.service.setSession session
                { value with outstanding := value.outstanding.eraseIdx index }).destroyed handler
            }.setWorker queue (.delete session)
      | .next, some _, none =>
          { pool with
            service := { pool.service with
              danglingCalls := pool.service.danglingCalls ++ [session] } }
      | _, _, _ => pool
  | _, _ => pool

/-- `BroadcastToGroup` up to the end of the snapshot.  The group is looked up under a lock of
its own, which makes no difference: no group is ever removed. -/
def beginBroadcast (worker : ℕ) (groupId : Int32) (packet : BehaviorPacket)
    (order : VisitOrder UInt64 ℕ) (pool : RpcWorkers) : RpcWorkers :=
  match pool.workers worker with
  | .next =>
      pool.setWorker worker (.broadcast groupId packet (pool.service.snapshot groupId order))
  | _ => pool

/-- The end of a destructor. -/
def deleteSession (session : ℕ) (service : RpcService) : RpcService :=
  match service.sessions[session]? with
  | none => service
  | some value => service.setSession session { value with handler := none }

/-- A worker that is not in `Next` goes on. -/
def advance (worker : ℕ) (pool : RpcWorkers) : RpcWorkers :=
  match pool.workers worker with
  | .next => pool
  | .broadcast _ _ [] => pool.setWorker worker .next
  | .broadcast groupId packet (session :: rest) =>
      { pool with
        service := pool.service.writeSession packet session
      }.setWorker worker (.broadcast groupId packet rest)
  | .delete session =>
      { pool with service := deleteSession session pool.service }.setWorker worker .next

end RpcWorkers

/-- What the workers do, and what happens to them. -/
inductive WorkerEvent
  | run (queue : ℕ)
  | complete (session index : ℕ) (bOk : Bool) (request : SyncRequest)
  | broadcast (worker : ℕ) (groupId : Int32) (packet : BehaviorPacket)
      (order : VisitOrder UInt64 ℕ)
  | advance (worker : ℕ)

def RpcWorkers.step (pool : RpcWorkers) : WorkerEvent → RpcWorkers
  | .run queue => pool.runQueue queue
  | .complete session index bOk request => pool.complete session index bOk request
  | .broadcast worker groupId packet order => pool.beginBroadcast worker groupId packet order
  | .advance worker => pool.advance worker

/-! ## What becomes of a handler -/

namespace RpcService

variable {service : RpcService} {session : ℕ} {handler : StreamSessionHandler}

/-- Whoever is alive stays alive, in the same group and with the same id, unless excepted. -/
def KeepsHandlers (excepted : ℕ → Prop) (before after : RpcService) : Prop :=
  ∀ session handler, ¬ excepted session → before.handler session = some handler →
    ∃ next, after.handler session = some next ∧ next.groupId = handler.groupId ∧
      next.sessionId = handler.sessionId

theorem KeepsHandlers.refl (excepted : ℕ → Prop) (service : RpcService) :
    KeepsHandlers excepted service service :=
  fun _ handler _ hhandler => ⟨handler, hhandler, rfl, rfl⟩

theorem KeepsHandlers.trans {excepted : ℕ → Prop} {first second third : RpcService}
    (h : KeepsHandlers excepted first second) (hnext : KeepsHandlers excepted second third) :
    KeepsHandlers excepted first third := by
  intro session handler hnot hhandler
  obtain ⟨middle, hmiddle, hgroup, hid⟩ := h session handler hnot hhandler
  obtain ⟨next, hfound, hgroup', hid'⟩ := hnext session middle hnot hmiddle
  exact ⟨next, hfound, hgroup'.trans hgroup, hid'.trans hid⟩

/-- A session that is known under a group and an id stays so. -/
theorem KeepsHandlers.exists_handler {excepted : ℕ → Prop} {before after : RpcService}
    (h : KeepsHandlers excepted before after) (hnot : ¬ excepted session) {groupId : Int32}
    {sessionId : UInt64}
    (hknown : ∃ handler, before.handler session = some handler ∧ handler.groupId = groupId ∧
      handler.sessionId = sessionId) :
    ∃ handler, after.handler session = some handler ∧ handler.groupId = groupId ∧
      handler.sessionId = sessionId := by
  obtain ⟨handler, hhandler, hgroup, hid⟩ := hknown
  obtain ⟨next, hnext, hgroup', hid'⟩ := h session handler hnot hhandler
  exact ⟨next, hnext, hgroup'.trans hgroup, hid'.trans hid⟩

theorem KeepsHandlers.isSome {excepted : ℕ → Prop} {before after : RpcService}
    (h : KeepsHandlers excepted before after) (hnot : ¬ excepted session)
    (hlive : (before.handler session).isSome = true) :
    (after.handler session).isSome = true := by
  obtain ⟨handler, hhandler⟩ := Option.isSome_iff_exists.mp hlive
  obtain ⟨next, hnext, -⟩ := h session handler hnot hhandler
  exact Option.isSome_iff_exists.mpr ⟨next, hnext⟩

theorem keepsHandlers_newSession (excepted : ℕ → Prop) (service : RpcService) :
    KeepsHandlers excepted service service.newSession := by
  intro session handler _ hhandler
  obtain ⟨value, hvalue, hfound⟩ := Option.bind_eq_some_iff.mp hhandler
  have hlt : session < service.sessions.length := (List.getElem?_eq_some_iff.mp hvalue).1
  refine ⟨handler, ?_, rfl, rfl⟩
  rw [RpcService.handler, newSession, List.getElem?_append_left hlt, hvalue]
  exact hfound

theorem keepsHandlers_writeSession (excepted : ℕ → Prop) (packet : BehaviorPacket)
    (service : RpcService) (target : ℕ) :
    KeepsHandlers excepted service (service.writeSession packet target) := by
  intro session handler _ hhandler
  obtain ⟨value, hvalue, hfound⟩ := Option.bind_eq_some_iff.mp hhandler
  have hsessions := (writesEach_writeSession packet service target).sessions session
  rw [hvalue] at hsessions
  split at hsessions
  · refine ⟨(handler.write packet).1, ?_, by simp, by simp⟩
    rw [RpcService.handler, hsessions]
    exact StreamSession.handler_write hfound packet
  · refine ⟨handler, ?_, rfl, rfl⟩
    rw [RpcService.handler, hsessions]
    exact hfound

/-- A `Write` brings nobody back. -/
theorem handler_writeSession_eq_none (packet : BehaviorPacket) (target : ℕ)
    (hdead : service.handler session = none) :
    (service.writeSession packet target).handler session = none := by
  have hsessions := (writesEach_writeSession packet service target).sessions session
  rw [RpcService.handler, hsessions]
  split
  · cases hvalue : service.sessions[session]? with
    | none => rfl
    | some value =>
        have hnone : value.handler = none := (handler_eq hvalue).symm.trans hdead
        show (value.write packet).handler = none
        rw [StreamSession.write, hnone]
        exact hnone
  · exact hdead

/-- A session that is replaced by one that is alive in the same group with the same id. -/
theorem keepsHandlers_setSession (excepted : ℕ → Prop) {value next : StreamSession}
    (hvalue : service.sessions[session]? = some value)
    (hkept : ¬ excepted session → ∀ handler, value.handler = some handler →
      ∃ after, next.handler = some after ∧ after.groupId = handler.groupId ∧
        after.sessionId = handler.sessionId) :
    KeepsHandlers excepted service (service.setSession session next) := by
  intro other found hnot hfound
  have hlt : session < service.sessions.length := (List.getElem?_eq_some_iff.mp hvalue).1
  rw [handler_setSession hlt]
  split
  · next hsame =>
      subst hsame
      exact hkept hnot found ((handler_eq hvalue).symm.trans hfound)
  · exact ⟨found, hfound, rfl, rfl⟩

theorem handler_of_sessions_eq {before after : RpcService}
    (hsessions : after.sessions = before.sessions) (session : ℕ) :
    after.handler session = before.handler session := by
  rw [RpcService.handler, RpcService.handler, hsessions]

theorem sessions_destroyed (handler : StreamSessionHandler) (service : RpcService) :
    (service.destroyed handler).sessions = service.sessions := by
  unfold destroyed
  split <;> rfl

theorem handler_complete_connect {index : ℕ} {value : StreamSession}
    (hvalue : service.sessions[session]? = some value)
    (hoperation : value.outstanding[index]? = some .connect)
    (hhandler : value.handler = some handler) (request : SyncRequest) :
    (service.complete session index true request).handler session =
      some (handler.executeConnect request) := by
  have hlt : session < service.sessions.length := (List.getElem?_eq_some_iff.mp hvalue).1
  rw [complete_connect hvalue hoperation hhandler, RpcService.handler]
  simp [registerSession, newSession, setSession, List.getElem?_append_left, hlt,
    StreamSession.complete, hoperation, StreamSession.proceed, hhandler]

/-- A completed operation kills nobody, and gives a group only to a session whose client
has come. -/
theorem keepsHandlers_complete {index : ℕ} {value : StreamSession} {operation : AsyncOperation}
    (hvalue : service.sessions[session]? = some value)
    (hoperation : value.outstanding[index]? = some operation)
    (hhandler : value.handler = some handler) (request : SyncRequest) :
    KeepsHandlers (fun other => other = session ∧ operation = .connect) service
      (service.complete session index true request) := by
  cases operation with
  -- `newSession` waits for the next client, `registerSession` lists this one
  | connect =>
      rw [complete_connect hvalue hoperation hhandler]
      have hset : KeepsHandlers (fun other => other = session ∧ AsyncOperation.connect = .connect)
          service (service.setSession session (value.complete index true request)) :=
        keepsHandlers_setSession _ hvalue fun hnot => absurd ⟨rfl, rfl⟩ hnot
      exact (hset.trans (keepsHandlers_newSession _ _)).trans (KeepsHandlers.refl _ _)
  | write response =>
      have hnext : service.complete session index true request =
          service.setSession session (value.complete index true request) := by
        simp [complete, hvalue, hoperation, hhandler]
      rw [hnext]
      refine keepsHandlers_setSession _ hvalue fun _ found hfound => ?_
      refine ⟨_, StreamSession.handler_complete_write hoperation hfound request, ?_, ?_⟩
      · simp
      · simp

end RpcService

namespace RpcWorkers

variable {pool : RpcWorkers}

/-! ## What holds of the groups -/

/-- Whatever the workers have done, the groups other than -1 list live sessions under their
own group and id, and none that is being deleted. -/
structure Tidy (pool : RpcWorkers) : Prop where
  awaits : pool.service.SessionsAwait
  listed : ∀ groupId sessionId session, groupId ≠ -1 →
    pool.service.ListedAt groupId sessionId session →
      ∃ handler, pool.service.handler session = some handler ∧ handler.groupId = groupId ∧
        handler.sessionId = sessionId
  deleting : ∀ worker session, pool.workers worker = .delete session →
    pool.queues[session]? = some worker ∧
      ∀ groupId sessionId, groupId ≠ -1 → ¬ pool.service.ListedAt groupId sessionId session

theorem tidy_init : ({} : RpcWorkers).Tidy where
  awaits := by simp [RpcService.SessionsAwait]
  listed := by simp [RpcService.ListedAt]
  deleting := by simp

/-- A step that lists nothing new, kills nobody and begins no destructor. -/
theorem Tidy.of_keepsHandlers (h : pool.Tidy) {next : RpcWorkers}
    (hsessions : RpcService.KeepsSessions pool.service next.service)
    (hhandlers : RpcService.KeepsHandlers (fun _ => False) pool.service next.service)
    (hlisted : ∀ groupId sessionId session, next.service.ListedAt groupId sessionId session →
      pool.service.ListedAt groupId sessionId session)
    (hqueues : pool.queues <+: next.queues)
    (hworkers : ∀ worker session, next.workers worker = .delete session →
      pool.workers worker = .delete session) : next.Tidy where
  awaits := hsessions.awaits h.awaits
  listed groupId sessionId session hgroup hfound := by
    have hbefore := hlisted groupId sessionId session hfound
    exact hhandlers.exists_handler id (h.listed groupId sessionId session hgroup hbefore)
  deleting worker session hdelete := by
    obtain ⟨hqueue, hunlisted⟩ := h.deleting worker session (hworkers worker session hdelete)
    obtain ⟨more, hmore⟩ := hqueues
    refine ⟨?_, fun groupId sessionId hgroup => ?_⟩
    · rw [← hmore, List.getElem?_append_left (List.getElem?_eq_some_iff.mp hqueue).1, hqueue]
    · exact fun hfound => hunlisted groupId sessionId hgroup (hlisted _ _ _ hfound)

theorem Tidy.key_of_listed (h : pool.Tidy) {session : ℕ} {value : StreamSession}
    {handler : StreamSessionHandler} (hvalue : pool.service.sessions[session]? = some value)
    (hhandler : value.handler = some handler) {groupId : Int32} {sessionId : UInt64}
    (hgroup : groupId ≠ -1) (hlisted : pool.service.ListedAt groupId sessionId session) :
    handler.groupId = groupId ∧ handler.sessionId = sessionId := by
  obtain ⟨found, hfound, hkey⟩ := h.listed groupId sessionId session hgroup hlisted
  rw [RpcService.handler_eq hvalue, hhandler] at hfound
  obtain rfl := Option.some.inj hfound
  exact hkey

/-- What the worker of a queue does with a completion: nothing, since the session is not its own
or it is not in `Next`; `Execute` of the operation; or the destructor, which unregisters the
session and leaves the worker in the state that ends it. -/
theorem complete_cases (pool : RpcWorkers) (session index : ℕ) (bOk : Bool)
    (request : SyncRequest) :
    (∃ calls, pool.complete session index bOk request =
        { pool with service := { pool.service with danglingCalls := calls } }) ∨
      ∃ queue value operation handler, pool.queues[session]? = some queue ∧
        pool.service.sessions[session]? = some value ∧ pool.workers queue = .next ∧
        value.outstanding[index]? = some operation ∧ value.handler = some handler ∧
        ((bOk = true ∧ pool.complete session index bOk request =
            { pool with
              service := pool.service.complete session index true request
              queues := pool.queues ++ if operation = .connect then [queue] else [] }) ∨
          (bOk = false ∧ pool.complete session index bOk request =
            { pool with
              service := (pool.service.setSession session
                { value with outstanding := value.outstanding.eraseIdx index }).destroyed handler
            }.setWorker queue (.delete session))) := by
  unfold complete
  cases hqueue : pool.queues[session]? with
  | none => exact Or.inl ⟨pool.service.danglingCalls, rfl⟩
  | some queue =>
      cases hvalue : pool.service.sessions[session]? with
      | none => exact Or.inl ⟨pool.service.danglingCalls, rfl⟩
      | some value =>
          dsimp only
          cases hworker : pool.workers queue with
          | broadcast _ _ _ => exact Or.inl ⟨pool.service.danglingCalls, rfl⟩
          | delete _ => exact Or.inl ⟨pool.service.danglingCalls, rfl⟩
          | next =>
              cases hoperation : value.outstanding[index]? with
              | none => exact Or.inl ⟨pool.service.danglingCalls, rfl⟩
              | some operation =>
                  cases hhandler : value.handler with
                  | none => exact Or.inl ⟨_, rfl⟩
                  | some handler =>
                      refine Or.inr ⟨queue, value, operation, handler, rfl, rfl, hworker,
                        hoperation, hhandler, ?_⟩
                      cases bOk with
                      | true => exact Or.inl ⟨rfl, rfl⟩
                      | false => exact Or.inr ⟨rfl, by simp [hhandler]⟩

theorem workers_setWorker (worker : ℕ) (state : WorkerState) (other : ℕ) :
    (pool.setWorker worker state).workers other =
      if other = worker then state else pool.workers other :=
  Function.update_apply ..

/-- An operation has completed.  A write changes the queue of one session only; with the connect
the session comes to be listed, under the group and id that its handler has from then on. -/
theorem Tidy.complete_true (h : pool.Tidy) {session index : ℕ} {queue : ℕ} {value : StreamSession}
    {operation : AsyncOperation} {handler : StreamSessionHandler}
    (hqueue : pool.queues[session]? = some queue) (hworker : pool.workers queue = .next)
    (hvalue : pool.service.sessions[session]? = some value)
    (hoperation : value.outstanding[index]? = some operation)
    (hhandler : value.handler = some handler) (request : SyncRequest) (more : List ℕ) :
    ({ pool with
      service := pool.service.complete session index true request
      queues := pool.queues ++ more }).Tidy := by
  have hkeeps := RpcService.keepsSessions_complete pool.service session index true request
  have hhandlers := RpcService.keepsHandlers_complete hvalue hoperation hhandler request
  cases operation with
  | write response =>
      refine h.of_keepsHandlers hkeeps ?_ ?_ (List.prefix_append ..) fun _ _ => id
      · intro other found _ hfound
        exact hhandlers other found (by simp) hfound
      · intro groupId sessionId other hlisted
        have hnext : pool.service.complete session index true request =
            pool.service.setSession session (value.complete index true request) := by
          simp [RpcService.complete, hvalue, hoperation, hhandler]
        dsimp only at hlisted
        rw [hnext] at hlisted
        exact hlisted
  | connect =>
      have hlisted : ∀ groupId sessionId other,
          (pool.service.complete session index true request).ListedAt groupId sessionId other ↔
            if groupId = request.groupId ∧ sessionId = handler.sessionId then other = session
            else pool.service.ListedAt groupId sessionId other :=
        fun _ _ _ => RpcService.listedAt_complete_connect hvalue hoperation hhandler request
      -- nobody is in a group before its client comes
      have hunlisted : ∀ groupId sessionId, groupId ≠ -1 →
          ¬ pool.service.ListedAt groupId sessionId session := by
        intro groupId sessionId hgroup hfound
        have hgroupId := (h.key_of_listed hvalue hhandler hgroup hfound).1
        have hminus := (h.awaits session value hvalue).groupId (List.mem_of_getElem? hoperation)
          handler hhandler
        exact hgroup (hgroupId.symm.trans hminus)
      refine ⟨hkeeps.awaits h.awaits, ?_, ?_⟩
      · intro groupId sessionId other hgroup hfound
        rw [hlisted] at hfound
        split at hfound
        · next hkey =>
            obtain rfl := hfound
            exact ⟨handler.executeConnect request,
              RpcService.handler_complete_connect hvalue hoperation hhandler request,
              hkey.1.symm, hkey.2.symm⟩
        · have hne : other ≠ session := by
            rintro rfl
            exact hunlisted groupId sessionId hgroup hfound
          exact hhandlers.exists_handler (by simp [hne])
            (h.listed groupId sessionId other hgroup hfound)
      · intro worker other hdelete
        obtain ⟨hother, hnone⟩ := h.deleting worker other hdelete
        have hlt := (List.getElem?_eq_some_iff.mp hother).1
        refine ⟨by rw [List.getElem?_append_left hlt, hother], ?_⟩
        intro groupId sessionId hgroup hfound
        rw [hlisted] at hfound
        split at hfound
        · -- the worker of the session is in `Next`
          obtain rfl := hfound
          obtain rfl := Option.some.inj (hqueue.symm.trans hother)
          have hboth : WorkerState.delete other = .next := hdelete.symm.trans hworker
          simp at hboth
        · exact hnone groupId sessionId hgroup hfound

/-- An operation has failed.  The destructor unregisters the session under the group and id of
its handler, and by `key_of_listed` no other entry lists it. -/
theorem Tidy.complete_false (h : pool.Tidy) {session index : ℕ} {queue : ℕ} {value : StreamSession}
    {handler : StreamSessionHandler}
    (hqueue : pool.queues[session]? = some queue)
    (hvalue : pool.service.sessions[session]? = some value)
    (hhandler : value.handler = some handler) :
    ({ pool with
      service := (pool.service.setSession session
        { value with outstanding := value.outstanding.eraseIdx index }).destroyed handler
    }.setWorker queue (.delete session)).Tidy := by
  have hle : (value.outstanding.eraseIdx index).count .connect ≤
      value.outstanding.count .connect :=
    List.Sublist.count_le _ (List.eraseIdx_sublist ..)
  have hset : RpcService.KeepsSessions pool.service (pool.service.setSession session
      { value with outstanding := value.outstanding.eraseIdx index }) := by
    refine RpcService.keepsSessions_setSession hvalue hle fun hawaits => ⟨hle.trans hawaits.once, ?_⟩
    exact fun hconnect => hawaits.groupId (List.mem_of_mem_eraseIdx hconnect)
  have hhandlers : RpcService.KeepsHandlers (fun _ => False) pool.service
      ((pool.service.setSession session
        { value with outstanding := value.outstanding.eraseIdx index }).destroyed handler) := by
    have hfirst : RpcService.KeepsHandlers (fun _ => False) pool.service
        (pool.service.setSession session
          { value with outstanding := value.outstanding.eraseIdx index }) :=
      RpcService.keepsHandlers_setSession _ hvalue fun _ found hfound => ⟨found, hfound, rfl, rfl⟩
    refine hfirst.trans fun other found _ hfound => ?_
    rw [← RpcService.handler_of_sessions_eq (RpcService.sessions_destroyed handler _)] at hfound
    exact ⟨found, hfound, rfl, rfl⟩
  have hlisted : ∀ groupId sessionId other, ((pool.service.setSession session
      { value with outstanding := value.outstanding.eraseIdx index }).destroyed handler).ListedAt
        groupId sessionId other → pool.service.ListedAt groupId sessionId other :=
    fun groupId sessionId other hfound => hfound.of_destroyed
  refine ⟨(hset.trans (RpcService.keepsSessions_destroyed handler _)).awaits h.awaits, ?_, ?_⟩
  · intro groupId sessionId other hgroup hfound
    have hbefore := hlisted groupId sessionId other hfound
    exact hhandlers.exists_handler id (h.listed groupId sessionId other hgroup hbefore)
  · intro worker other hdelete
    rw [workers_setWorker] at hdelete
    split at hdelete
    · next hsame =>
        subst hsame
        obtain rfl : session = other := by simpa using hdelete
        refine ⟨hqueue, fun groupId sessionId hgroup hfound => ?_⟩
        -- the session was listed under its own group and id only, which are unlisted now
        obtain ⟨rfl, rfl⟩ := h.key_of_listed hvalue hhandler hgroup (hlisted _ _ _ hfound)
        simp only [setWorker, RpcService.destroyed, if_pos hgroup] at hfound
        exact (RpcService.listedAt_unregisterSession.mp hfound).1 ⟨rfl, rfl⟩
    · obtain ⟨hother, hnone⟩ := h.deleting worker other hdelete
      exact ⟨hother, fun groupId sessionId hgroup hfound =>
        hnone groupId sessionId hgroup (hlisted _ _ _ hfound)⟩

/-- What the end of a destructor leaves. -/
theorem handler_deleteSession (session : ℕ) (service : RpcService) (other : ℕ) :
    (deleteSession session service).handler other =
      if other = session then none else service.handler other := by
  unfold deleteSession
  cases hvalue : service.sessions[session]? with
  | none =>
      dsimp only
      by_cases hsame : other = session
      · rw [if_pos hsame, hsame, RpcService.handler, hvalue, Option.bind_none]
      · rw [if_neg hsame]
  | some value =>
      exact RpcService.handler_setSession (List.getElem?_eq_some_iff.mp hvalue).1 _ other

/-- The session that is deleted is unlisted. -/
theorem Tidy.delete (h : pool.Tidy) {worker session : ℕ}
    (hdelete : pool.workers worker = .delete session) :
    ({ pool with service := deleteSession session pool.service }.setWorker worker .next).Tidy := by
  have hsame : ∀ groupId sessionId other,
      (deleteSession session pool.service).ListedAt groupId sessionId other →
        pool.service.ListedAt groupId sessionId other := by
    intro groupId sessionId other hfound
    unfold deleteSession at hfound
    split at hfound <;> exact hfound
  have hkeeps : RpcService.KeepsSessions pool.service (deleteSession session pool.service) := by
    unfold deleteSession
    split
    · exact .refl _
    · next value hvalue =>
        refine RpcService.keepsSessions_setSession hvalue le_rfl fun hawaits => ?_
        exact ⟨hawaits.once, fun _ handler hhandler => by simp at hhandler⟩
  refine ⟨hkeeps.awaits h.awaits, ?_, ?_⟩
  · intro groupId sessionId other hgroup hfound
    have hne : other ≠ session := by
      rintro rfl
      exact (h.deleting worker other hdelete).2 groupId sessionId hgroup (hsame _ _ _ hfound)
    obtain ⟨handler, hhandler, hids⟩ :=
      h.listed groupId sessionId other hgroup (hsame _ _ _ hfound)
    refine ⟨handler, ?_, hids⟩
    dsimp only [setWorker]
    rw [handler_deleteSession, if_neg hne, hhandler]
  · intro other target hother
    rw [workers_setWorker] at hother
    split at hother
    · simp at hother
    · obtain ⟨hqueue, hunlisted⟩ := h.deleting other target hother
      exact ⟨hqueue, fun groupId sessionId hgroup hfound =>
        hunlisted groupId sessionId hgroup (hsame _ _ _ hfound)⟩

theorem Tidy.setWorker (h : pool.Tidy) (worker : ℕ) {state : WorkerState}
    (hstate : ∀ session, state ≠ .delete session) : (pool.setWorker worker state).Tidy := by
  refine h.of_keepsHandlers (.refl _) (.refl _ _) (fun _ _ _ => id) List.prefix_rfl ?_
  intro other session hother
  rw [workers_setWorker] at hother
  split at hother
  · exact absurd hother (hstate session)
  · exact hother

theorem Tidy.writeSession (h : pool.Tidy) (packet : BehaviorPacket) (session : ℕ) :
    ({ pool with service := pool.service.writeSession packet session }).Tidy := by
  have hwrites := RpcService.writesEach_writeSession packet pool.service session
  refine h.of_keepsHandlers hwrites.keepsSessions
    (RpcService.keepsHandlers_writeSession _ packet pool.service session) ?_ List.prefix_rfl
    fun _ _ => id
  intro groupId sessionId other ⟨group, hgroup, hfind⟩
  exact ⟨group, hwrites.groups ▸ hgroup, hfind⟩

theorem Tidy.step (h : pool.Tidy) (event : WorkerEvent) : (pool.step event).Tidy := by
  cases event with
  | run queue =>
      exact h.of_keepsHandlers (RpcService.keepsSessions_newSession _)
        (RpcService.keepsHandlers_newSession _ _) (fun _ _ _ => id) (List.prefix_append ..)
        fun _ _ => id
  | complete session index bOk request =>
      rw [RpcWorkers.step]
      rcases pool.complete_cases session index bOk request with
        ⟨calls, hnext⟩ | ⟨queue, value, operation, handler, hqueue, hvalue, hworker, hoperation,
          hhandler, ⟨-, hnext⟩ | ⟨-, hnext⟩⟩
      · rw [hnext]
        exact h.of_keepsHandlers (.of_sessions_eq rfl) (.refl _ _) (fun _ _ _ => id)
          List.prefix_rfl fun _ _ => id
      · rw [hnext]
        exact h.complete_true hqueue hworker hvalue hoperation hhandler request _
      · rw [hnext]
        exact h.complete_false hqueue hvalue hhandler
  | broadcast worker groupId packet order =>
      simp only [RpcWorkers.step, beginBroadcast]
      split
      · exact h.setWorker worker (by simp)
      · exact h
  | advance worker =>
      simp only [RpcWorkers.step, advance]
      split
      · exact h
      · exact h.setWorker worker (by simp)
      · next groupId packet session rest _ =>
          exact (h.writeSession packet session).setWorker worker (by simp)
      · next session hdelete => exact h.delete hdelete

/-! ## What is still to be written -/

/-- The sessions that a broadcast to a group other than -1 has still to write to. -/
def Awaited (pool : RpcWorkers) (session : ℕ) : Prop :=
  ∃ worker groupId packet sessions, pool.workers worker = .broadcast groupId packet sessions ∧
    groupId ≠ -1 ∧ session ∈ sessions

/-- None of them has been destroyed. -/
def TargetsLive (pool : RpcWorkers) : Prop :=
  ∀ session, pool.Awaited session → (pool.service.handler session).isSome = true

/-- A `Write` of a broadcast to a group other than -1 finds its session alive. -/
def WritesLive (pool : RpcWorkers) : WorkerEvent → Prop
  | .advance worker => ∀ groupId packet session rest,
      pool.workers worker = .broadcast groupId packet (session :: rest) → groupId ≠ -1 →
        (pool.service.handler session).isSome = true
  | _ => True

/-- No destructor ends while a broadcast has still to write to its session. -/
def DeletesUnawaited (pool : RpcWorkers) : WorkerEvent → Prop
  | .advance worker => ∀ session, pool.workers worker = .delete session → ¬ pool.Awaited session
  | _ => True

theorem TargetsLive.writesLive (h : pool.TargetsLive) (event : WorkerEvent) :
    pool.WritesLive event := by
  cases event with
  | advance worker =>
      intro groupId packet session rest hworker hgroup
      exact h session ⟨worker, groupId, packet, _, hworker, hgroup, List.mem_cons_self ..⟩
  | _ => trivial

theorem broadcast_of_setWorker {worker other : ℕ} {state : WorkerState} {groupId : Int32}
    {packet : BehaviorPacket} {sessions : List ℕ}
    (hstate : state ≠ .broadcast groupId packet sessions)
    (h : (pool.setWorker other state).workers worker = .broadcast groupId packet sessions) :
    pool.workers worker = .broadcast groupId packet sessions := by
  rw [workers_setWorker] at h
  split at h
  · exact absurd h hstate
  · exact h

/-- What is still to be written was so before the step, or a group lists it: only the snapshot
of a broadcast adds to what is awaited, and it takes what the group lists. -/
theorem awaited_step {event : WorkerEvent} {session : ℕ}
    (hawaited : (pool.step event).Awaited session) :
    pool.Awaited session ∨
      ∃ groupId sessionId, groupId ≠ -1 ∧ pool.service.ListedAt groupId sessionId session := by
  obtain ⟨worker, groupId, packet, sessions, hworker, hgroup, hmem⟩ := hawaited
  have hsame : pool.workers worker = .broadcast groupId packet sessions → pool.Awaited session :=
    fun hbefore => ⟨worker, groupId, packet, sessions, hbefore, hgroup, hmem⟩
  cases event with
  | run queue => exact Or.inl (hsame hworker)
  | complete target index bOk request =>
      rw [RpcWorkers.step] at hworker
      rcases pool.complete_cases target index bOk request with
        ⟨calls, hnext⟩ | ⟨queue, value, operation, handler, -, -, -, -, -, ⟨-, hnext⟩ | ⟨-, hnext⟩⟩
      · rw [hnext] at hworker
        exact Or.inl (hsame hworker)
      · rw [hnext] at hworker
        exact Or.inl (hsame hworker)
      · rw [hnext] at hworker
        exact Or.inl (hsame (broadcast_of_setWorker (by simp) hworker))
  | broadcast other group content order =>
      simp only [RpcWorkers.step, beginBroadcast] at hworker
      split at hworker
      · rw [workers_setWorker] at hworker
        split at hworker
        · obtain ⟨rfl, rfl, rfl⟩ : group = groupId ∧ content = packet ∧ _ = sessions := by
            simpa using hworker
          obtain ⟨sessionId, hlisted⟩ := RpcService.mem_snapshot.mp hmem
          exact Or.inr ⟨group, sessionId, hgroup, hlisted⟩
        · exact Or.inl (hsame hworker)
      · exact Or.inl (hsame hworker)
  | advance other =>
      simp only [RpcWorkers.step, advance] at hworker
      split at hworker
      · exact Or.inl (hsame hworker)
      · exact Or.inl (hsame (broadcast_of_setWorker (by simp) hworker))
      · next group content target rest hbefore =>
          rw [workers_setWorker] at hworker
          split at hworker
          · next heq =>
              obtain ⟨rfl, rfl, rfl⟩ : group = groupId ∧ content = packet ∧ rest = sessions := by
                simpa using hworker
              exact Or.inl ⟨other, group, content, _, hbefore, hgroup,
                List.mem_cons_of_mem _ hmem⟩
          · exact Or.inl (hsame hworker)
      · exact Or.inl (hsame (broadcast_of_setWorker (by simp) hworker))

/-- A step leaves alive whom no destructor has ended with: the only step that takes a handler
away is the second half of a destructor. -/
theorem live_step {event : WorkerEvent} {session : ℕ}
    (hlive : (pool.service.handler session).isSome = true)
    (hkept : ∀ worker, event = .advance worker → pool.workers worker ≠ .delete session) :
    ((pool.step event).service.handler session).isSome = true := by
  cases event with
  | run queue =>
      exact (RpcService.keepsHandlers_newSession (fun _ => False) pool.service).isSome id hlive
  | complete target index bOk request =>
      rw [RpcWorkers.step]
      rcases pool.complete_cases target index bOk request with
        ⟨calls, hnext⟩ | ⟨queue, value, operation, found, -, hvalue, -, hoperation, hfound,
          ⟨-, hnext⟩ | ⟨-, hnext⟩⟩
      · rw [hnext]
        exact hlive
      · rw [hnext]
        dsimp only
        by_cases hclient : session = target ∧ operation = .connect
        · obtain ⟨rfl, rfl⟩ := hclient
          rw [RpcService.handler_complete_connect hvalue hoperation hfound]
          rfl
        · exact (RpcService.keepsHandlers_complete hvalue hoperation hfound request).isSome hclient
            hlive
      · rw [hnext]
        dsimp only [RpcWorkers.setWorker]
        rw [RpcService.handler_of_sessions_eq (RpcService.sessions_destroyed found _),
          RpcService.handler_setSession (List.getElem?_eq_some_iff.mp hvalue).1]
        split
        · rw [hfound]
          rfl
        · exact hlive
  | broadcast worker groupId packet order =>
      simp only [RpcWorkers.step, beginBroadcast]
      split <;> exact hlive
  | advance worker =>
      have hnot := hkept worker rfl
      simp only [RpcWorkers.step, advance]
      split
      · exact hlive
      · exact hlive
      · next groupId packet target rest _ =>
          have hkeeps := RpcService.keepsHandlers_writeSession (fun _ => False) packet pool.service
            target
          exact hkeeps.isSome id hlive
      · next target hdelete =>
          have hne : session ≠ target := by
            rintro rfl
            exact hnot hdelete
          dsimp only [RpcWorkers.setWorker]
          rw [handler_deleteSession, if_neg hne]
          exact hlive

/-- A destructor that ends while a broadcast has still to write to its session leaves a
destroyed session behind that is still to be written to. -/
theorem awaited_of_delete {worker session : ℕ} (hdelete : pool.workers worker = .delete session)
    (hawaited : pool.Awaited session) :
    (pool.step (.advance worker)).Awaited session ∧
      (pool.step (.advance worker)).service.handler session = none := by
  have hadvance : pool.step (.advance worker) =
      { pool with service := deleteSession session pool.service }.setWorker worker .next := by
    simp only [RpcWorkers.step, advance, hdelete]
  rw [hadvance]
  constructor
  · obtain ⟨other, groupId, packet, sessions, hother, hgroup, hmem⟩ := hawaited
    refine ⟨other, groupId, packet, sessions, ?_, hgroup, hmem⟩
    rw [workers_setWorker, if_neg]
    · exact hother
    · rintro rfl
      rw [hdelete] at hother
      simp at hother
  · show (deleteSession session pool.service).handler session = none
    rw [handler_deleteSession, if_pos rfl]

/-- One step keeps the targets of the broadcasts alive exactly when it ends no destructor of
one of them. -/
theorem Tidy.targetsLive_step_iff (h : pool.Tidy) (hlive : pool.TargetsLive)
    (event : WorkerEvent) : (pool.step event).TargetsLive ↔ pool.DeletesUnawaited event := by
  constructor
  · intro hnext
    cases event with
    -- a destructor that ends with a session still awaited would leave it dead
    | advance worker =>
        intro session hdelete hawaited
        obtain ⟨hstill, hdead⟩ := awaited_of_delete hdelete hawaited
        have hlives := hnext session hstill
        rw [hdead] at hlives
        simp at hlives
    | _ => trivial
  · intro hsafe session hawaited
    -- alive before the step, as a target or as a member of its group
    have hbefore : (pool.service.handler session).isSome = true := by
      rcases awaited_step hawaited with hwaited | ⟨groupId, sessionId, hgroup, hlisted⟩
      · exact hlive session hwaited
      · obtain ⟨handler, hhandler, -⟩ := h.listed groupId sessionId session hgroup hlisted
        exact Option.isSome_iff_exists.mpr ⟨handler, hhandler⟩
    apply live_step hbefore
    rintro worker rfl hdelete
    rcases awaited_step hawaited with hwaited | ⟨groupId, sessionId, hgroup, hlisted⟩
    · exact hsafe session hdelete hwaited
    · exact (h.deleting worker session hdelete).2 groupId sessionId hgroup hlisted

/-- **When broadcasts are safe.**  In every run of the workers, whatever the order of their
steps, no session that a broadcast to a group other than -1 has still to write to is ever
destroyed, and every such `Write` finds its session alive, exactly when no destructor ends
while a broadcast has still to write to its session. -/
theorem broadcast_targets_live_iff (events : List WorkerEvent) :
    (HoldsThroughout step {} TargetsLive events ∧ EveryStep step {} WritesLive events) ↔
      EveryStep step {} DeletesUnawaited events := by
  have hinit : ({} : RpcWorkers).TargetsLive := by
    rintro session ⟨worker, groupId, packet, sessions, hworker, -⟩
    simp at hworker
  have hlives : HoldsThroughout step {} TargetsLive events ↔
      EveryStep step {} DeletesUnawaited events := by
    rw [holdsThroughout_iff hinit]
    apply everyStep_iff_of_invariant (P := fun pool : RpcWorkers => pool.Tidy ∧ pool.TargetsLive)
    · exact ⟨tidy_init, hinit⟩
    · exact fun pool event h hnext => ⟨h.1.step event, hnext⟩
    · exact fun pool event h => h.1.targetsLive_step_iff h.2 event
  constructor
  · intro h
    exact hlives.mp h.1
  · intro hsafe
    have hthroughout := hlives.mpr hsafe
    refine ⟨hthroughout, fun before event after hevents => ?_⟩
    exact (hthroughout before ⟨event :: after, hevents.symm⟩).writesLive event

/-- A worker that goes on comes to every destroyed session that it has still to write to. -/
theorem reaches_destroyed {worker session : ℕ} {groupId : Int32} {packet : BehaviorPacket}
    {sessions : List ℕ} (hworker : pool.workers worker = .broadcast groupId packet sessions)
    (hmem : session ∈ sessions) (hdead : pool.service.handler session = none) :
    ∃ n rest, (run step pool (List.replicate n (.advance worker))).workers worker =
        .broadcast groupId packet (session :: rest) ∧
      (run step pool (List.replicate n (.advance worker))).service.handler session = none := by
  induction sessions generalizing pool with
  | nil => simp at hmem
  | cons target rest ih =>
      by_cases hsession : session = target
      · subst hsession
        exact ⟨0, rest, hworker, hdead⟩
      · have hadvance : pool.step (.advance worker) =
            { pool with service := pool.service.writeSession packet target }.setWorker worker
              (.broadcast groupId packet rest) := by
          simp only [RpcWorkers.step, advance, hworker]
        have hnext : (pool.step (.advance worker)).workers worker =
            .broadcast groupId packet rest := by
          rw [hadvance, workers_setWorker, if_pos rfl]
        have hstill : (pool.step (.advance worker)).service.handler session = none := by
          rw [hadvance]
          exact RpcService.handler_writeSession_eq_none packet target hdead
        obtain ⟨n, later, hreaches, hafter⟩ :=
          ih hnext ((List.mem_cons.mp hmem).resolve_left hsession) hstill
        exact ⟨n + 1, later, hreaches, hafter⟩

/-- The condition is not too strong: where a run breaks it, the broadcast only has to go on
to write to the destroyed session. -/
theorem writes_to_destroyed_of_delete {events : List WorkerEvent}
    (h : ¬ EveryStep step {} DeletesUnawaited events) :
    ∃ before worker n, before <+: events ∧
      ¬ EveryStep step {} WritesLive (before ++ List.replicate n (.advance worker)) := by
  simp only [EveryStep, Historically, not_forall] at h
  obtain ⟨before, event, after, rfl, hbreaks⟩ := h
  cases event with
  | advance worker =>
      simp only [DeletesUnawaited, not_forall, not_not] at hbreaks
      obtain ⟨session, hdelete, hawaited⟩ := hbreaks
      obtain ⟨⟨other, groupId, packet, sessions, hother, hgroup, hmem⟩, hdead⟩ :=
        awaited_of_delete hdelete hawaited
      have hnext : run step ({} : RpcWorkers) (before ++ [.advance worker]) =
          (run step {} before).step (.advance worker) := run_concat before _
      rw [← hnext] at hother hdead
      obtain ⟨n, rest, hreaches, hstill⟩ := reaches_destroyed hother hmem hdead
      refine ⟨before ++ [.advance worker], other, n + 1, ⟨after, by simp⟩, ?_⟩
      intro hwrites
      rw [List.replicate_succ', ← List.append_assoc, everyStep_concat, run_append] at hwrites
      have hlive := hwrites.2 groupId packet session rest hreaches hgroup
      rw [hstill] at hlive
      simp at hlive
  | _ => exact absurd trivial hbreaks

/-- Two clients open sessions for group 5 on two queues.  While the first worker broadcasts,
the write to the second session fails, and the second worker deletes it. -/
def deletedInBetween : List WorkerEvent :=
  [.run 0, .run 1, .complete 0 0 true { groupId := 5 }, .complete 1 0 true { groupId := 5 },
    .broadcast 0 5 {} .asStored, .advance 0, .advance 0, .advance 0,
    .broadcast 0 5 {} .asStored, .advance 0, .complete 1 0 false {}, .advance 1]

/-- The next `Write` of the broadcast is to a destroyed session. -/
theorem broadcast_writes_to_destroyed :
    ¬ EveryStep step {} WritesLive (deletedInBetween ++ [.advance 0]) := by
  intro h
  have hworker : (run step {} deletedInBetween).workers 0 = .broadcast 5 {} [1] := by
    decide +kernel
  have hdead : (run step {} deletedInBetween).service.handler 1 = none := by
    decide +kernel
  have hlive := h deletedInBetween (.advance 0) [] rfl 5 {} 1 [] hworker (by decide)
  rw [hdead] at hlive
  simp at hlive

end RpcWorkers

end HktBase.Grpc
