import HktBase.Grpc.Workers

/-!
# One worker

With a single completion queue there is a single worker, and nobody takes a step while it is
in the loop of a broadcast or in a destructor.  Its steps under one lock each then come to the
same as a run in which every `Proceed` is one step, with the whole broadcast or the whole
destructor in it (`Service.lean`).

## Strategy

The simulation function is `settled`: the service as it will be once the worker has finished
what it is doing.  Going on with a broadcast or ending a destructor leaves it as it is, and
where the worker waits in `Next` it is the service itself.  `atomically` says which step of the
service the start of a broadcast or a completion is; `settled_step` goes through the steps of
the worker, and `one_worker_is_atomic` follows by induction on the run.

That the worker is the only one is used in one place: a completion is processed by the worker
of the session's queue, which is therefore the one whose state is looked at (`Alone`).
-/

namespace HktBase.Grpc

open Transition

namespace RpcWorkers

/-- What the worker of one queue does after `Run`. -/
def OfWorker (worker : ℕ) : WorkerEvent → Prop
  | .run _ => False
  | .complete _ _ _ _ => True
  | .broadcast other _ _ _ => other = worker
  | .advance other => other = worker

instance (worker : ℕ) : DecidablePred (OfWorker worker)
  | .run _ => inferInstanceAs (Decidable False)
  | .complete _ _ _ _ => inferInstanceAs (Decidable True)
  | .broadcast other _ _ _ => inferInstanceAs (Decidable (other = worker))
  | .advance other => inferInstanceAs (Decidable (other = worker))

/-- Every session is on the queue of the worker. -/
def Alone (worker : ℕ) (pool : RpcWorkers) : Prop :=
  pool.queues = List.replicate pool.service.sessions.length worker

/-- The service once the worker has finished what it is doing. -/
def settled (worker : ℕ) (pool : RpcWorkers) : RpcService :=
  match pool.workers worker with
  | .next => pool.service
  | .broadcast _ packet sessions =>
      sessions.foldl (RpcService.writeSession packet) pool.service
  | .delete session => deleteSession session pool.service

/-- The step of the service that a step of the worker begins. -/
def atomically (worker : ℕ) (pool : RpcWorkers) : WorkerEvent → Option ServiceEvent
  | .run _ => none
  | .complete session index bOk request =>
      if pool.workers worker = .next then some (.complete session index bOk request) else none
  | .broadcast _ groupId packet order =>
      if pool.workers worker = .next then some (.broadcast groupId packet order) else none
  | .advance _ => none

section

variable {worker : ℕ} {pool : RpcWorkers}

theorem settled_of_next (h : pool.workers worker = .next) :
    pool.settled worker = pool.service := by
  rw [settled, h]

/-- The destructor ends a session that has failed. -/
theorem deleteSession_destroyed {service : RpcService} {session index : ℕ}
    {value : StreamSession} {operation : AsyncOperation} {handler : StreamSessionHandler}
    (hvalue : service.sessions[session]? = some value)
    (hoperation : value.outstanding[index]? = some operation)
    (hhandler : value.handler = some handler) (request : SyncRequest) :
    deleteSession session ((service.setSession session
        { value with outstanding := value.outstanding.eraseIdx index }).destroyed handler) =
      service.complete session index false request := by
  have hlt : session < service.sessions.length := (List.getElem?_eq_some_iff.mp hvalue).1
  have hfailed : value.complete index false request =
      { value with outstanding := value.outstanding.eraseIdx index, handler := none } := by
    simp [StreamSession.complete, hoperation, StreamSession.proceed, hhandler]
  have hcomplete : service.complete session index false request =
      (service.setSession session (value.complete index false request)).destroyed handler := by
    simp [RpcService.complete, hvalue, hoperation, hhandler]
  -- unregistering changes the groups only
  have hcomm : ∀ (base : RpcService) (next : StreamSession),
      (base.destroyed handler).setSession session next =
        (base.setSession session next).destroyed handler := by
    intro base next
    unfold RpcService.destroyed
    split <;> rfl
  have hfound : ((service.setSession session
      { value with outstanding := value.outstanding.eraseIdx index }).destroyed
        handler).sessions[session]? =
      some { value with outstanding := value.outstanding.eraseIdx index } := by
    rw [RpcService.sessions_destroyed]
    exact List.getElem?_set_self hlt
  rw [hcomplete, hfailed, deleteSession, hfound]
  dsimp only
  rw [hcomm]
  simp [RpcService.setSession]

/-- A completion is for the worker, and is processed at once or not yet. -/
theorem settled_complete (h : pool.Alone worker) (session index : ℕ) (bOk : Bool)
    (request : SyncRequest) :
    (pool.complete session index bOk request).settled worker =
      run RpcService.step (pool.settled worker)
        (pool.atomically worker (.complete session index bOk request)).toList := by
  rw [atomically]
  cases hvalue : pool.service.sessions[session]? with
  | none =>
      have hqueue : pool.queues[session]? = none := by
        rw [h, List.getElem?_eq_none]
        simpa using List.getElem?_eq_none_iff.mp hvalue
      have hsame : pool.complete session index bOk request = pool := by
        rw [complete, hqueue]
      rw [hsame]
      split
      · next hnext => simp [settled_of_next hnext, run, RpcService.step, RpcService.complete, hvalue]
      · rfl
  | some value =>
      -- every session is on the queue of the only worker
      have hqueue : pool.queues[session]? = some worker := by
        rw [h, List.getElem?_replicate, if_pos (List.getElem?_eq_some_iff.mp hvalue).1]
      cases hworker : pool.workers worker with
      | broadcast groupId packet sessions => simp [complete, hqueue, hvalue, hworker]
      | delete other => simp [complete, hqueue, hvalue, hworker]
      | next =>
          rw [if_pos rfl, settled_of_next hworker]
          show _ = pool.service.complete session index bOk request
          cases hoperation : value.outstanding[index]? with
          | none =>
              simp [complete, hqueue, hvalue, hworker, hoperation, settled, RpcService.complete]
          | some operation =>
              cases hhandler : value.handler with
              | none =>
                  simp [complete, hqueue, hvalue, hworker, hoperation, hhandler, settled,
                    RpcService.complete]
              | some handler =>
                  cases bOk with
                  | true =>
                      simp [complete, hqueue, hvalue, hworker, hoperation, hhandler, settled]
                  | false =>
                      -- the destructor has begun, and will have ended when the worker is in `Next`
                      rw [← deleteSession_destroyed hvalue hoperation hhandler request]
                      simp [complete, hqueue, hvalue, hworker, hoperation, hhandler, settled,
                        setWorker]

/-- What a step of the worker begins, it will have done. -/
theorem settled_step (h : pool.Alone worker) {event : WorkerEvent} (hevent : OfWorker worker event) :
    (pool.step event).settled worker =
      run RpcService.step (pool.settled worker) (pool.atomically worker event).toList := by
  cases event with
  | run queue => exact hevent.elim
  | complete session index bOk request => exact settled_complete h session index bOk request
  | broadcast other groupId packet order =>
      obtain rfl : other = worker := hevent
      rw [RpcWorkers.step, beginBroadcast, atomically]
      cases hworker : pool.workers other with
      | next =>
          rw [settled_of_next hworker]
          show _ = pool.service.broadcastToGroup groupId packet order
          simp [settled, setWorker, RpcService.broadcastToGroup_eq]
      | broadcast _ _ _ => rfl
      | delete _ => rfl
  | advance other =>
      obtain rfl : other = worker := hevent
      rw [RpcWorkers.step, advance, atomically]
      cases hworker : pool.workers other with
      | next => rfl
      | broadcast groupId packet sessions =>
          cases sessions with
          | nil => simp [settled, setWorker, hworker]
          | cons session rest => simp [settled, setWorker, hworker]
      | delete session => simp [settled, setWorker, hworker]

theorem length_sessions_writeSession (packet : BehaviorPacket) (service : RpcService)
    (session : ℕ) :
    (service.writeSession packet session).sessions.length = service.sessions.length := by
  unfold RpcService.writeSession
  split
  · rfl
  · split
    · exact List.length_set
    · rfl

theorem length_sessions_deleteSession (session : ℕ) (service : RpcService) :
    (deleteSession session service).sessions.length = service.sessions.length := by
  unfold deleteSession
  split
  · rfl
  · exact List.length_set

/-- A successor is on the queue of the session that it follows. -/
theorem Alone.step (h : pool.Alone worker) {event : WorkerEvent} (hevent : OfWorker worker event) :
    (pool.step event).Alone worker := by
  cases event with
  | run queue => exact hevent.elim
  | complete session index bOk request =>
      rw [RpcWorkers.step]
      rcases pool.complete_cases session index bOk request with
        ⟨calls, hnext⟩ | ⟨queue, value, operation, handler, hqueue, hvalue, hworker, hoperation,
          hhandler, ⟨-, hnext⟩ | ⟨-, hnext⟩⟩
      · rw [hnext]
        exact h
      · have hsame : queue = worker := by
          rw [h] at hqueue
          exact List.eq_of_mem_replicate (List.mem_of_getElem? hqueue)
        rw [hnext, Alone, h, hsame]
        cases operation with
        | connect =>
            rw [RpcService.complete_connect hvalue hoperation hhandler, if_pos rfl]
            simp [RpcService.registerSession, RpcService.newSession, RpcService.setSession,
              List.replicate_succ']
        | write response =>
            rw [RpcService.complete_write hvalue hoperation hhandler, if_neg (by simp)]
            simp [RpcService.setSession]
      · rw [hnext, Alone]
        simpa [setWorker, RpcService.sessions_destroyed, RpcService.setSession, Alone] using h
  | broadcast other groupId packet order =>
      rw [RpcWorkers.step, beginBroadcast]
      split
      · exact h
      · exact h
  | advance other =>
      rw [RpcWorkers.step, advance]
      split
      · exact h
      · exact h
      · simpa [Alone, setWorker, length_sessions_writeSession] using h
      · simpa [Alone, setWorker, length_sessions_deleteSession] using h

end

/-- What `Run` makes of a service with one queue. -/
def started (worker : ℕ) : RpcWorkers := ({} : RpcWorkers).runQueue worker

/-- **One worker is atomic.**  With one completion queue, whenever the worker waits in `Next`,
the sessions and the groups are those of the run in which it has made each `Proceed` in one
step. -/
theorem one_worker_is_atomic (worker : ℕ) {events : List WorkerEvent}
    (hevents : ∀ event ∈ events, OfWorker worker event)
    (hnext : (run step (started worker) events).workers worker = .next) :
    (run step (started worker) events).service =
      run RpcService.step ({} : RpcService)
        (.run :: observed step (atomically worker) (started worker) events) := by
  have hrun : (run step (started worker) events).Alone worker ∧
      (run step (started worker) events).settled worker =
        run RpcService.step (({} : RpcService).newSession)
          (observed step (atomically worker) (started worker) events) := by
    clear hnext
    induction events using List.reverseRecOn with
    | nil => exact ⟨rfl, rfl⟩
    | append_singleton before event ih =>
        obtain ⟨halone, hsettled⟩ := ih fun other hother =>
          hevents other (List.mem_append_left _ hother)
        have hevent := hevents event (by simp)
        rw [run_concat, observed_concat, run_append, ← hsettled]
        exact ⟨halone.step hevent, settled_step halone hevent⟩
  rw [← settled_of_next hnext]
  exact hrun.2

/-- Two clients join a group, a behavior is broadcast, and a client leaves. -/
def oneQueue : List WorkerEvent :=
  [.complete 0 0 true ⟨7, 5⟩, .complete 1 0 true ⟨8, 5⟩,
    .broadcast 0 5 { behaviorId := 1 } .asStored, .advance 0, .complete 1 0 true {}, .advance 0,
    .advance 0, .complete 1 0 false {}, .advance 0]

theorem one_worker_is_atomic_oneQueue :
    (run step (started 0) oneQueue).service =
      run RpcService.step ({} : RpcService)
        (.run :: observed step (atomically 0) (started 0) oneQueue) :=
  one_worker_is_atomic 0 (by decide +kernel) (by decide +kernel)

end RpcWorkers

end HktBase.Grpc
