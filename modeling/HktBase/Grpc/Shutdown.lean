import HktBase.Library.Workload
import HktBase.Grpc.GroupLog

/-!
# Accepting and shutting down

The handlers and sessions live on the operations that the library owes them.  While the
service runs, every completion queue keeps one handler that waits for a request and one
session that waits for a client, since each of them creates its successor before it serves:
`every_queue_accepts`.

At the shutdown the library tells every operation that is left that it has failed.  This
deletes the handlers, and the sessions that wait for something.  A session with nothing to
write waits for nothing, so that nobody tells it: it is never destroyed and stays in its
group (`shutdown_drains`).

A call through a pointer to a session that has been destroyed is recorded in `danglingCalls` and
does nothing else.  What follows is about runs in which the memory of such a session is not used
for anything that matters; which runs make such calls at all is the subject of
`broadcast_targets_live_iff`.

## Strategy

* `accepts_step` follows the two kinds of accepting operations through one event of the server,
  and `every_queue_accepts` counts them over a run;
* `owed` is the workload of the library, and `Fails` the events of a shutdown; each of them takes
  one operation off it (`following_fails_run`);
* `Drains` says what becomes of one session, and `drained` what is left when nothing is owed.
-/

namespace HktBase.Grpc

open Transition Workload

namespace RpcService

variable {service : RpcService} {session index : ℕ} {value : StreamSession}
  {handler : StreamSessionHandler}

theorem complete_of_none
    (hnone : (service.sessions[session]?.bind fun value => value.outstanding[index]?) = none)
    (bOk : Bool) (request : SyncRequest) : service.complete session index bOk request = service := by
  unfold complete
  cases hvalue : service.sessions[session]? with
  | none => rfl
  | some value =>
      rw [hvalue, Option.bind_some] at hnone
      simp only [hnone]

theorem complete_false {operation : AsyncOperation}
    (hvalue : service.sessions[session]? = some value)
    (hoperation : value.outstanding[index]? = some operation)
    (hhandler : value.handler = some handler) (request : SyncRequest) :
    service.complete session index false request =
      (service.setSession session (value.complete index false request)).destroyed handler := by
  simp [complete, hvalue, hoperation, hhandler]

/-- A broadcast changes nothing that `Write` does not change. -/
theorem WritesEach.map_eq {α : Type*} {f : StreamSession → α} {packet : BehaviorPacket}
    (hf : ∀ session, f (session.write packet) = f session) {targets : List ℕ}
    {before after : RpcService} (h : WritesEach packet targets before after) :
    after.sessions.map f = before.sessions.map f := by
  refine List.ext_getElem? fun session => ?_
  rw [List.getElem?_map, List.getElem?_map, h.sessions]
  split
  · rw [Option.map_map]
    exact congrArg (Option.map · _) (funext hf)
  · rfl

end RpcService

namespace RpcServer

variable {joins : List Join} {server : RpcServer}

theorem Phase.exists_handler {session index : ℕ} {value : StreamSession}
    (h : Phase joins server session value) {operation : AsyncOperation}
    (hoperation : value.outstanding[index]? = some operation) :
    ∃ handler, value.handler = some handler := by
  cases h with
  | waiting => exact ⟨_, rfl⟩
  | refused _ _ houtstanding => simp [houtstanding] at hoperation
  | live _ _ _ hhandler => exact ⟨_, hhandler⟩
  | left _ _ _ _ _ houtstanding => simp [houtstanding] at hoperation

/-! ## Accepting -/

/-- The handlers that wait for a request. -/
def requestsAwaited (server : RpcServer) : ℕ :=
  (server.unaryCalls.map fun call => call.outstanding.count .request).sum

/-- The sessions that wait for a client. -/
def clientsAwaited (server : RpcServer) : ℕ :=
  (server.service.sessions.map fun session => session.outstanding.count .connect).sum

/-- A completion queue is opened. -/
def opensQueue (_server : RpcServer) : RpcEvent → Option Unit
  | .run => some ()
  | _ => none

/-- A handler is told that there will be no request. -/
def requestFails (server : RpcServer) : RpcEvent → Option ℕ
  | .completeUnary call index bOk =>
      if server.unaryOperation call index = some .request ∧ bOk = false then some call else none
  | _ => none

/-- A session is told that no client will come. -/
def clientFails (server : RpcServer) : RpcEvent → Option ℕ
  | .completeSession session index bOk =>
      if server.operation session index = some .connect ∧ bOk = false then some session else none
  | _ => none

theorem requestsAwaited_newUnaryCall (server : RpcServer) :
    server.newUnaryCall.requestsAwaited = server.requestsAwaited + 1 := by
  simp [requestsAwaited, newUnaryCall]

/-- What the only operation of a handler leaves behind: a handler that has its request and
serves it, or one that is deleted. -/
theorem HandlersInPhase.completes (h : server.HandlersInPhase) {call index : ℕ}
    {operation : UnaryOperation} (hoperation : server.unaryOperation call index = some operation)
    (bOk : Bool) (request : BehaviorRequest) (order : VisitOrder UInt64 ℕ) :
    ∃ value after, server.unaryCalls[call]? = some value ∧ value.outstanding = [operation] ∧
      after.outstanding = [] ∧
      (((operation = .request ∧ bOk = true) ∧ ∃ handler,
          server.completeUnary call index bOk request order =
            server.processRequest call after handler order) ∨
        (¬ (operation = .request ∧ bOk = true) ∧
          server.completeUnary call index bOk request order =
            server.deleteUnaryCall call after)) := by
  obtain ⟨value, hvalue, hfound⟩ := Option.bind_eq_some_iff.mp hoperation
  have hphase := h call value hvalue
  unfold UnaryCall.InPhase at hphase
  cases hhandler : value.handler with
  | none =>
      rw [hhandler] at hphase
      rw [hphase] at hfound
      simp at hfound
  | some handler =>
      rw [hhandler] at hphase
      rcases hphase with ⟨hstatus, houtstanding⟩ | ⟨hstatus, houtstanding⟩
      · rw [houtstanding] at hfound
        obtain ⟨rfl, rfl⟩ := eq_of_getElem?_singleton hfound
        refine ⟨value, { handler := some { handler with request := request } }, hvalue, houtstanding,
          rfl, ?_⟩
        -- a request, which is processed if it has come, and dropped otherwise
        cases bOk with
        | true =>
            exact Or.inl ⟨⟨rfl, rfl⟩, _,
              completeUnary_request hvalue hhandler hstatus houtstanding request order⟩
        | false =>
            refine Or.inr ⟨fun hboth => absurd hboth.2 (by decide), ?_⟩
            simp [RpcServer.completeUnary, hvalue, houtstanding, hhandler, proceed]
      · rw [houtstanding] at hfound
        obtain ⟨rfl, rfl⟩ := eq_of_getElem?_singleton hfound
        exact ⟨value, { value with outstanding := [] }, hvalue, houtstanding, rfl,
          Or.inr ⟨by simp, completeUnary_finish hvalue hhandler hstatus houtstanding bOk request
            order⟩⟩

/-- A completion leaves one handler waiting for another, unless it fails: `Proceed` creates the
next handler before it serves the request, and a failed one creates none. -/
theorem requestsAwaited_completeUnary (h : server.HandlersInPhase) {call index : ℕ}
    {operation : UnaryOperation} (hoperation : server.unaryOperation call index = some operation)
    (bOk : Bool) (request : BehaviorRequest) (order : VisitOrder UInt64 ℕ) :
    (server.completeUnary call index bOk request order).requestsAwaited +
        (if operation = .request ∧ bOk = false then 1 else 0) =
      server.requestsAwaited := by
  obtain ⟨value, after, hvalue, houtstanding, hafter, hcases⟩ :=
    h.completes hoperation bOk request order
  rcases hcases with ⟨⟨rfl, rfl⟩, handler, hnext⟩ | ⟨hother, hnext⟩
  · -- the successor waits in its place
    rw [hnext, if_neg (by simp), Nat.add_zero]
    have hfound : server.newUnaryCall.unaryCalls[call]? = some value := by
      rw [newUnaryCall, List.getElem?_append_left (List.getElem?_eq_some_iff.mp hvalue).1, hvalue]
    have hsum : ∀ next : UnaryCall, next.outstanding = [.finish] →
        ((server.newUnaryCall.unaryCalls.set call next).map
          fun call => call.outstanding.count .request).sum + 1 = server.requestsAwaited + 1 := by
      intro next hnext
      have hreplaced := sum_map_set (fun call : UnaryCall => call.outstanding.count .request)
        hfound next
      rw [houtstanding, hnext] at hreplaced
      rw [← requestsAwaited_newUnaryCall]
      exact hreplaced
    apply Nat.add_right_cancel
    apply hsum
    rw [hafter]
    rfl
  -- the handler is deleted, without a successor
  · rw [hnext]
    have hsum : ∀ next : UnaryCall, next.outstanding = [] →
        ((server.unaryCalls.set call next).map fun call => call.outstanding.count .request).sum +
          [operation].count .request = server.requestsAwaited := by
      intro next hnext
      have hreplaced := sum_map_set (fun call : UnaryCall => call.outstanding.count .request)
        hvalue next
      rwa [houtstanding, hnext] at hreplaced
    have hdeleted := hsum { after with handler := none } hafter
    cases operation with
    | request =>
        have hfails : bOk = false := by
          cases bOk with
          | false => rfl
          | true => exact absurd ⟨rfl, rfl⟩ hother
        rw [if_pos ⟨rfl, hfails⟩]
        exact hdeleted
    | finish =>
        rw [if_neg (by simp)]
        exact hdeleted

/-- The requests touch no session that waits for a client. -/
theorem clientsAwaited_completeUnary (h : server.Registered) (call index : ℕ) (bOk : Bool)
    (request : BehaviorRequest) (order : VisitOrder UInt64 ℕ) :
    (server.completeUnary call index bOk request order).clientsAwaited =
      server.clientsAwaited := by
  rcases h.handlers.completeUnary_cases call index bOk request order with
    ⟨-, hsame⟩ | ⟨value, -, hnext, -⟩ | ⟨value, handler, -, -, -, hnext⟩
  · rw [hsame]
  · rw [hnext]
    rfl
  · rw [hnext]
    have hwrites := h.writesEach handler.request.groupId (server.nextPacket handler.request) order
    exact congrArg List.sum (hwrites.map_eq fun session =>
      StreamSession.count_connect_write _ session)

theorem Following.clientsAwaited_syncGroup (h : Following joins server) {session index : ℕ}
    (hconnect : server.operation session index = some .connect) (playerId groupId : Int64) :
    (server.step (.syncGroup session index playerId groupId)).clientsAwaited =
      server.clientsAwaited := by
  obtain ⟨value, hvalue, hoperation⟩ := Option.bind_eq_some_iff.mp hconnect
  obtain ⟨rfl, rfl, -⟩ := (h.phases session value hvalue).waiting_of_connect hoperation
  have hnext := RpcService.complete_connect hvalue hoperation rfl
    (StreamCall.syncGroup playerId groupId).request
  have hreplaced := sum_map_set
    (fun session : StreamSession => session.outstanding.count .connect) hvalue
    (.connected (sessionIdOf session) (StreamCall.syncGroup playerId groupId).request)
  have hsessions : (server.step (.syncGroup session 0 playerId groupId)).service.sessions =
      server.service.sessions.set session (.connected (sessionIdOf session)
        (StreamCall.syncGroup playerId groupId).request) ++
          [.start server.service.nextSessionId] := by
    simp only [RpcServer.step, hconnect, if_true, hnext]
    rfl
  have hwaiting : (StreamSession.start (sessionIdOf session)).outstanding.count .connect = 1 := rfl
  have hconnected : (StreamSession.connected (sessionIdOf session)
      (StreamCall.syncGroup playerId groupId).request).outstanding.count .connect = 0 := rfl
  have hnew : (StreamSession.start server.service.nextSessionId).outstanding.count .connect = 1 :=
    rfl
  rw [hwaiting, hconnected] at hreplaced
  rw [clientsAwaited, hsessions, List.map_append, List.sum_append, List.map_singleton,
    List.sum_singleton, hnew]
  exact hreplaced

/-- A completion that brings no client changes one session. -/
theorem Following.sessions_completeSession (h : Following joins server) {session index : ℕ}
    {bOk : Bool} {operation : AsyncOperation}
    (hoperation : server.operation session index = some operation)
    (hclient : ¬ (operation = .connect ∧ bOk = true)) :
    ∃ value, server.service.sessions[session]? = some value ∧
      value.outstanding[index]? = some operation ∧
      (server.service.complete session index bOk {}).sessions =
        server.service.sessions.set session (value.complete index bOk {}) := by
  obtain ⟨value, hvalue, hfound⟩ := Option.bind_eq_some_iff.mp hoperation
  obtain ⟨handler, hhandler⟩ := (h.phases session value hvalue).exists_handler hfound
  refine ⟨value, hvalue, hfound, ?_⟩
  cases bOk with
  | false =>
      rw [RpcService.complete_false hvalue hfound hhandler, RpcService.sessions_of_destroyed]
      rfl
  | true =>
      cases operation with
      | connect => exact absurd ⟨rfl, rfl⟩ hclient
      | write response =>
          rw [RpcService.complete_write hvalue hfound hhandler]
          rfl

/-- A completion that brings no client takes a session off those that wait for one only when
it fails. -/
theorem Following.clientsAwaited_completeSession (h : Following joins server) {session index : ℕ}
    {bOk : Bool} (hclient : ¬ (server.operation session index = some .connect ∧ bOk = true)) :
    (server.step (.completeSession session index bOk)).clientsAwaited +
        (server.clientFails (.completeSession session index bOk)).toList.length =
      server.clientsAwaited := by
  simp only [RpcServer.step, if_neg hclient, clientFails]
  cases hoperation : server.operation session index with
  | none =>
      rw [RpcService.complete_of_none hoperation]
      simp
  | some operation =>
      rw [hoperation, Option.some.injEq] at hclient
      obtain ⟨value, hvalue, hfound, hsessions⟩ := h.sessions_completeSession hoperation hclient
      have hcount := StreamSession.count_connect_complete hfound bOk {}
      have herase := count_eraseIdx hfound AsyncOperation.connect
      have hreplaced := sum_map_set
        (fun session : StreamSession => session.outstanding.count .connect) hvalue
        (value.complete index bOk {})
      rw [hcount, herase] at hreplaced
      unfold clientsAwaited
      rw [hsessions]
      cases operation with
      | connect =>
          have hfails : bOk = false := by
            cases bOk with
            | false => rfl
            | true => exact absurd ⟨rfl, rfl⟩ hclient
          rw [if_pos rfl] at hreplaced
          rw [if_pos ⟨rfl, hfails⟩, Option.toList_some, List.length_singleton]
          omega
      | write response =>
          rw [if_neg (by simp)] at hreplaced
          rw [if_neg (by simp), Option.toList_none, List.length_nil]
          omega

/-! ## Every queue accepts -/

/-- What a step makes of the handlers and sessions that accept calls: a new queue adds one of
each, a failure takes one away, and everything else replaces what it uses up. -/
theorem Following.accepts_step (h : Following joins server) (hregistered : server.Registered)
    (event : RpcEvent) :
    (server.step event).requestsAwaited + (server.requestFails event).toList.length =
        server.requestsAwaited + (server.opensQueue event).toList.length ∧
      (server.step event).clientsAwaited + (server.clientFails event).toList.length =
        server.clientsAwaited + (server.opensQueue event).toList.length := by
  cases event with
  | run =>
      refine ⟨requestsAwaited_newUnaryCall server, ?_⟩
      simp [RpcServer.step, clientsAwaited, clientFails, opensQueue, RpcService.newSession,
        StreamSession.start]
  | syncGroup session index playerId groupId =>
      simp only [requestFails, clientFails, opensQueue, Option.toList_none, List.length_nil,
        Nat.add_zero]
      by_cases hconnect : server.operation session index = some .connect
      · refine ⟨?_, h.clientsAwaited_syncGroup hconnect playerId groupId⟩
        simp only [RpcServer.step, if_pos hconnect]
        rfl
      · simp only [RpcServer.step, if_neg hconnect, and_self]
  | executeBehavior call index groupId packet order =>
      simp only [requestFails, clientFails, opensQueue, Option.toList_none, List.length_nil,
        Nat.add_zero, RpcServer.step]
      split
      · next hrequest =>
          refine ⟨?_, clientsAwaited_completeUnary hregistered ..⟩
          have hcount := requestsAwaited_completeUnary hregistered.handlers hrequest true
            (behaviorRequest groupId packet) order
          rwa [if_neg (by simp), Nat.add_zero] at hcount
      · exact ⟨rfl, rfl⟩
  | completeSession session index bOk =>
      simp only [requestFails, opensQueue, Option.toList_none, List.length_nil, Nat.add_zero]
      by_cases hclient : server.operation session index = some .connect ∧ bOk = true
      · simp [RpcServer.step, clientFails, hclient]
      · refine ⟨?_, h.clientsAwaited_completeSession hclient⟩
        simp only [RpcServer.step, if_neg hclient]
        rfl
  | completeUnary call index bOk =>
      simp only [clientFails, opensQueue, Option.toList_none, List.length_nil, Nat.add_zero]
      by_cases hguard : server.unaryOperation call index = some .request ∧ bOk = true
      · simp [RpcServer.step, requestFails, hguard]
      · simp only [RpcServer.step, if_neg hguard, requestFails]
        refine ⟨?_, clientsAwaited_completeUnary hregistered ..⟩
        cases hoperation : server.unaryOperation call index with
        | none =>
            rw [completeUnary_of_none hoperation]
            simp
        | some operation =>
            have hcount := requestsAwaited_completeUnary hregistered.handlers hoperation bOk {}
              .asStored
            rw [← hcount]
            by_cases hfails : operation = .request ∧ bOk = false
            · simp [hfails]
            · simp [hfails]

/-- The completion queues of a run. -/
def queuesOf (events : List RpcEvent) : List Unit :=
  observed step opensQueue {} events

/-- The operations that the library owes to the service. -/
def owed (server : RpcServer) : ℕ :=
  (server.service.sessions.map fun session => session.outstanding.length).sum +
    (server.unaryCalls.map fun call => call.outstanding.length).sum

/-- The library tells of an operation that it has failed. -/
def Fails (server : RpcServer) : RpcEvent → Prop
  | .completeSession session index bOk =>
      bOk = false ∧ (server.operation session index).isSome = true
  | .completeUnary call index bOk =>
      bOk = false ∧ (server.unaryOperation call index).isSome = true
  | _ => False

instance (server : RpcServer) : DecidablePred server.Fails
  | .run => inferInstanceAs (Decidable False)
  | .syncGroup .. => inferInstanceAs (Decidable False)
  | .executeBehavior .. => inferInstanceAs (Decidable False)
  | .completeSession _ _ _ => inferInstanceAs (Decidable (_ ∧ _))
  | .completeUnary _ _ _ => inferInstanceAs (Decidable (_ ∧ _))

/-- What a failure makes of a session: one that waits for something may be destroyed. -/
def Drains (value next : StreamSession) : Prop :=
  next = value ∨ (value.outstanding ≠ [] ∧ next.outstanding = [] ∧ next.handler = none)

/-- At most one operation is owed to a session. -/
theorem Phase.outstanding_eq {session index : ℕ} {value : StreamSession}
    (h : Phase joins server session value) {operation : AsyncOperation}
    (hoperation : value.outstanding[index]? = some operation) :
    index = 0 ∧ value.outstanding = [operation] := by
  have hone : ∀ only : AsyncOperation, value.outstanding = [only] →
      index = 0 ∧ value.outstanding = [operation] := by
    intro only honly
    rw [honly, List.getElem?_singleton] at hoperation
    split at hoperation
    · next hzero => exact ⟨hzero, by rw [honly, Option.some.inj hoperation]⟩
    · simp at hoperation
  cases h with
  | waiting => exact hone .connect rfl
  | refused _ _ houtstanding => simp [houtstanding] at hoperation
  | @live _ handler _ _ _ _ _ _ hstep =>
      cases hqueue : handler.outgoingMessages with
      | nil => simp [hstep.outstanding, hqueue] at hoperation
      | cons front rest =>
          apply hone (.write front)
          rw [hstep.outstanding, hqueue]
          rfl
  | left _ _ _ _ _ houtstanding => simp [houtstanding] at hoperation

theorem outstanding_complete_false {index : ℕ} {value : StreamSession}
    {operation : AsyncOperation} (hoperation : value.outstanding[index]? = some operation)
    (request : SyncRequest) :
    (value.complete index false request).outstanding = value.outstanding.eraseIdx index := by
  rw [StreamSession.complete, hoperation]
  cases value.handler <;> simp [StreamSession.proceed]

/-- A failure takes one operation off, and destroys the session or deletes the handler that
has waited for it. -/
theorem Following.fails_step (h : Following joins server) (hregistered : server.Registered)
    {event : RpcEvent} (hfails : server.Fails event) :
    (server.step event).owed + 1 = server.owed ∧
      (server.step event).service.sessions.length = server.service.sessions.length ∧
      ∀ (session : ℕ) (value : StreamSession), server.service.sessions[session]? = some value →
        ∃ next, (server.step event).service.sessions[session]? = some next ∧
          Drains value next := by
  cases event with
  | run => exact hfails.elim
  | syncGroup session index playerId groupId => exact hfails.elim
  | executeBehavior call index groupId packet order => exact hfails.elim
  | completeSession session index bOk =>
      obtain ⟨rfl, hsome⟩ := hfails
      obtain ⟨operation, hoperation⟩ := Option.isSome_iff_exists.mp hsome
      obtain ⟨value, hvalue, hfound, hsessions⟩ :=
        h.sessions_completeSession hoperation fun hboth => Bool.false_ne_true hboth.2
      -- a session waits for one operation at most, so the failure empties it
      obtain ⟨rfl, honly⟩ := (h.phases session value hvalue).outstanding_eq hfound
      have hdead := StreamSession.handler_complete_false hfound {}
      have hempty : (value.complete 0 false {}).outstanding = [] := by
        rw [outstanding_complete_false hfound, honly]
        rfl
      have hnext : (server.step (.completeSession session 0 false)).service.sessions =
          server.service.sessions.set session (value.complete 0 false {}) := by
        simpa [RpcServer.step] using hsessions
      have hcalls : (server.step (.completeSession session 0 false)).unaryCalls =
          server.unaryCalls := by
        simp [RpcServer.step]
      have hreplaced := sum_map_set (fun session : StreamSession => session.outstanding.length)
        hvalue (value.complete 0 false {})
      rw [honly, hempty, List.length_singleton, List.length_nil] at hreplaced
      refine ⟨?_, by rw [hnext, List.length_set], fun other found hother => ?_⟩
      · rw [owed, owed, hnext, hcalls]
        omega
      · rw [hnext, List.getElem?_set]
        split
        · next hsame =>
            subst hsame
            obtain rfl := Option.some.inj (hvalue.symm.trans hother)
            rw [if_pos (List.getElem?_eq_some_iff.mp hvalue).1]
            exact ⟨_, rfl, Or.inr ⟨by simp [honly], hempty, hdead⟩⟩
        · exact ⟨found, hother, Or.inl rfl⟩
  | completeUnary call index bOk =>
      obtain ⟨rfl, hsome⟩ := hfails
      obtain ⟨operation, hoperation⟩ := Option.isSome_iff_exists.mp hsome
      obtain ⟨value, after, hvalue, houtstanding, hafter, hcases⟩ :=
        hregistered.handlers.completes hoperation false {} .asStored
      rcases hcases with ⟨⟨-, hfalse⟩, -⟩ | ⟨-, hnext⟩
      · simp at hfalse
      · have hstep : server.step (.completeUnary call index false) =
            server.deleteUnaryCall call after := by
          simpa [RpcServer.step] using hnext
        have hsum : ∀ next : UnaryCall, next.outstanding = [] →
            ((server.unaryCalls.set call next).map fun call => call.outstanding.length).sum + 1 =
              (server.unaryCalls.map fun call => call.outstanding.length).sum := by
          intro next hnone
          have hreplaced := sum_map_set (fun call : UnaryCall => call.outstanding.length) hvalue next
          rwa [houtstanding, hnone] at hreplaced
        rw [hstep]
        refine ⟨?_, rfl, fun session found hfound => ⟨found, hfound, Or.inl rfl⟩⟩
        have hdeleted : ((server.deleteUnaryCall call after).unaryCalls.map
            fun call => call.outstanding.length).sum + 1 =
              (server.unaryCalls.map fun call => call.outstanding.length).sum :=
          hsum _ hafter
        rw [owed, owed, ← hdeleted]
        rfl

theorem Drains.trans {first second third : StreamSession} (h : Drains first second)
    (hnext : Drains second third) : Drains first third := by
  rcases h with rfl | ⟨hwaits, hempty, hdead⟩
  · exact hnext
  · rcases hnext with rfl | ⟨hbusy, -⟩
    · exact Or.inr ⟨hwaits, hempty, hdead⟩
    · exact absurd hempty hbusy

/-- The queues are drained: each event of the drain fails one operation that is owed, and no
session is created or brought back to life by it. -/
theorem following_fails_run (h : Following joins server) (hregistered : server.Registered)
    (hfew : server.service.sessions.length < 2 ^ 64) {drain : List RpcEvent}
    (hdrain : EveryStep step server Fails drain) :
    (Following joins (run step server drain) ∧ (run step server drain).Registered) ∧
      (run step server drain).owed + drain.length = server.owed ∧
      (run step server drain).service.sessions.length = server.service.sessions.length ∧
      ∀ (session : ℕ) (value : StreamSession), server.service.sessions[session]? = some value →
        ∃ next, (run step server drain).service.sessions[session]? = some next ∧
          Drains value next := by
  induction drain using List.reverseRecOn with
  | nil => exact ⟨⟨h, hregistered⟩, rfl, rfl, fun session value hvalue => ⟨value, hvalue, Or.inl rfl⟩⟩
  | append_singleton before event ih =>
      obtain ⟨hbefore, hevent⟩ := everyStep_concat.mp hdrain
      obtain ⟨⟨hfollowing, hregisteredBefore⟩, howed, hlength, hsessions⟩ := ih hbefore
      obtain ⟨howedNext, hlengthNext, hsessionsNext⟩ :=
        hfollowing.fails_step hregisteredBefore hevent
      -- a failure brings no client
      have hjoined : (run step server before).joined event = none := by
        cases event with
        | syncGroup => exact hevent.elim
        | _ => rfl
      have hnext := hfollowing.step hregisteredBefore (hlength ▸ hfew) event
      rw [hjoined, Option.toList_none, List.append_nil] at hnext
      rw [run_concat]
      refine ⟨⟨hnext, hregisteredBefore.step event⟩, ?_, hlengthNext.trans hlength, ?_⟩
      · rw [List.length_append, List.length_singleton]
        omega
      · intro session value hvalue
        obtain ⟨middle, hmiddle, hdrains⟩ := hsessions session value hvalue
        obtain ⟨next, hfound, hdrainsNext⟩ := hsessionsNext session middle hmiddle
        exact ⟨next, hfound, hdrains.trans hdrainsNext⟩

/-- Nothing is owed to the service any more: the handlers are deleted, and a session that has
not been destroyed has written all that it was given and is still listed in its group. -/
structure Drained (server : RpcServer) : Prop where
  handlers : ∀ (call : ℕ) (value : UnaryCall), server.unaryCalls[call]? = some value →
    value.handler = none
  sessions : ∀ (session : ℕ) (value : StreamSession) (handler : StreamSessionHandler),
    server.service.sessions[session]? = some value → value.handler = some handler →
      handler.outgoingMessages = [] ∧
        value.completed = value.written.map createResponseFromPacket ∧
        ∃ groupId, (session, groupId) ∈ server.opened ∧
          server.service.ListedAt groupId.toInt32 handler.sessionId session

theorem Following.drained (h : Following joins server) (hregistered : server.Registered)
    (hnone : server.owed = 0) : server.Drained := by
  obtain ⟨hsessions, hcalls⟩ := Nat.add_eq_zero_iff.mp hnone
  have hempty : ∀ {α β : Type} {f : α → List β} {values : List α},
      (values.map fun value => (f value).length).sum = 0 → ∀ value ∈ values, f value = [] := by
    intro α β f values hsum value hmem
    exact List.length_eq_zero_iff.mp (List.sum_eq_zero_iff_forall_eq_nat.mp hsum _
      (List.mem_map_of_mem hmem))
  constructor
  · intro call value hvalue
    have hphase := hregistered.handlers call value hvalue
    have hidle := hempty hcalls value (List.mem_of_getElem? hvalue)
    unfold UnaryCall.InPhase at hphase
    cases hhandler : value.handler with
    | none => rfl
    | some handler =>
        rw [hhandler, hidle] at hphase
        simp at hphase
  · intro session value handler hvalue hhandler
    have hidle := hempty hsessions value (List.mem_of_getElem? hvalue)
    cases h.phases session value hvalue with
    | waiting => simp [StreamSession.start] at hidle
    | refused _ hdead => simp [hdead] at hhandler
    | @live _ found join hmem hsession hfound hid hentry hstep _ _ =>
        obtain rfl := Option.some.inj (hfound.symm.trans hhandler)
        -- a session with something to write waits for the writing
        have hqueue : found.outgoingMessages = [] := by
          have hnothing := hstep.outstanding.symm.trans hidle
          cases hmessages : found.outgoingMessages with
          | nil => rfl
          | cons front rest => simp [hmessages] at hnothing
        have horder := hstep.order
        rw [hqueue, List.append_nil] at horder
        refine ⟨hqueue, horder, join.groupId, ?_, ?_⟩
        · rw [h.opened, ← hsession]
          exact List.mem_map_of_mem hmem
        · rwa [hid]
    | left _ _ _ _ hdead => simp [hdead] at hhandler

/-- **A shutdown leaves the idle sessions behind.**  From any state that a run of the server
with fewer than 2^64 sessions reaches, as many failures empty the queues as operations are
owed.  They destroy exactly the sessions that wait for something, and when nothing is owed any
more all handlers are deleted, and the sessions that are left are idle and still listed.  A
broadcast that calls a destroyed session is taken to do nothing there. -/
theorem shutdown_drains {events drain : List RpcEvent}
    (hfew : (run step {} events).service.sessions.length < 2 ^ 64)
    (hdrain : EveryStep step (run step {} events) Fails drain) :
    let before := run step {} events
    let after := run step before drain
    after.owed + drain.length = before.owed ∧
      (∀ (session : ℕ) (value : StreamSession), before.service.sessions[session]? = some value →
        ∃ next, after.service.sessions[session]? = some next ∧ Drains value next) ∧
      (after.owed = 0 → after.Drained) := by
  intro before after
  obtain ⟨⟨hfollowing, hregistered⟩, howed, -, hsessions⟩ :=
    following_fails_run (following_run hfew) (registered_run events) hfew hdrain
  exact ⟨howed, hsessions, hfollowing.drained hregistered⟩

/-- The library fails all that is left of two joins: the two accepting handlers and the write
to the second session. -/
def twoJoinsDrain : List RpcEvent :=
  [.completeSession 1 0 false, .completeUnary 3 0 false, .completeUnary 0 0 false,
    .completeSession 2 0 false, .completeUnary 1 0 false, .completeUnary 2 0 false]

theorem shutdown_drains_two :
    let before := run step {} twoJoins
    let after := run step before twoJoinsDrain
    after.owed + twoJoinsDrain.length = before.owed ∧
      (∀ (session : ℕ) (value : StreamSession), before.service.sessions[session]? = some value →
        ∃ next, after.service.sessions[session]? = some next ∧ Drains value next) ∧
      (after.owed = 0 → after.Drained) :=
  shutdown_drains (by decide +kernel) (by decide +kernel)

end RpcServer

end HktBase.Grpc
