import Mathlib.Algebra.Group.Nat.Defs
import HktBase.Grpc.GroupIsolation

/-!
# Serving the unary requests

One completion queue, from `Run` on and before any shutdown.  The handlers of `ExecuteBehavior`
form a row: all but the last have received a request, in the order in which they were
created, and the last one waits for the next.  A handler that has received its request
has started its answer, and is deleted when the answer has been sent.

`received` and `answered` read off an event what it brings: a request for a waiting handler,
or the news that a handler's answer is sent.  `Serving` relates what a run has brought so
far to the handlers and to what they have done.  The sessions and their groups go through a
run of their own, in which the broadcasts are those that the handlers record (`service_run`).
-/

namespace HktBase.Grpc

open Transition

/-! ## The identifiers of behaviors -/

/-- The id of the behavior of a request, by the number of requests before it. -/
def behaviorIdOf (n : ℕ) : Int64 :=
  (Int32.ofNat (n + 1)).toInt64

/-- Below the overflow of the counter no id is given out twice. -/
theorem behaviorIdOf_injective {m n : ℕ} (hm : m + 1 < 2 ^ 31) (hn : n + 1 < 2 ^ 31)
    (h : behaviorIdOf m = behaviorIdOf n) : m = n := by
  have hint := congrArg Int64.toInt h
  unfold behaviorIdOf at hint
  rw [Int32.toInt_toInt64, Int32.toInt_toInt64, Int32.toInt_ofNat_of_lt hm,
    Int32.toInt_ofNat_of_lt hn] at hint
  omega

namespace RpcServer

/-! ## What an event brings -/

/-- The request that an event brings, with the handler that receives it. -/
def received (server : RpcServer) : RpcEvent → Option (ℕ × BehaviorRequest)
  | .executeBehavior call index groupId packet _ =>
      if server.unaryOperation call index = some .request then
        some (call, behaviorRequest groupId packet)
      else none
  | _ => none

/-- The handler whose `Responder.Finish` an event completes. -/
def answered (server : RpcServer) : RpcEvent → Option ℕ
  | .completeUnary call index _ =>
      if server.unaryOperation call index = some .finish then some call else none
  | _ => none

/-- What an event does to the sessions and their groups. -/
def serviceEvent (server : RpcServer) : RpcEvent → Option ServiceEvent
  | .run => some .run
  | .syncGroup session index playerId groupId =>
      if server.operation session index = some .connect then
        some (.complete session index true (StreamCall.syncGroup playerId groupId).request)
      else none
  | .executeBehavior call index groupId packet order =>
      if server.unaryOperation call index = some .request then
        some (.broadcast groupId.toInt32 (server.nextPacket (behaviorRequest groupId packet))
          order)
      else none
  | .completeSession session index bOk =>
      if server.operation session index = some .connect ∧ bOk = true then none
      else some (.complete session index bOk {})
  | .completeUnary _ _ _ => none

/-- `Run` is not called again, and no handler that waits for a request is told that there
will be none. -/
def InService (server : RpcServer) : RpcEvent → Prop
  | .run => False
  | .completeUnary call index bOk =>
      server.unaryOperation call index = some .request → bOk = true
  | _ => True

instance (server : RpcServer) : DecidablePred server.InService
  | .run => inferInstanceAs (Decidable False)
  | .completeUnary _ _ _ => inferInstanceAs (Decidable (_ → _))
  | .executeBehavior .. => inferInstanceAs (Decidable True)
  | .syncGroup .. => inferInstanceAs (Decidable True)
  | .completeSession .. => inferInstanceAs (Decidable True)

/-! ## What the handlers have done -/

/-- The broadcasts, each with its handler, its group and its packet. -/
def broadcasts (server : RpcServer) : List (ℕ × Int32 × BehaviorPacket) :=
  server.actions.filterMap fun
    | .broadcast call groupId packet => some (call, groupId, packet)
    | _ => none

/-- The handlers that have started an answer. -/
def finishes (server : RpcServer) : List ℕ :=
  server.actions.filterMap fun
    | .finish call => some call
    | _ => none

/-- The handlers that have been deleted. -/
def deletes (server : RpcServer) : List ℕ :=
  server.actions.filterMap fun
    | .delete call => some call
    | _ => none

/-- The group and the packet of a call of `BroadcastToGroup`. -/
def broadcastOf : ServiceEvent → Option (Int32 × BehaviorPacket)
  | .broadcast groupId packet _ => some (groupId, packet)
  | _ => none

/-- A handler waits for a request. -/
def WaitsForRequest (server : RpcServer) (call : ℕ) : Prop :=
  ∃ value handler, server.unaryCalls[call]? = some value ∧ value.handler = some handler ∧
    .request ∈ value.outstanding

/-- A handler exists, and waits for nothing but the completion of its `Finish`. -/
def WaitsForFinish (server : RpcServer) (call : ℕ) : Prop :=
  ∃ value handler, server.unaryCalls[call]? = some value ∧ value.handler = some handler ∧
    value.outstanding = [.finish]

/-- A handler is deleted, and nothing is left that could call it. -/
def IsDeleted (server : RpcServer) (call : ℕ) : Prop :=
  ∃ value, server.unaryCalls[call]? = some value ∧ value.handler = none ∧ value.outstanding = []

/-! ## One completion -/

variable {server : RpcServer}

theorem completeUnary_of_none {call index : ℕ} (hnone : server.unaryOperation call index = none)
    (bOk : Bool) (request : BehaviorRequest) (order : VisitOrder UInt64 ℕ) :
    server.completeUnary call index bOk request order = server := by
  unfold unaryOperation at hnone
  unfold completeUnary
  cases hvalue : server.unaryCalls[call]? with
  | none => rfl
  | some value =>
      rw [hvalue, Option.bind_some] at hnone
      simp only [hnone]

theorem unaryOperation_of_singleton {call index : ℕ} {value : UnaryCall}
    {only operation : UnaryOperation} (hvalue : server.unaryCalls[call]? = some value)
    (honly : value.outstanding = [only])
    (hoperation : server.unaryOperation call index = some operation) :
    index = 0 ∧ operation = only := by
  rw [unaryOperation, hvalue, Option.bind_some, honly] at hoperation
  obtain ⟨hindex, hsame⟩ := eq_of_getElem?_singleton hoperation
  exact ⟨hindex, hsame.symm⟩

theorem completeUnary_request {call : ℕ} {value : UnaryCall} {handler : UnaryCallHandler}
    (hvalue : server.unaryCalls[call]? = some value) (hhandler : value.handler = some handler)
    (hstatus : handler.status = .process) (houtstanding : value.outstanding = [.request])
    (request : BehaviorRequest) (order : VisitOrder UInt64 ℕ) :
    server.completeUnary call 0 true request order =
      server.processRequest call { handler := some { handler with request := request } }
        { handler with request := request } order := by
  simp [completeUnary, hvalue, houtstanding, hhandler, proceed, hstatus]

theorem completeUnary_finish {call : ℕ} {value : UnaryCall} {handler : UnaryCallHandler}
    (hvalue : server.unaryCalls[call]? = some value) (hhandler : value.handler = some handler)
    (hstatus : handler.status = .finish) (houtstanding : value.outstanding = [.finish])
    (bOk : Bool) (request : BehaviorRequest) (order : VisitOrder UInt64 ℕ) :
    server.completeUnary call 0 bOk request order =
      server.deleteUnaryCall call { value with outstanding := [] } := by
  cases bOk <;> simp [completeUnary, hvalue, houtstanding, hhandler, proceed, hstatus]

theorem unaryCalls_processRequest (call : ℕ) (value : UnaryCall) (handler : UnaryCallHandler)
    (order : VisitOrder UInt64 ℕ) :
    (server.processRequest call value handler order).unaryCalls =
      (server.unaryCalls ++
        [({ handler := some { status := .process }, outstanding := [.request] } : UnaryCall)]).set call
          { handler := some
              { status := .finish
                request := { handler.request with
                  packetField := some (server.nextPacket handler.request) } }
            outstanding := value.outstanding ++ [.finish] } :=
  rfl

theorem actions_processRequest (call : ℕ) (value : UnaryCall) (handler : UnaryCallHandler)
    (order : VisitOrder UInt64 ℕ) :
    (server.processRequest call value handler order).actions =
      server.actions ++
        [.broadcast call handler.request.groupId (server.nextPacket handler.request),
          .finish call] := by
  simp [processRequest, newUnaryCall, emit, setUnaryCall, nextPacket]

theorem actions_deleteUnaryCall (call : ℕ) (value : UnaryCall) :
    (server.deleteUnaryCall call value).actions = server.actions ++ [.delete call] :=
  rfl

/-! ## The row of handlers -/

/-- What the requests and answers so far have made of the handlers. -/
structure Serving (requests : List (ℕ × BehaviorRequest)) (answers : List ℕ)
    (server : RpcServer) : Prop where
  length : server.unaryCalls.length = requests.length + 1
  counter : server.nextBehaviorId = Int32.ofNat requests.length
  /-- The requests went to the handlers in their order. -/
  calls : requests.map Prod.fst = List.range requests.length
  waiting : ∃ value handler, server.unaryCalls[requests.length]? = some value ∧
    value.handler = some handler ∧ handler.status = .process ∧ value.outstanding = [.request]
  working : ∀ call, call < requests.length → call ∉ answers →
    ∃ value handler, server.unaryCalls[call]? = some value ∧ value.handler = some handler ∧
      handler.status = .finish ∧ value.outstanding = [.finish]
  gone : ∀ call ∈ answers, call < requests.length ∧ server.IsDeleted call
  once : answers.Nodup
  broadcasts : server.broadcasts = requests.zipIdx.map fun request =>
    (request.1.1, request.1.2.groupId,
      { request.1.2.packet with behaviorId := behaviorIdOf request.2 })
  finishes : server.finishes = requests.map Prod.fst
  deletes : server.deletes = answers
  dangling : ∀ call, .dangling call ∉ server.actions

namespace Serving

variable {requests : List (ℕ × BehaviorRequest)} {answers : List ℕ}

/-- The operations that can complete: the newest handler waits for a request, and every older
one that has not been answered waits for the end of its `Finish`. -/
theorem unaryOperation_cases (h : Serving requests answers server) {call index : ℕ}
    {operation : UnaryOperation} (hoperation : server.unaryOperation call index = some operation) :
    index = 0 ∧ ((call = requests.length ∧ operation = .request) ∨
      (call < requests.length ∧ call ∉ answers ∧ operation = .finish)) := by
  obtain ⟨value, hvalue, hfound⟩ := Option.bind_eq_some_iff.mp hoperation
  have hlt : call < requests.length + 1 := h.length ▸ (List.getElem?_eq_some_iff.mp hvalue).1
  rcases Nat.lt_succ_iff_lt_or_eq.mp hlt with hlt | rfl
  · by_cases hgone : call ∈ answers
    · obtain ⟨-, found, hcall, -, hnone⟩ := h.gone call hgone
      obtain rfl := Option.some.inj (hvalue.symm.trans hcall)
      rw [hnone] at hfound
      simp at hfound
    · obtain ⟨found, -, hcall, -, -, honly⟩ := h.working call hlt hgone
      obtain ⟨hindex, hfinish⟩ := unaryOperation_of_singleton hcall honly hoperation
      exact ⟨hindex, Or.inr ⟨hlt, hgone, hfinish⟩⟩
  · obtain ⟨found, -, hcall, -, -, honly⟩ := h.waiting
    obtain ⟨hindex, hrequest⟩ := unaryOperation_of_singleton hcall honly hoperation
    exact ⟨hindex, Or.inl ⟨rfl, hrequest⟩⟩

/-- Sessions and groups play no part. -/
theorem of_eq (h : Serving requests answers server) {next : RpcServer}
    (hcalls : next.unaryCalls = server.unaryCalls)
    (hcounter : next.nextBehaviorId = server.nextBehaviorId)
    (hactions : next.actions = server.actions) : Serving requests answers next := by
  constructor
  · rw [hcalls, h.length]
  · rw [hcounter, h.counter]
  · exact h.calls
  · rw [hcalls]
    exact h.waiting
  · rw [hcalls]
    exact h.working
  · unfold IsDeleted
    rw [hcalls]
    exact h.gone
  · exact h.once
  · rw [RpcServer.broadcasts, hactions]
    exact h.broadcasts
  · rw [RpcServer.finishes, hactions]
    exact h.finishes
  · rw [RpcServer.deletes, hactions]
    exact h.deletes
  · rw [hactions]
    exact h.dangling

/-- The waiting handler receives a request: it creates its successor, broadcasts, and
starts its answer. -/
theorem request (h : Serving requests answers server) (request : BehaviorRequest)
    (order : VisitOrder UInt64 ℕ) :
    Serving (requests ++ [(requests.length, request)]) answers
      (server.completeUnary requests.length 0 true request order) := by
  obtain ⟨value, handler, hvalue, hhandler, hstatus, honly⟩ := h.waiting
  rw [completeUnary_request hvalue hhandler hstatus honly]
  -- the row grows at its end; a handler that has its request is not touched
  have hcalls : ∀ call, call < requests.length →
      (server.processRequest requests.length { handler := some { handler with request := request } }
        { handler with request := request } order).unaryCalls[call]? =
          server.unaryCalls[call]? := by
    intro call hlt
    have hbound : call < server.unaryCalls.length := by
      rw [h.length]
      omega
    rw [unaryCalls_processRequest, List.getElem?_set_ne (ne_of_gt hlt),
      List.getElem?_append_left hbound]
  have hlength : (requests ++ [(requests.length, request)]).length = requests.length + 1 := by
    simp
  constructor
  · rw [unaryCalls_processRequest, List.length_set, List.length_append, h.length, hlength]
    rfl
  · show server.nextBehaviorId + 1 = _
    rw [h.counter, hlength, Int32.ofNat_add]
    rfl
  · rw [List.map_append, h.calls, hlength, List.range_succ]
    rfl
  -- the successor is the one that waits now
  · refine ⟨{ handler := some { status := .process }, outstanding := [.request] },
      { status := .process }, ?_, rfl, rfl, rfl⟩
    rw [hlength, unaryCalls_processRequest, List.getElem?_set_ne (by omega), ← h.length,
      List.getElem?_concat_length]
  · intro call hlt hgone
    rw [hlength] at hlt
    rcases Nat.lt_succ_iff_lt_or_eq.mp hlt with hlt | rfl
    · rw [hcalls call hlt]
      exact h.working call hlt hgone
    · refine ⟨_, _, (congrArg (fun calls => calls[requests.length]?)
        (unaryCalls_processRequest _ _ _ _)).trans (List.getElem?_set_self ?_), rfl, rfl, rfl⟩
      rw [List.length_append, h.length]
      omega
  · intro call hmem
    obtain ⟨hlt, found, hfound, hdeleted⟩ := h.gone call hmem
    refine ⟨?_, found, ?_, hdeleted⟩
    · rw [hlength]
      omega
    · rw [hcalls call hlt]
      exact hfound
  · exact h.once
  · rw [List.zipIdx_append, List.map_append, ← h.broadcasts]
    simp [RpcServer.broadcasts, actions_processRequest, nextPacket, h.counter, behaviorIdOf]
  · rw [List.map_append, ← h.finishes]
    simp [RpcServer.finishes, actions_processRequest]
  · rw [← h.deletes]
    simp [RpcServer.deletes, actions_processRequest]
  · intro call hmem
    apply h.dangling call
    simpa [actions_processRequest] using hmem

/-- The answer of a handler is sent: the handler is deleted, and since it has no further
operation, nothing will be sent by it again. -/
theorem answer (h : Serving requests answers server) {call : ℕ} (hlt : call < requests.length)
    (hnew : call ∉ answers) (bOk : Bool) (request : BehaviorRequest)
    (order : VisitOrder UInt64 ℕ) :
    Serving requests (answers ++ [call])
      (server.completeUnary call 0 bOk request order) := by
  obtain ⟨value, handler, hvalue, hhandler, hstatus, honly⟩ := h.working call hlt hnew
  rw [completeUnary_finish hvalue hhandler hstatus honly]
  -- only the handler itself changes
  have hothers : ∀ other, other ≠ call →
      (server.deleteUnaryCall call { value with outstanding := [] }).unaryCalls[other]? =
        server.unaryCalls[other]? := by
    intro other hne
    simp [deleteUnaryCall, emit, setUnaryCall, List.getElem?_set_ne (Ne.symm hne)]
  constructor
  · simp [deleteUnaryCall, emit, setUnaryCall, h.length]
  · exact h.counter
  · exact h.calls
  · rw [hothers requests.length (by omega)]
    exact h.waiting
  · intro other hother hgone
    rw [List.mem_append, List.mem_singleton, not_or] at hgone
    rw [hothers other hgone.2]
    exact h.working other hother hgone.1
  · intro other hmem
    rcases List.mem_append.mp hmem with hold | hlast
    · have hne : other ≠ call := fun hsame => hnew (hsame ▸ hold)
      obtain ⟨hother, found, hfound, hdeleted⟩ := h.gone other hold
      exact ⟨hother, found, (hothers other hne).trans hfound, hdeleted⟩
    · obtain rfl := List.mem_singleton.mp hlast
      have hbound : other < server.unaryCalls.length := by
        rw [h.length]
        omega
      refine ⟨hlt, { handler := none }, ?_, rfl, rfl⟩
      simp [deleteUnaryCall, emit, setUnaryCall, hbound]
  · rw [List.nodup_append]
    refine ⟨h.once, List.nodup_singleton call, ?_⟩
    intro other hold last hlast hsame
    obtain rfl := List.mem_singleton.mp hlast
    exact hnew (hsame ▸ hold)
  · rw [← h.broadcasts]
    simp [RpcServer.broadcasts, actions_deleteUnaryCall]
  · rw [← h.finishes]
    simp [RpcServer.finishes, actions_deleteUnaryCall]
  · rw [← h.deletes]
    simp [RpcServer.deletes, actions_deleteUnaryCall]
  · intro other hmem
    apply h.dangling other
    simpa [actions_deleteUnaryCall] using hmem

theorem step (h : Serving requests answers server) {event : RpcEvent}
    (hservice : server.InService event) :
    Serving (requests ++ (server.received event).toList) (answers ++ (server.answered event).toList)
      (server.step event) := by
  cases event with
  | run => exact hservice.elim
  | syncGroup session index playerId groupId =>
      simp only [received, answered, Option.toList_none, List.append_nil, RpcServer.step]
      split
      · exact h.of_eq rfl rfl rfl
      · exact h
  | executeBehavior call index groupId packet order =>
      simp only [received, answered, Option.toList_none, List.append_nil, RpcServer.step]
      split
      · next hrequest =>
          -- only the last handler of the row waits for a request
          rcases h.unaryOperation_cases hrequest with ⟨rfl, ⟨rfl, -⟩ | ⟨-, -, hfinish⟩⟩
          · exact h.request _ order
          · simp at hfinish
      · simpa using h
  | completeSession session index bOk =>
      simp only [received, answered, Option.toList_none, List.append_nil, RpcServer.step]
      split
      · exact h
      · exact h.of_eq rfl rfl rfl
  | completeUnary call index bOk =>
      simp only [received, answered, Option.toList_none, List.append_nil, RpcServer.step]
      cases hoperation : server.unaryOperation call index with
      | none =>
          rw [completeUnary_of_none hoperation]
          simpa using h
      | some operation =>
          rcases h.unaryOperation_cases hoperation with ⟨rfl, ⟨-, rfl⟩ | ⟨hlt, hnew, rfl⟩⟩
          · -- a waiting handler is not told that there will be no request
            have hok : bOk = true := hservice hoperation
            simpa [hok] using h
          · simpa using h.answer hlt hnew bOk {} .asStored

/-- The sessions and groups see of an event what `serviceEvent` says, and the broadcasts
among it are those that the handlers record. -/
theorem serviceEvent (h : Serving requests answers server) {event : RpcEvent}
    (hservice : server.InService event) :
    (server.step event).service =
        run RpcService.step server.service (server.serviceEvent event).toList ∧
      (server.step event).broadcasts.map Prod.snd =
        server.broadcasts.map Prod.snd ++
          (server.serviceEvent event).toList.filterMap broadcastOf := by
  cases event with
  | run => exact hservice.elim
  | syncGroup session index playerId groupId =>
      simp only [RpcServer.serviceEvent, RpcServer.step]
      split
      · exact ⟨rfl, (List.append_nil _).symm⟩
      · exact ⟨rfl, (List.append_nil _).symm⟩
  | executeBehavior call index groupId packet order =>
      simp only [RpcServer.serviceEvent, RpcServer.step]
      split
      · next hrequest =>
          rcases h.unaryOperation_cases hrequest with ⟨rfl, ⟨rfl, -⟩ | ⟨-, -, hfinish⟩⟩
          · obtain ⟨value, handler, hvalue, hhandler, hstatus, honly⟩ := h.waiting
            rw [completeUnary_request hvalue hhandler hstatus honly]
            refine ⟨rfl, ?_⟩
            simp [RpcServer.broadcasts, actions_processRequest, broadcastOf, nextPacket,
              behaviorRequest]
          · simp at hfinish
      · exact ⟨rfl, (List.append_nil _).symm⟩
  | completeSession session index bOk =>
      simp only [RpcServer.serviceEvent, RpcServer.step]
      split
      · exact ⟨rfl, (List.append_nil _).symm⟩
      · exact ⟨rfl, (List.append_nil _).symm⟩
  | completeUnary call index bOk =>
      simp only [RpcServer.serviceEvent, RpcServer.step, Option.toList_none, List.filterMap_nil,
        List.append_nil, run_nil]
      cases hoperation : server.unaryOperation call index with
      | none =>
          rw [completeUnary_of_none hoperation, ite_self]
          exact ⟨rfl, rfl⟩
      | some operation =>
          rcases h.unaryOperation_cases hoperation with ⟨rfl, ⟨-, rfl⟩ | ⟨hlt, hnew, rfl⟩⟩
          · have hok : bOk = true := hservice hoperation
            rw [if_pos ⟨rfl, hok⟩]
            exact ⟨rfl, rfl⟩
          · obtain ⟨value, handler, hvalue, hhandler, hstatus, honly⟩ := h.working call hlt hnew
            rw [if_neg (by simp), completeUnary_finish hvalue hhandler hstatus honly]
            refine ⟨rfl, ?_⟩
            simp [RpcServer.broadcasts, actions_deleteUnaryCall]

end Serving

/-! ## Runs -/

/-- The service after `Run`, with one completion queue. -/
def running : RpcServer :=
  RpcServer.step {} .run

theorem serving_running : Serving [] [] running where
  length := rfl
  counter := rfl
  calls := rfl
  waiting := ⟨_, _, rfl, rfl, rfl, rfl⟩
  working := by simp
  gone := by simp
  once := List.nodup_nil
  broadcasts := rfl
  finishes := rfl
  deletes := rfl
  dangling := by simp [running, RpcServer.step, newUnaryCall]

/-- The requests of a run, each with the handler that received it. -/
def requestsOf (events : List RpcEvent) : List (ℕ × BehaviorRequest) :=
  observed step received running events

/-- The handlers whose answers a run reports as sent. -/
def answersOf (events : List RpcEvent) : List ℕ :=
  observed step answered running events

theorem serving_run {events : List RpcEvent} (hevents : EveryStep step running InService events) :
    Serving (requestsOf events) (answersOf events) (run step running events) := by
  unfold requestsOf answersOf
  induction events using List.reverseRecOn with
  | nil => exact serving_running
  | append_singleton before event ih =>
      obtain ⟨hbefore, hevent⟩ := everyStep_concat.mp hevents
      rw [observed_concat, observed_concat, run_concat]
      exact (ih hbefore).step hevent

/-- What a run does to the sessions and their groups. -/
def serviceEventsOf (events : List RpcEvent) : List ServiceEvent :=
  observed step serviceEvent running events

theorem service_run {events : List RpcEvent} (hevents : EveryStep step running InService events) :
    (run step running events).service =
        run RpcService.step running.service (serviceEventsOf events) ∧
      (run step running events).broadcasts.map Prod.snd =
        (serviceEventsOf events).filterMap broadcastOf := by
  unfold serviceEventsOf
  induction events using List.reverseRecOn with
  | nil => exact ⟨rfl, rfl⟩
  | append_singleton before event ih =>
      obtain ⟨hbefore, hevent⟩ := everyStep_concat.mp hevents
      obtain ⟨hservice, hbroadcasts⟩ := (serving_run hbefore).serviceEvent hevent
      obtain ⟨hsame, hsent⟩ := ih hbefore
      rw [run_concat, observed_concat, run_append, List.filterMap_append, ← hsame, ← hsent]
      exact ⟨hservice, hbroadcasts⟩

/-! ## Each request is served once -/

/-- One handler waits for a request.  Each request went to a handler of its own, which has
broadcast it once under an id of its own and has started one answer; it waits for the
completion of the answer if that has not come, and otherwise it was deleted then and is
called no more. -/
structure ServesOnce (requests : List (ℕ × BehaviorRequest)) (answers : List ℕ)
    (server : RpcServer) : Prop where
  waiting : ∃! call, server.WaitsForRequest call
  handlers : (requests.map Prod.fst).Nodup
  broadcasts : server.broadcasts = requests.zipIdx.map fun request =>
    (request.1.1, request.1.2.groupId,
      { request.1.2.packet with behaviorId := behaviorIdOf request.2 })
  ids : (server.broadcasts.map fun sent => sent.2.2.behaviorId).Nodup
  finishes : server.finishes = requests.map Prod.fst
  deletes : server.deletes = answers
  once : answers.Nodup
  answered : ∀ call ∈ answers, call ∈ requests.map Prod.fst ∧ server.IsDeleted call
  pending : ∀ call ∈ requests.map Prod.fst, call ∉ answers → server.WaitsForFinish call
  dangling : ∀ call, .dangling call ∉ server.actions

theorem Serving.servesOnce {requests : List (ℕ × BehaviorRequest)} {answers : List ℕ}
    (h : Serving requests answers server) (hfew : requests.length < 2 ^ 31) :
    ServesOnce requests answers server := by
  have hmem : ∀ call, call ∈ requests.map Prod.fst ↔ call < requests.length := by
    intro call
    rw [h.calls, List.mem_range]
  constructor
  · obtain ⟨value, handler, hvalue, hhandler, -, honly⟩ := h.waiting
    refine ⟨requests.length, ⟨value, handler, hvalue, hhandler, by simp [honly]⟩, ?_⟩
    rintro call ⟨found, -, hfound, -, hrequest⟩
    obtain ⟨index, hindex⟩ := List.mem_iff_getElem?.mp hrequest
    have hoperation : server.unaryOperation call index = some .request := by
      rw [unaryOperation, hfound]
      exact hindex
    rcases (h.unaryOperation_cases hoperation).2 with ⟨hlast, -⟩ | ⟨-, -, hfinish⟩
    · exact hlast
    · simp at hfinish
  · rw [h.calls]
    exact List.nodup_range
  · exact h.broadcasts
  -- the ids count the requests, and the counter has not come around
  · have hids : (server.broadcasts.map fun sent => sent.2.2.behaviorId) =
        (List.range' 0 requests.length).map behaviorIdOf := by
      rw [h.broadcasts, ← List.zipIdx_map_snd 0 requests, List.map_map, List.map_map]
      rfl
    rw [hids]
    refine List.Nodup.map_on ?_ (List.nodup_range' 1)
    intro m hm n hn hsame
    rw [List.mem_range'_1] at hm hn
    exact behaviorIdOf_injective (by omega) (by omega) hsame
  · exact h.finishes
  · exact h.deletes
  · exact h.once
  · intro call hcall
    obtain ⟨hlt, hdeleted⟩ := h.gone call hcall
    exact ⟨(hmem call).mpr hlt, hdeleted⟩
  · intro call hcall hnew
    obtain ⟨value, handler, hvalue, hhandler, -, honly⟩ := h.working call ((hmem call).mp hcall) hnew
    exact ⟨value, handler, hvalue, hhandler, honly⟩
  · exact h.dangling

/-- **Each unary request is served exactly once.**  Whatever happens on one completion queue
between `Run` and a shutdown, with fewer than 2^31 requests, the handlers serve each request
once, and their broadcasts are the calls of `BroadcastToGroup` that the groups have seen. -/
theorem unary_requests_served_once {events : List RpcEvent}
    (hevents : EveryStep step running InService events)
    (hfew : (requestsOf events).length < 2 ^ 31) :
    ServesOnce (requestsOf events) (answersOf events) (run step running events) ∧
      (run step running events).service =
        run RpcService.step running.service (serviceEventsOf events) ∧
      (run step running events).broadcasts.map Prod.snd =
        (serviceEventsOf events).filterMap broadcastOf :=
  ⟨(serving_run hevents).servesOnce hfew, service_run hevents⟩

/-- Two behaviors are executed, the second without a packet; one of the answers does not reach
its client. -/
def twoRequests : List RpcEvent :=
  [.executeBehavior 0 0 1 (some (executePacket 9 3 [1])) .asStored,
    .executeBehavior 1 0 1 none .asStored, .completeUnary 1 0 false, .completeUnary 0 0 true]

theorem unary_requests_served_once_two :
    ServesOnce (requestsOf twoRequests) (answersOf twoRequests) (run step running twoRequests) ∧
      (run step running twoRequests).service =
        run RpcService.step running.service (serviceEventsOf twoRequests) ∧
      (run step running twoRequests).broadcasts.map Prod.snd =
        (serviceEventsOf twoRequests).filterMap broadcastOf :=
  unary_requests_served_once (by decide +kernel) (by decide +kernel)

end RpcServer

end HktBase.Grpc
