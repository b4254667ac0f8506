import HktBase.Grpc.StreamDelivery

/-!
# Where the behaviors come from

From the log of a group back to the calls of `ExecuteBehavior`.  A handler broadcasts the
request that it receives under the next id and no other one (`broadcasts_step`), and the
library hands a call to one handler only, so that the broadcasts are the behaviors of the
calls in the order in which they were received: `Served`.

## Strategy

The counter of the ids is not protected by a lock.  What follows is about a server that finishes
one `Proceed` before the next, as the worker of one completion queue does.

* `broadcasts_step` is the only place where the source is looked at: what each event of the server
  adds to its broadcasts and to the counter;
* `Served` relates the calls that have been received, in order, to the broadcasts, and every call
  of a client to its phase;
* `Served.servesOnce` reads the logs of the groups and the ids off that.
-/

namespace HktBase.Grpc

open Transition TopicLog

/-! ## One step of the server -/

namespace RpcServer

variable {server : RpcServer}

/-- A handler that is told of a failure broadcasts nothing. -/
theorem broadcasts_completeUnary_false (call index : ℕ) (request : BehaviorRequest)
    (order : VisitOrder UInt64 ℕ) :
    (server.completeUnary call index false request order).broadcasts = server.broadcasts ∧
      (server.completeUnary call index false request order).nextBehaviorId =
        server.nextBehaviorId := by
  have hproceed : ∀ value : UnaryCall, (server.proceed call value false order).broadcasts =
      server.broadcasts ∧ (server.proceed call value false order).nextBehaviorId =
        server.nextBehaviorId := by
    intro value
    cases hhandler : value.handler with
    | none => simp [proceed, hhandler, broadcasts, emit, setUnaryCall]
    | some handler => simp [proceed, hhandler, broadcasts, deleteUnaryCall, emit, setUnaryCall]
  unfold completeUnary
  split
  · exact ⟨rfl, rfl⟩
  · dsimp only
    split
    · exact ⟨rfl, rfl⟩
    · split
      · exact hproceed _
      · exact hproceed _

/-- A request that a handler receives is broadcast under the next id, and nothing else is. 
Handler and broadcast are one step, so that the counter and the log go together. -/
theorem broadcasts_step (h : server.Registered) (event : RpcEvent) :
    (server.step event).broadcasts = server.broadcasts ++
        (server.received event).toList.map (fun request =>
          (request.1, request.2.groupId, server.nextPacket request.2)) ∧
      (server.step event).nextBehaviorId =
        server.nextBehaviorId + Int32.ofNat (server.received event).toList.length := by
  have hnothing : server.broadcasts = server.broadcasts ++
      (none : Option (ℕ × BehaviorRequest)).toList.map (fun request =>
        (request.1, request.2.groupId, server.nextPacket request.2)) ∧
      server.nextBehaviorId = server.nextBehaviorId +
        Int32.ofNat (none : Option (ℕ × BehaviorRequest)).toList.length := by
    simp
  cases event with
  | run => exact hnothing
  | syncGroup session index playerId groupId =>
      simp only [received, RpcServer.step]
      split
      · exact hnothing
      · exact hnothing
  | executeBehavior call index groupId packet order =>
      simp only [received, RpcServer.step]
      split
      -- only a handler that waits for a request broadcasts
      · next hrequest =>
          rcases h.handlers.completeUnary_cases call index true
              (behaviorRequest groupId packet) order with
            ⟨hnone, -⟩ | ⟨value, -, -, hfails⟩ | ⟨value, handler, -, hhandler, -, hnext⟩
          · simp [hrequest] at hnone
          · simpa using hfails hrequest
          · rw [hnext]
            constructor
            · simp [broadcasts, actions_processRequest, hhandler]
            · rfl
      · exact hnothing
  | completeSession session index bOk =>
      simp only [received, RpcServer.step]
      split
      · exact hnothing
      · exact hnothing
  | completeUnary call index bOk =>
      simp only [received, RpcServer.step]
      split
      · exact hnothing
      · next hguard =>
          cases bOk with
          | false =>
              obtain ⟨hbroadcasts, hcounter⟩ :=
                @broadcasts_completeUnary_false server call index {} .asStored
              rw [hbroadcasts, hcounter]
              exact hnothing
          | true =>
              rcases h.handlers.completeUnary_cases call index true {} .asStored with
                ⟨-, hsame⟩ | ⟨value, -, hnext, -⟩ | ⟨value, handler, -, -, hrequest, -⟩
              · rw [hsame]
                exact hnothing
              · rw [hnext]
                constructor
                · simp [broadcasts, actions_deleteUnaryCall]
                · simp [deleteUnaryCall, emit, setUnaryCall]
              · exact absurd ⟨hrequest, rfl⟩ hguard

end RpcServer

/-- How far a call has come: it waits for `Finish`, or its callback has been made once and it
has been deleted.  It is told of an answer only if a handler has received it. -/
def SentCall.InPhase (sent : SentCall) : Prop :=
  (sent.call.waiting = true ∧ sent.call.callbacks = [] ∧ sent.call.deleted = false) ∨
    (sent.call.waiting = false ∧ sent.call.deleted = true ∧
      ∃ status, sent.call.callbacks = [status] ∧ (status.errorCode = 0 → sent.received = true))

theorem SentCall.InPhase.finish {sent : SentCall} (h : sent.InPhase) (bOk : Bool)
    (final : Status) : (sent.finish bOk final).InPhase := by
  unfold SentCall.finish
  split
  · next hguard =>
      obtain ⟨hwaiting, hanswered⟩ := hguard
      rcases h with ⟨-, hcallbacks, -⟩ | ⟨hover, -⟩
      · refine Or.inr ⟨rfl, rfl, ?_⟩
        cases bOk with
        | true =>
            refine ⟨final, ?_, hanswered rfl⟩
            simp [ExecuteCall.proceed, hcallbacks]
        | false =>
            refine ⟨⟨14, "RPC failed or cancelled"⟩, ?_, fun hzero => absurd hzero (by decide)⟩
            simp [ExecuteCall.proceed, hcallbacks]
      · simp [hwaiting] at hover
  · exact h

theorem SentCall.InPhase.receive {sent : SentCall} (h : sent.InPhase) :
    { sent with received := true }.InPhase := by
  rcases h with hwaiting | ⟨hover, hdeleted, status, hcallbacks, -⟩
  · exact Or.inl hwaiting
  · exact Or.inr ⟨hover, hdeleted, status, hcallbacks, fun _ => rfl⟩

namespace SyncSystem

open RpcServer

/-- The call that an event brings to a handler. -/
def served (system : SyncSystem) : SyncEvent → Option ℕ
  | .receive sent call index _ =>
      match system.sentCalls[sent]? with
      | none => none
      | some value =>
          if value.received = false ∧ system.server.unaryOperation call index = some .request then
            some sent
          else none
  | _ => none

/-- The group and the behavior of a call, under the id that comes after others. -/
def behaviorOf (system : SyncSystem) (entry : ℕ × ℕ) : Option (Int32 × BehaviorPacket) :=
  system.sentCalls[entry.1]?.map fun sent => (sent.groupId.toInt32, sent.behavior entry.2)

/-- The broadcasts are the behaviors of the calls that handlers have received, in the order
in which they were received. -/
structure Served (calls : List ℕ) (system : SyncSystem) : Prop where
  counter : system.server.nextBehaviorId = Int32.ofNat calls.length
  broadcasts : system.server.broadcasts.map (fun sent => some sent.2) =
    calls.zipIdx.map system.behaviorOf
  once : calls.Nodup
  received : ∀ sent, sent ∈ calls ↔
    ∃ value, system.sentCalls[sent]? = some value ∧ value.received = true
  phases : ∀ value ∈ system.sentCalls, value.InPhase

theorem served_init : Served [] {} where
  counter := rfl
  broadcasts := rfl
  once := List.nodup_nil
  received := by simp
  phases := by simp

variable {calls : List ℕ} {system next : SyncSystem}

/-- A step that no handler receives a call in. -/
theorem Served.of_same (h : Served calls system)
    (hbroadcasts : next.server.broadcasts = system.server.broadcasts)
    (hcounter : next.server.nextBehaviorId = system.server.nextBehaviorId)
    (hsent : next.sentCalls = system.sentCalls) : Served calls next where
  counter := by rw [hcounter, h.counter]
  broadcasts := by
    have hsame : next.behaviorOf = system.behaviorOf := by
      funext entry
      rw [behaviorOf, behaviorOf, hsent]
    rw [hbroadcasts, h.broadcasts, hsame]
  once := h.once
  received := by
    rw [hsent]
    exact h.received
  phases := by
    rw [hsent]
    exact h.phases

theorem Served.broadcasts_of_kept (h : Served calls system)
    (hkept : ∀ (sent : ℕ) (value : SentCall), system.sentCalls[sent]? = some value →
      value.received = true → ∃ after, next.sentCalls[sent]? = some after ∧ after.groupId = value.groupId ∧
        ∀ others, after.behavior others = value.behavior others) :
    calls.zipIdx.map next.behaviorOf = calls.zipIdx.map system.behaviorOf := by
  refine List.map_congr_left fun entry hentry => ?_
  obtain ⟨value, hvalue, hreceived⟩ := (h.received entry.1).mp (List.fst_mem_of_mem_zipIdx hentry)
  obtain ⟨after, hafter, hgroup, hbehavior⟩ := hkept entry.1 value hvalue hreceived
  rw [behaviorOf, behaviorOf, hvalue, hafter, Option.map_some, Option.map_some, hgroup, hbehavior]

/-- A user calls `ExecuteBehavior`. -/
theorem Served.executeBehavior (h : Served calls system) (groupId subjectId : Int64)
    (behaviorTypeId : Int32) (bytes : List UInt8) :
    Served calls (system.step (.executeBehavior groupId subjectId behaviorTypeId bytes)) := by
  have hold : ∀ (sent : ℕ) (value : SentCall), system.sentCalls[sent]? = some value →
      (system.sentCalls ++ [SentCall.create groupId subjectId behaviorTypeId bytes])[sent]? =
        some value := by
    intro sent value hvalue
    rw [List.getElem?_append_left (List.getElem?_eq_some_iff.mp hvalue).1, hvalue]
  refine ⟨h.counter, ?_, h.once, fun sent => ?_, fun value hvalue => ?_⟩
  · refine h.broadcasts.trans (h.broadcasts_of_kept ?_).symm
    exact fun sent value hvalue _ => ⟨value, hold sent value hvalue, rfl, fun _ => rfl⟩
  · rw [h.received]
    constructor
    · rintro ⟨value, hvalue, hreceived⟩
      exact ⟨value, hold sent value hvalue, hreceived⟩
    · rintro ⟨value, hvalue, hreceived⟩
      rcases Nat.lt_or_ge sent system.sentCalls.length with hlt | hge
      · rw [SyncSystem.step, List.getElem?_append_left hlt] at hvalue
        exact ⟨value, hvalue, hreceived⟩
      · -- the new call has not been received
        have hnew := List.mem_of_getElem? hvalue
        rw [SyncSystem.step, List.getElem?_append_right hge] at hvalue
        obtain rfl := List.mem_singleton.mp (List.mem_of_getElem? hvalue)
        simp [SentCall.create] at hreceived
  · rcases List.mem_append.mp hvalue with hbefore | hnew
    · exact h.phases value hbefore
    · obtain rfl := List.mem_singleton.mp hnew
      exact Or.inl ⟨rfl, rfl, rfl⟩

theorem Served.nextPacket_eq (h : Served calls system) (value : SentCall) :
    system.server.nextPacket (RpcServer.behaviorRequest value.groupId (some value.packet)) =
      value.behavior calls.length := by
  rw [nextPacket, h.counter, SentCall.behavior, behaviorIdOf, Int32.ofNat_add]
  rfl

/-- A handler receives a call: the call is marked, so that no other handler will receive it, and
the broadcast is what its request asks for, under the id of its turn. -/
theorem Served.receive (h : Served calls system) (hregistered : system.server.Registered)
    (sent call index : ℕ) (order : VisitOrder UInt64 ℕ) :
    Served (calls ++ (system.served (.receive sent call index order)).toList)
      (system.step (.receive sent call index order)) := by
  simp only [SyncSystem.step, SyncSystem.receive, served]
  cases hvalue : system.sentCalls[sent]? with
  | none => simpa using h
  | some value =>
      dsimp only
      split
      · next hguard =>
          obtain ⟨hnew, hrequest⟩ := hguard
          have hlt : sent < system.sentCalls.length := (List.getElem?_eq_some_iff.mp hvalue).1
          obtain ⟨hbroadcasts, hcounter⟩ := broadcasts_step hregistered
            (.executeBehavior call index value.groupId (some value.packet) order)
          simp only [RpcServer.received, hrequest, if_true, Option.toList_some, List.map_singleton,
            List.length_singleton] at hbroadcasts hcounter
          have hsent : ∀ other : ℕ,
              (system.sentCalls.set sent { value with received := true })[other]? =
                if sent = other then some { value with received := true }
                else system.sentCalls[other]? := by
            intro other
            rw [List.getElem?_set]
            split
            · rfl
            · rfl
          -- a call is received once
          have hunserved : sent ∉ calls := by
            intro hmem
            obtain ⟨found, hfound, hreceived⟩ := (h.received sent).mp hmem
            obtain rfl := Option.some.inj (hvalue.symm.trans hfound)
            simp [hnew] at hreceived
          refine ⟨?_, ?_, ?_, fun other => ?_, fun other hother => ?_⟩
          · rw [List.length_append, Int32.ofNat_add, ← h.counter]
            exact hcounter
          · dsimp only
            rw [hbroadcasts, List.map_append, h.broadcasts, List.zipIdx_append, List.map_append]
            congr 1
            -- the broadcasts before are those of the calls before
            · refine (h.broadcasts_of_kept ?_).symm
              intro other found hfound _
              rw [hsent]
              split
              · next hsame =>
                  subst hsame
                  obtain rfl := Option.some.inj (hvalue.symm.trans hfound)
                  exact ⟨_, rfl, rfl, fun _ => rfl⟩
              · exact ⟨found, hfound, rfl, fun _ => rfl⟩
            · simp only [Option.toList_some, List.zipIdx_singleton, List.map_singleton, behaviorOf,
                hsent, if_true, Option.map_some, h.nextPacket_eq, Nat.zero_add]
              rfl
          · rw [Option.toList_some, List.nodup_append]
            refine ⟨h.once, List.nodup_singleton _, ?_⟩
            intro other hother last hlast hsame
            obtain rfl := List.mem_singleton.mp hlast
            exact hunserved (hsame ▸ hother)
          · rw [Option.toList_some, List.mem_append, List.mem_singleton, hsent]
            split
            · next hsame => simp [hsame]
            · next hne => simp [h.received, Ne.symm hne]
          · rcases List.mem_or_eq_of_mem_set hother with hold | rfl
            · exact h.phases other hold
            · exact (h.phases value (List.mem_of_getElem? hvalue)).receive
      · simpa using h

theorem finish_eq (bOk : Bool) (final : Status) (sent : SentCall) :
    (sent.finish bOk final).groupId = sent.groupId ∧
      (sent.finish bOk final).received = sent.received ∧
        ∀ others, (sent.finish bOk final).behavior others = sent.behavior others := by
  unfold SentCall.finish
  split
  · exact ⟨rfl, rfl, fun _ => rfl⟩
  · exact ⟨rfl, rfl, fun _ => rfl⟩

/-- `Finish` of a call completes, which changes its phase and neither its group nor what it has
asked for. -/
theorem Served.finishCall (h : Served calls system) (sent : ℕ) (bOk : Bool) (final : Status) :
    Served calls (system.step (.finishCall sent bOk final)) := by
  have hmodified : ∀ other : ℕ, (system.step (.finishCall sent bOk final)).sentCalls[other]? =
      (system.sentCalls[other]?).map fun value =>
        if sent = other then value.finish bOk final else value :=
    fun other => List.getElem?_modify ..
  refine ⟨h.counter, ?_, h.once, fun other => ?_, fun value hvalue => ?_⟩
  · refine h.broadcasts.trans (h.broadcasts_of_kept ?_).symm
    intro other value hvalue _
    rw [hmodified, hvalue]
    refine ⟨_, rfl, ?_⟩
    split
    · obtain ⟨hgroup, -, hbehavior⟩ := finish_eq bOk final value
      exact ⟨hgroup, hbehavior⟩
    · exact ⟨rfl, fun _ => rfl⟩
  · rw [h.received, hmodified]
    cases system.sentCalls[other]? with
    | none => simp
    | some value =>
        obtain ⟨-, hreceived, -⟩ := finish_eq bOk final value
        by_cases hsame : sent = other
        · simp [hsame, hreceived]
        · simp [hsame]
  · obtain ⟨index, hindex⟩ := List.mem_iff_getElem?.mp hvalue
    rw [hmodified] at hindex
    obtain ⟨before, hbefore, rfl⟩ := Option.map_eq_some_iff.mp hindex
    have hphase := h.phases before (List.mem_of_getElem? hbefore)
    split
    · exact hphase.finish bOk final
    · exact hphase

/-- The server takes a step in which no handler receives a request. -/
theorem Served.server (h : Served calls system) (hregistered : system.server.Registered)
    {event : RpcEvent} (hnone : system.server.received event = none)
    (hserver : next.server = system.server.step event)
    (hsent : next.sentCalls = system.sentCalls) : Served calls next := by
  obtain ⟨hbroadcasts, hcounter⟩ := broadcasts_step hregistered event
  rw [hnone] at hbroadcasts hcounter
  apply h.of_same
  · simpa [hserver] using hbroadcasts
  · simpa [hserver] using hcounter
  · exact hsent

theorem Served.accept (h : Served calls system) (hregistered : system.server.Registered)
    (sync session index : ℕ) : Served calls (system.accept sync session index) := by
  unfold SyncSystem.accept
  cases system.syncCalls[sync]? with
  | none => exact h
  | some value =>
      dsimp only
      split
      · have hnone : system.server.received
            (.syncGroup session index value.playerId value.groupId) = none := rfl
        exact h.server hregistered hnone rfl rfl
      · exact h

theorem Served.step (h : Served calls system) (hregistered : system.server.Registered)
    (event : SyncEvent) :
    Served (calls ++ (system.served event).toList) (system.step event) := by
  have hother : ∀ {next : SyncSystem}, Served calls next →
      Served (calls ++ (none : Option ℕ).toList) next := by
    intro next hnext
    rwa [Option.toList_none, List.append_nil]
  have hserver : ∀ {serverEvent : RpcEvent}, system.server.received serverEvent = none →
      Served calls { system with server := system.server.step serverEvent } :=
    fun hnone => h.server hregistered hnone rfl rfl
  cases event with
  | receive sent call index order => exact h.receive hregistered sent call index order
  | run => exact hother (hserver rfl)
  | executeBehavior groupId subjectId behaviorTypeId bytes =>
      exact hother (h.executeBehavior groupId subjectId behaviorTypeId bytes)
  | accept sync session index => exact hother (h.accept hregistered sync session index)
  | completeSession session index bOk =>
      exact hother (@hserver (.completeSession session index bOk) rfl)
  | completeUnary call index bOk =>
      exact hother (@hserver (.completeUnary call index bOk) rfl)
  | finishCall sent bOk final => exact hother (h.finishCall sent bOk final)
  | _ => exact hother (h.of_same rfl rfl rfl)

/-- The calls that handlers receive in a run, in order. -/
def servedOf (events : List SyncEvent) : List ℕ :=
  observed step served {} events

theorem served_run (events : List SyncEvent) : Served (servedOf events) (run step {} events) := by
  unfold servedOf
  induction events using List.reverseRecOn with
  | nil => exact served_init
  | append_singleton before event ih =>
      rw [observed_concat, run_concat]
      exact ih.step (registered_server_run before) event

/-- Every call of `ExecuteBehavior` is broadcast at most once, in the order in which handlers
receive the calls; and its callback is made at most once, when the call is deleted. -/
structure ServesOnce (calls : List ℕ) (system : SyncSystem) : Prop where
  once : calls.Nodup
  /-- What a group has seen: the behaviors of its calls. -/
  log : ∀ groupId, system.server.groupLog groupId =
    calls.zipIdx.filterMap fun entry => (system.behaviorOf entry).bind fun sent =>
      if sent.1 = groupId then some sent.2 else none
  ids : calls.length < 2 ^ 31 →
    (system.server.broadcasts.map fun sent => sent.2.2.behaviorId).Nodup
  /-- A user is told of an answer only if the behavior has been broadcast. -/
  answered : ∀ (sent : ℕ) (value : SentCall), system.sentCalls[sent]? = some value →
    value.call.callbacks.length = (if value.call.deleted then 1 else 0) ∧
      ∀ status ∈ value.call.callbacks, status.errorCode = 0 → sent ∈ calls

/-- The ids of the broadcasts, in order. -/
theorem Served.ids_eq (h : Served calls system) :
    (system.server.broadcasts.map fun sent => sent.2.2.behaviorId) =
      (List.range' 0 calls.length).map behaviorIdOf := by
  have hentry : ∀ entry ∈ calls.zipIdx,
      (system.behaviorOf entry).map (fun sent => sent.2.behaviorId) =
        some (behaviorIdOf entry.2) := by
    intro entry hmem
    obtain ⟨value, hvalue, -⟩ := (h.received entry.1).mp (List.fst_mem_of_mem_zipIdx hmem)
    rw [behaviorOf, hvalue]
    rfl
  refine List.map_injective_iff.mpr (fun _ _ => Option.some.inj) ?_
  calc (system.server.broadcasts.map fun sent => sent.2.2.behaviorId).map some
      = (system.server.broadcasts.map fun sent => some sent.2).map
          (Option.map fun sent => sent.2.behaviorId) := by
        rw [List.map_map, List.map_map]
        rfl
    _ = calls.zipIdx.map fun entry => some (behaviorIdOf entry.2) := by
        rw [h.broadcasts, List.map_map]
        exact List.map_congr_left hentry
    _ = ((List.range' 0 calls.length).map behaviorIdOf).map some := by
        rw [← List.zipIdx_map_snd 0 calls, List.map_map, List.map_map]
        rfl

theorem Served.servesOnce (h : Served calls system) : ServesOnce calls system := by
  refine ⟨h.once, fun groupId => ?_, fun hfew => ?_, fun sent value hvalue => ?_⟩
  · calc system.server.groupLog groupId
        = (system.server.broadcasts.map fun sent => some sent.2).filterMap fun sent =>
            sent.bind fun sent => if sent.1 = groupId then some sent.2 else none := by
          rw [groupLog, ofTopic, List.filterMap_map, List.filterMap_map]
          rfl
      _ = calls.zipIdx.filterMap fun entry => (system.behaviorOf entry).bind fun sent =>
            if sent.1 = groupId then some sent.2 else none := by
          rw [h.broadcasts, List.filterMap_map]
          rfl
  · rw [h.ids_eq]
    refine List.Nodup.map_on ?_ (List.nodup_range' 1)
    intro m hm n hn hsame
    rw [List.mem_range'_1] at hm hn
    exact behaviorIdOf_injective (by omega) (by omega) hsame
  · rcases h.phases value (List.mem_of_getElem? hvalue) with
      ⟨-, hcallbacks, hdeleted⟩ | ⟨-, hdeleted, status, hcallbacks, hanswered⟩
    · simp [hcallbacks, hdeleted]
    · rw [hcallbacks, hdeleted]
      refine ⟨rfl, fun other hother hzero => ?_⟩
      obtain rfl := List.mem_singleton.mp hother
      exact (h.received sent).mpr ⟨value, hvalue, hanswered hzero⟩

/-- **Every call is served at most once.**  The server runs one `Proceed` after the other, so that
its counter is never incremented by two workers at a time.  Whatever else happens between the
clients and the server, the groups see the behaviors of the calls that handlers have received,
each once and under an id of its own below 2^31 calls, and no client is told of an answer whose
behavior no group has seen. -/
theorem behaviors_served_once (events : List SyncEvent) :
    ServesOnce (servedOf events) (run step {} events) :=
  (served_run events).servesOnce

end SyncSystem

end HktBase.Grpc
