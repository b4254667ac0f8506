import HktBase.Library.Multicast
import HktBase.Grpc.WorkerSessions

/-!
# Broadcasts of several workers

A broadcast takes its snapshot under the lock of the group and writes to one session after
the other without it, so that broadcasts of different workers overlap.  As long as no call
goes through a pointer to a destroyed session, a session is passed every broadcast whose
snapshot lists it, once, and those that do not overlap in their order.  Two that overlap may
reach two sessions of one group in different orders; an example is at the end.

## Strategy

The workers are a system of multicasts (`Library/Multicast.lean`), of which the ledger is the
bookkeeping that the code does not do.

* **The ledger of a run.**  `multicast` says what a step is for the multicasts, and `ledgerOf`
  runs the ledger on what the steps of a run are; so the broadcasts of a run are numbered in
  the order of their snapshots.
* **The link.**  `Records` relates the ledger to the workers and the sessions: a worker that is
  in the loop of `TGroup::Broadcast` is in the multicast of its group and packet, with the
  rest of `TempSessions` ahead, and every session has been passed the packets of the numbers
  that the ledger gave it.  `Records.step` goes through the steps of a worker; that a snapshot
  has no session twice comes from `Keeps` (`WorkerSessions.lean`), and that a `Write` finds its
  session alive from the absence of dangling calls.
* **The result.**  `workers_deliver_once` then reads the order of delivery off the ledger.
-/

namespace HktBase.Grpc

open Transition Multicast

namespace RpcWorkers

variable {pool : RpcWorkers}

/-! ## The broadcasts of a run -/

/-- What a step is for the multicasts. -/
def multicast (pool : RpcWorkers) :
    WorkerEvent → Option (Multicast.Event ℕ ℕ (Int32 × BehaviorPacket))
  | .broadcast worker groupId packet order =>
      match pool.workers worker with
      | .next => some (.start worker (groupId, packet) (pool.service.snapshot groupId order))
      | _ => none
  | .advance worker =>
      match pool.workers worker with
      | .broadcast _ _ _ => some (.proceed worker)
      | _ => none
  | _ => none

/-- The broadcasts of a run, and what they have passed to the sessions. -/
def ledgerOf (events : List WorkerEvent) : Ledger ℕ ℕ (Int32 × BehaviorPacket) :=
  run Ledger.step {} (observed step multicast {} events)

theorem ledgerOf_append (before after : List WorkerEvent) :
    ledgerOf (before ++ after) =
      run Ledger.step (ledgerOf before) (observed step multicast (run step {} before) after) := by
  rw [ledgerOf, observed_append, run_append]
  rfl

theorem ledgerOf_concat (events : List WorkerEvent) (event : WorkerEvent) :
    ledgerOf (events ++ [event]) =
      run Ledger.step (ledgerOf events) ((run step {} events).multicast event).toList := by
  rw [ledgerOf, observed_concat, run_append]
  rfl

/-- The packets that a session was passed. -/
def packetsOf (ledger : Ledger ℕ ℕ (Int32 × BehaviorPacket)) (session : ℕ) :
    List BehaviorPacket :=
  (ledger.given session).filterMap fun number =>
    (ledger.begun[number]?).map fun cast => cast.message.2

/-! ## What the sessions were passed -/

/-- The packets that were passed to `Write`, and none before there is a session. -/
def writtenTo (service : RpcService) (session : ℕ) : List BehaviorPacket :=
  (service.sessions[session]?.map StreamSession.written).getD []

theorem writtenTo_of_sessions_eq {before after : RpcService}
    (hsessions : after.sessions = before.sessions) : writtenTo after = writtenTo before := by
  funext session
  rw [writtenTo, writtenTo, hsessions]

theorem writtenTo_newSession (service : RpcService) :
    writtenTo service.newSession = writtenTo service := by
  funext session
  rw [writtenTo, writtenTo, RpcService.newSession]
  rcases Nat.lt_or_ge session service.sessions.length with hlt | hge
  · rw [List.getElem?_append_left hlt]
  · rw [List.getElem?_append_right hge, List.getElem?_eq_none hge, List.getElem?_singleton]
    split <;> rfl

theorem writtenTo_setSession {service : RpcService} {session : ℕ} {value next : StreamSession}
    (hvalue : service.sessions[session]? = some value) (hwritten : next.written = value.written) :
    writtenTo (service.setSession session next) = writtenTo service := by
  have hlt : session < service.sessions.length := (List.getElem?_eq_some_iff.mp hvalue).1
  funext other
  rw [writtenTo, writtenTo, RpcService.setSession]
  by_cases hsame : session = other
  · subst hsame
    rw [List.getElem?_set_self hlt, hvalue]
    exact hwritten
  · rw [List.getElem?_set_ne hsame]

theorem writtenTo_complete {service : RpcService} {session index : ℕ} {value : StreamSession}
    {operation : AsyncOperation} {handler : StreamSessionHandler}
    (hvalue : service.sessions[session]? = some value)
    (hoperation : value.outstanding[index]? = some operation)
    (hhandler : value.handler = some handler) (request : SyncRequest) :
    writtenTo (service.complete session index true request) = writtenTo service := by
  have hset := writtenTo_setSession hvalue (value.written_complete index true request)
  cases operation with
  | connect =>
      rw [RpcService.complete_connect hvalue hoperation hhandler]
      exact (writtenTo_newSession _).trans hset
  | write response =>
      rw [RpcService.complete_write hvalue hoperation hhandler]
      exact hset

theorem writtenTo_deleteSession (session : ℕ) (service : RpcService) :
    writtenTo (deleteSession session service) = writtenTo service := by
  unfold deleteSession
  split
  · rfl
  · next value hvalue => exact writtenTo_setSession hvalue rfl

/-- A `Write` to a live session. -/
theorem writtenTo_writeSession {service : RpcService} {session : ℕ} {value : StreamSession}
    {handler : StreamSessionHandler} (hvalue : service.sessions[session]? = some value)
    (hhandler : value.handler = some handler) (packet : BehaviorPacket) (other : ℕ) :
    writtenTo (service.writeSession packet session) other =
      writtenTo service other ++ if other = session then [packet] else [] := by
  have hsessions := (RpcService.writesEach_writeSession packet service session).sessions other
  rw [writtenTo, writtenTo, hsessions]
  by_cases hsame : other = session
  · subst hsame
    rw [if_pos (List.mem_singleton_self _), if_pos rfl, hvalue]
    exact StreamSession.written_write hhandler packet
  · rw [if_neg (by simpa using hsame), if_neg hsame, List.append_nil]

/-! ## Sessions stay -/

theorem Acts.keepsSessions {next : RpcWorkers} (h : Acts pool next) :
    RpcService.KeepsSessions pool.service next.service := by
  cases h with
  | idle hsessions => exact .of_sessions_eq hsessions
  | run hservice =>
      rw [hservice]
      exact RpcService.keepsSessions_newSession _
  | complete session index value operation handler request hvalue hoperation hhandler hservice =>
      rw [hservice]
      exact RpcService.keepsSessions_complete _ session index true request
  | fail session index queue value handler hvalue hhandler hqueue hservice =>
      rw [hservice]
      exact sessions_fail hvalue handler
  | write worker session groupId packet rest hworker hservice =>
      rw [hservice]
      exact (RpcService.writesEach_writeSession packet pool.service session).keepsSessions
  | delete worker session hworker hservice =>
      rw [hservice]
      exact keepsSessions_deleteSession session _

theorem length_sessions_step (pool : RpcWorkers) (event : WorkerEvent) :
    pool.service.sessions.length ≤ (pool.step event).service.sessions.length := by
  have hkeeps := (acts_step pool event).keepsSessions
  by_contra hlt
  rw [not_le] at hlt
  obtain ⟨after, hafter, -⟩ := hkeeps.kept _ _ (List.getElem?_eq_getElem hlt)
  rw [List.getElem?_eq_none le_rfl] at hafter
  simp at hafter

theorem length_sessions_run (pool : RpcWorkers) (events : List WorkerEvent) :
    pool.service.sessions.length ≤ (run step pool events).service.sessions.length :=
  run_invariant (P := fun next : RpcWorkers =>
    pool.service.sessions.length ≤ next.service.sessions.length) le_rfl
    (fun next event h => h.trans (length_sessions_step next event)) events

theorem keeps_run {events : List WorkerEvent}
    (hfew : (run step {} events).service.sessions.length < 2 ^ 64) :
    (run step {} events).Keeps := by
  induction events using List.reverseRecOn with
  | nil => exact keeps_init
  | append_singleton before event ih =>
      rw [run_concat] at hfew ⊢
      have hle := length_sessions_step (run step {} before) event
      have hbefore : (run step {} before).service.sessions.length < 2 ^ 64 := by omega
      exact (ih hbefore).step hbefore event

/-! ## Calls through pointers -/

/-- No call through a pointer to a destroyed session is forgotten. -/
theorem danglingCalls_step (pool : RpcWorkers) (event : WorkerEvent) :
    pool.service.danglingCalls <+: (pool.step event).service.danglingCalls := by
  cases event with
  | run queue => exact List.prefix_rfl
  | complete session index bOk request =>
      simp only [RpcWorkers.step, RpcWorkers.complete]
      split
      · next queue value hqueue hvalue =>
          split
          · next operation handler hworker hoperation hhandler =>
              cases bOk with
              | false =>
                  simp only [Bool.false_eq_true, if_false, setWorker,
                    RpcService.danglingCalls_destroyed]
                  exact List.prefix_rfl
              | true =>
                  simp only [if_true]
                  cases operation with
                  | connect =>
                      rw [RpcService.complete_connect hvalue hoperation hhandler]
                      exact List.prefix_rfl
                  | write response =>
                      rw [RpcService.complete_write hvalue hoperation hhandler]
                      exact List.prefix_rfl
          · exact List.prefix_append ..
          · exact List.prefix_rfl
      · exact List.prefix_rfl
  | broadcast worker groupId packet order =>
      simp only [RpcWorkers.step, beginBroadcast]
      split <;> exact List.prefix_rfl
  | advance worker =>
      simp only [RpcWorkers.step, advance]
      split
      · exact List.prefix_rfl
      · exact List.prefix_rfl
      · next groupId packet session rest _ =>
          have hcalls := (RpcService.writesEach_writeSession packet pool.service
            session).danglingCalls
          simp only [setWorker, hcalls]
          exact List.prefix_append ..
      · next session _ =>
          simp only [setWorker, deleteSession]
          split <;> exact List.prefix_rfl

/-- A `Write` that leaves no such call finds its session alive. -/
theorem live_of_danglingCalls {packet : BehaviorPacket} {session : ℕ}
    (h : (pool.service.writeSession packet session).danglingCalls = []) :
    ∃ value handler, pool.service.sessions[session]? = some value ∧
      value.handler = some handler := by
  rw [(RpcService.writesEach_writeSession packet pool.service session).danglingCalls,
    List.append_eq_nil_iff] at h
  cases hhandler : pool.service.handler session with
  | none => simp [hhandler] at h
  | some handler =>
      obtain ⟨value, hvalue, hfound⟩ := Option.bind_eq_some_iff.mp hhandler
      exact ⟨value, handler, hvalue, hfound⟩

theorem danglingCalls_run (pool : RpcWorkers) (events : List WorkerEvent) :
    pool.service.danglingCalls <+: (run step pool events).service.danglingCalls :=
  run_invariant (P := fun next : RpcWorkers =>
    pool.service.danglingCalls <+: next.service.danglingCalls) List.prefix_rfl
    (fun next event h => h.trans (danglingCalls_step next event)) events

/-! ## The ledger and the workers -/

section

variable {ledger : Ledger ℕ ℕ (Int32 × BehaviorPacket)}

/-- A worker that is in the loop of a broadcast is in the multicast of its group and packet,
with the same sessions ahead. -/
def Follows (ledger : Ledger ℕ ℕ (Int32 × BehaviorPacket)) (worker : ℕ) : WorkerState → Prop
  | .broadcast groupId packet sessions =>
      ∃ number cast, ledger.current worker = some (number, sessions) ∧
        ledger.begun[number]? = some cast ∧ cast.message = (groupId, packet)
  | .next => ledger.current worker = none
  | .delete _ => ledger.current worker = none

/-- The workers are where the ledger says, and the sessions have been passed what it says. -/
structure Records (ledger : Ledger ℕ ℕ (Int32 × BehaviorPacket)) (pool : RpcWorkers) : Prop where
  sound : ledger.Sound
  workers : ∀ worker, Follows ledger worker (pool.workers worker)
  written : ∀ session, writtenTo pool.service session = packetsOf ledger session

theorem records_init : Records {} {} where
  sound := Ledger.sound_init
  workers _ := rfl
  written _ := rfl

/-- The multicasts stay as they are: nothing is written, and a worker that is in a broadcast
goes on with it. -/
theorem Records.of_same (h : Records ledger pool) {next : RpcWorkers}
    (hwritten : writtenTo next.service = writtenTo pool.service)
    (hworkers : ∀ worker, next.workers worker = pool.workers worker ∨
      ledger.current worker = none ∧
        (next.workers worker = .next ∨ ∃ session, next.workers worker = .delete session)) :
    Records ledger next where
  sound := h.sound
  workers worker := by
    rcases hworkers worker with hsame | ⟨hnone, hnext | ⟨session, hdelete⟩⟩
    · rw [hsame]
      exact h.workers worker
    · rw [hnext]
      exact hnone
    · rw [hdelete]
      exact hnone
  written session := by rw [hwritten, h.written]

/-- What has been given is of multicasts that have begun, and more of them change nothing. -/
theorem packetsOf_begun (h : ledger.Sound) (more : List (Cast ℕ (Int32 × BehaviorPacket)))
    (current : ℕ → Option (ℕ × List ℕ)) (session : ℕ) :
    packetsOf { ledger with begun := ledger.begun ++ more, current := current } session =
      packetsOf ledger session := by
  unfold packetsOf
  refine List.filterMap_congr fun number hgiven => ?_
  rw [List.getElem?_append_left (h.lt_of_given hgiven)]

/-- A worker takes the snapshot of a broadcast: the multicast of the ledger begins, with the
sessions of the snapshot as its targets. -/
theorem Records.start (h : Records ledger pool) (hkeeps : pool.Keeps) {worker : ℕ}
    (hworker : pool.workers worker = .next) (groupId : Int32) (packet : BehaviorPacket)
    (order : VisitOrder UInt64 ℕ) :
    Records (ledger.start worker (groupId, packet) (pool.service.snapshot groupId order))
      (pool.setWorker worker
        (.broadcast groupId packet (pool.service.snapshot groupId order))) := by
  have hnone : ledger.current worker = none := by
    have hfollows := h.workers worker
    rwa [hworker] at hfollows
  have hsound := h.sound.start worker (groupId, packet)
    (hkeeps.once.nodup_snapshot groupId order)
  rw [Ledger.start_of_none hnone] at hsound ⊢
  refine ⟨hsound, fun other => ?_, fun session => ?_⟩
  · rw [workers_setWorker]
    split
    · next hsame =>
        subst hsame
        exact ⟨_, _, Function.update_self .., List.getElem?_concat_length, rfl⟩
    · next hne =>
        have hfollows := h.workers other
        cases hstate : pool.workers other with
        | broadcast otherGroup otherPacket sessions =>
            rw [hstate] at hfollows
            obtain ⟨number, cast, hcurrent, hcast, hmessage⟩ := hfollows
            refine ⟨number, cast, ?_, ?_, hmessage⟩
            · exact (Function.update_of_ne hne ..).trans hcurrent
            · dsimp only
              rw [List.getElem?_append_left (List.getElem?_eq_some_iff.mp hcast).1, hcast]
        | next =>
            rw [hstate] at hfollows
            exact (Function.update_of_ne hne ..).trans hfollows
        | delete session =>
            rw [hstate] at hfollows
            exact (Function.update_of_ne hne ..).trans hfollows
  · rw [packetsOf_begun h.sound]
    exact h.written session

/-- Another worker goes on, and this one stays where it is. -/
theorem Follows.update {worker other : ℕ} (hne : other ≠ worker)
    {given : ℕ → List ℕ} {state : Option (ℕ × List ℕ)} {workerState : WorkerState}
    (h : Follows ledger other workerState) :
    Follows { ledger with
      current := Function.update ledger.current worker state
      given := given } other workerState := by
  cases workerState with
  | broadcast groupId packet sessions =>
      obtain ⟨number, cast, hcurrent, hcast, hmessage⟩ := h
      exact ⟨number, cast, (Function.update_of_ne hne ..).trans hcurrent, hcast, hmessage⟩
  | next => exact (Function.update_of_ne hne ..).trans h
  | delete session => exact (Function.update_of_ne hne ..).trans h

/-- A worker leaves the loop of a broadcast. -/
theorem Records.leave (h : Records ledger pool) {worker : ℕ} {groupId : Int32}
    {packet : BehaviorPacket} (hworker : pool.workers worker = .broadcast groupId packet []) :
    Records (ledger.proceed worker) (pool.setWorker worker .next) := by
  have hfollows := h.workers worker
  rw [hworker] at hfollows
  obtain ⟨number, cast, hcurrent, -, -⟩ := hfollows
  have hsound := h.sound.proceed worker
  rw [Ledger.proceed_of_nil hcurrent] at hsound ⊢
  refine ⟨hsound, fun other => ?_, h.written⟩
  rw [workers_setWorker]
  split
  · next hsame =>
      subst hsame
      exact Function.update_self ..
  · next hne => exact (h.workers other).update hne

/-- A worker writes to the next session of its snapshot, which is alive: a write to a destroyed
session would reach nobody, and the ledger would count it all the same. -/
theorem Records.give (h : Records ledger pool) {worker session : ℕ} {groupId : Int32}
    {packet : BehaviorPacket} {rest : List ℕ}
    (hworker : pool.workers worker = .broadcast groupId packet (session :: rest))
    {value : StreamSession} {handler : StreamSessionHandler}
    (hvalue : pool.service.sessions[session]? = some value)
    (hhandler : value.handler = some handler) :
    Records (ledger.proceed worker)
      ({ pool with service := pool.service.writeSession packet session }.setWorker worker
        (.broadcast groupId packet rest)) := by
  have hfollows := h.workers worker
  rw [hworker] at hfollows
  obtain ⟨number, cast, hcurrent, hcast, hmessage⟩ := hfollows
  have hsound := h.sound.proceed worker
  rw [Ledger.proceed_of_cons hcurrent] at hsound ⊢
  refine ⟨hsound, fun other => ?_, fun other => ?_⟩
  · rw [workers_setWorker]
    split
    · next hsame =>
        subst hsame
        exact ⟨number, cast, Function.update_self .., hcast, hmessage⟩
    · next hne => exact (h.workers other).update hne
  · show writtenTo (pool.service.writeSession packet session) other = _
    rw [writtenTo_writeSession hvalue hhandler, h.written]
    unfold packetsOf
    dsimp only
    rw [Function.update_apply]
    split
    · next hsame =>
        subst hsame
        simp [List.filterMap_append, hcast, hmessage]
    · rw [List.append_nil]

/-- What a step does to the ledger it does to the workers, as long as no call is made to a
destroyed session. -/
theorem Records.step (h : Records ledger pool) (hkeeps : pool.Keeps) (event : WorkerEvent)
    (hsafe : (pool.step event).service.danglingCalls = []) :
    Records (run Ledger.step ledger (pool.multicast event).toList) (pool.step event) := by
  cases event with
  | run queue => exact h.of_same (writtenTo_newSession _) fun _ => Or.inl rfl
  | complete session index bOk request =>
      simp only [multicast, Option.toList_none, run_nil, RpcWorkers.step]
      rcases pool.complete_cases session index bOk request with
        ⟨calls, hnext⟩ | ⟨queue, value, operation, handler, -, hvalue, hworker, hoperation,
          hhandler, ⟨-, hnext⟩ | ⟨-, hnext⟩⟩
      · rw [hnext]
        exact h.of_same rfl fun _ => Or.inl rfl
      · rw [hnext]
        exact h.of_same (writtenTo_complete hvalue hoperation hhandler request) fun _ => Or.inl rfl
      · rw [hnext]
        refine h.of_same ?_ fun worker => ?_
        · have hsame : ({ value with
              outstanding := value.outstanding.eraseIdx index } : StreamSession).written =
            value.written := rfl
          exact (writtenTo_of_sessions_eq (RpcService.sessions_destroyed handler _)).trans
            (writtenTo_setSession hvalue hsame)
        · rw [workers_setWorker]
          split
          · next hsame =>
              -- the worker was in `Next`, and in no broadcast
              have hfollows := h.workers worker
              rw [hsame, hworker] at hfollows
              exact Or.inr ⟨hsame ▸ hfollows, Or.inr ⟨session, rfl⟩⟩
          · exact Or.inl rfl
  | broadcast worker groupId packet order =>
      simp only [multicast, RpcWorkers.step, beginBroadcast]
      cases hworker : pool.workers worker with
      | next => exact h.start hkeeps hworker groupId packet order
      | broadcast _ _ _ => exact h
      | delete _ => exact h
  | advance worker =>
      simp only [RpcWorkers.step, advance] at hsafe
      simp only [multicast, RpcWorkers.step, advance]
      cases hworker : pool.workers worker with
      | next => exact h
      | delete session =>
          refine h.of_same (writtenTo_deleteSession session _) fun other => ?_
          rw [workers_setWorker]
          split
          · next hsame =>
              have hfollows := h.workers other
              rw [hsame, hworker] at hfollows
              exact Or.inr ⟨hsame ▸ hfollows, Or.inl rfl⟩
          · exact Or.inl rfl
      | broadcast groupId packet sessions =>
          cases sessions with
          | nil => exact h.leave hworker
          | cons session rest =>
              rw [hworker] at hsafe
              obtain ⟨value, handler, hvalue, hhandler⟩ := live_of_danglingCalls hsafe
              exact h.give hworker hvalue hhandler

end

theorem records_run {events : List WorkerEvent}
    (hfew : (run step {} events).service.sessions.length < 2 ^ 64)
    (hsafe : (run step {} events).service.danglingCalls = []) :
    Records (ledgerOf events) (run step {} events) := by
  induction events using List.reverseRecOn with
  | nil => exact records_init
  | append_singleton before event ih =>
      rw [run_concat] at hfew hsafe
      have hle := length_sessions_step (run step {} before) event
      have hbefore : (run step {} before).service.sessions.length < 2 ^ 64 := by omega
      have hcalls : (run step {} before).service.danglingCalls = [] := by
        have hkept := danglingCalls_step (run step {} before) event
        rw [hsafe] at hkept
        exact List.prefix_nil.mp hkept
      rw [ledgerOf_concat, run_concat]
      exact (ih hbefore hcalls).step (keeps_run hbefore) event hsafe

/-! ## What several workers deliver -/

/-- What the sessions are passed in a run of several workers, the broadcasts being numbered in
the order of their snapshots. -/
structure DeliversOnce (events : List WorkerEvent) : Prop where
  /-- The snapshot of a group other than -1 is who has joined it and is not being deleted. -/
  targets : ∀ before worker groupId packet order after,
    events = before ++ .broadcast worker groupId packet order :: after →
    (run step {} before).workers worker = .next → groupId ≠ -1 →
      ∃ cast, (ledgerOf events).begun[(ledgerOf before).begun.length]? = some cast ∧
        cast.message = (groupId, packet) ∧
        ∀ session, session ∈ cast.targets ↔ (run step {} before).Joined groupId session
  /-- The ledger is where the workers are. -/
  workers : ∀ worker, Follows (ledgerOf events) worker ((run step {} events).workers worker)
  /-- A session is passed a broadcast that lists it, unless it is ahead of the worker. -/
  given : ∀ number session, number ∈ (ledgerOf events).given session ↔
    (∃ cast, (ledgerOf events).begun[number]? = some cast ∧ session ∈ cast.targets) ∧
      ¬ (ledgerOf events).Ahead number session
  once : ∀ session, ((ledgerOf events).given session).Nodup
  /-- A broadcast that has ended is passed before every one that begins later. -/
  order : ∀ before after first second, events = before ++ after →
    (ledgerOf before).Ended first → (ledgerOf before).begun.length ≤ second →
      ∀ session, Precedes first second ((ledgerOf events).given session)
  /-- What was given is what was passed to `Write`, and a live session relays it. -/
  written : ∀ (session : ℕ) (value : StreamSession),
    (run step {} events).service.sessions[session]? = some value →
      value.written = packetsOf (ledgerOf events) session ∧
        ∀ handler, value.handler = some handler → value.Relays handler

variable {events : List WorkerEvent}

/-- What a run has observed is in order for the ledger: no snapshot lists a session twice, since
a live session is listed under one group and one id. -/
theorem distinct_observed (h : pool.Keeps)
    (hfew : (run step pool events).service.sessions.length < 2 ^ 64) :
    ∀ event ∈ observed step multicast pool events, event.Distinct := by
  induction events generalizing pool with
  | nil => simp [observed]
  | cons first rest ih =>
      have hle := length_sessions_run (pool.step first) rest
      have hstep := length_sessions_step pool first
      have hlater : (run step (pool.step first) rest).service.sessions.length < 2 ^ 64 := hfew
      have hnext := h.step (by omega) first
      intro event hevent
      rw [observed, List.mem_append] at hevent
      rcases hevent with hfirst | hrest
      · rw [Option.mem_toList] at hfirst
        cases first with
        | broadcast worker groupId packet order =>
            simp only [multicast] at hfirst
            split at hfirst
            · obtain rfl := Option.some.inj hfirst
              exact h.once.nodup_snapshot groupId order
            · simp at hfirst
        | advance worker =>
            simp only [multicast] at hfirst
            split at hfirst
            · obtain rfl := Option.some.inj hfirst
              exact trivial
            · simp at hfirst
        | run queue => simp [multicast] at hfirst
        | complete session index bOk request => simp [multicast] at hfirst
      · exact ih hnext hlater event hrest

/-- The run up to some point is as good as the whole run. -/
theorem prefix_of_run {before after : List WorkerEvent} (hsplit : events = before ++ after)
    (hfew : (run step {} events).service.sessions.length < 2 ^ 64)
    (hsafe : (run step {} events).service.danglingCalls = []) :
    (run step {} before).service.sessions.length < 2 ^ 64 ∧
      (run step {} before).service.danglingCalls = [] := by
  rw [hsplit, run_append] at hfew hsafe
  have hle := length_sessions_run (run step {} before) after
  have hkept := danglingCalls_run (run step {} before) after
  rw [hsafe] at hkept
  exact ⟨by omega, List.prefix_nil.mp hkept⟩

/-- **What several workers deliver.**  Whatever the order in which the workers take their
locks, with fewer than 2^64 sessions and as long as no call goes through a pointer to a
destroyed session. -/
theorem workers_deliver_once {events : List WorkerEvent}
    (hfew : (run step {} events).service.sessions.length < 2 ^ 64)
    (hsafe : (run step {} events).service.danglingCalls = []) : DeliversOnce events := by
  have hrecords := records_run hfew hsafe
  constructor
  · intro before worker groupId packet order after hsplit hworker hgroup
    obtain ⟨hfewBefore, -⟩ := prefix_of_run hsplit hfew hsafe
    have hcurrent : (ledgerOf before).current worker = none := by
      have hfollows := (records_run hfewBefore
        (prefix_of_run hsplit hfew hsafe).2).workers worker
      rwa [hworker] at hfollows
    refine ⟨⟨(groupId, packet), (run step {} before).service.snapshot groupId order⟩, ?_, rfl,
      (keeps_run hfewBefore).mem_snapshot_iff hgroup order⟩
    -- the new multicast is the last one, and stays where it is
    have hbegun : (ledgerOf (before ++ [.broadcast worker groupId packet order])).begun =
        (ledgerOf before).begun ++
          [⟨(groupId, packet), (run step {} before).service.snapshot groupId order⟩] := by
      rw [ledgerOf_concat]
      simp only [multicast, hworker, Option.toList_some]
      show ((ledgerOf before).start worker _ _).begun = _
      rw [Ledger.start_of_none hcurrent]
    have hwhole : events = (before ++ [.broadcast worker groupId packet order]) ++ after := by
      rw [hsplit, List.append_assoc, List.singleton_append]
    obtain ⟨more, hmore⟩ := (Ledger.prefix_run
      (ledgerOf (before ++ [.broadcast worker groupId packet order]))
      (observed step multicast
        (run step {} (before ++ [.broadcast worker groupId packet order])) after) 0).1
    rw [hwhole, ledgerOf_append, ← hmore, hbegun, List.append_assoc,
      List.getElem?_append_right le_rfl, Nat.sub_self]
    rfl
  · exact hrecords.workers
  · exact hrecords.sound.given
  · exact hrecords.sound.once
  · intro before after first second hsplit hended hlater session
    obtain ⟨hfewBefore, hsafeBefore⟩ := prefix_of_run hsplit hfew hsafe
    have hsound := (records_run hfewBefore hsafeBefore).sound
    have hmore : (run step (run step {} before) after).service.sessions.length < 2 ^ 64 := by
      rwa [hsplit, run_append] at hfew
    have hdistinct := distinct_observed (keeps_run hfewBefore) hmore
    rw [hsplit, ledgerOf_append]
    exact Ledger.precedes_of_ended hsound hdistinct hended hlater session
  · intro session value hvalue
    refine ⟨?_, fun handler hhandler => ?_⟩
    · rw [← hrecords.written session, writtenTo, hvalue]
      rfl
    · exact ((keeps_run hfew).relay.live session value handler hvalue hhandler).2

/-- Two clients join group 5 on two queues, and a behavior is broadcast by each worker while
the other one is in its loop. -/
def overlapping : List WorkerEvent :=
  [.run 0, .run 1, .complete 0 0 true ⟨7, 5⟩, .complete 1 0 true ⟨8, 5⟩,
    .broadcast 0 5 { behaviorId := 1 } .asStored, .broadcast 1 5 { behaviorId := 2 } .asStored,
    .advance 0, .advance 1, .advance 1, .advance 0, .advance 0, .advance 1]

theorem workers_deliver_once_overlapping : DeliversOnce overlapping :=
  workers_deliver_once (by decide +kernel) (by decide +kernel)

/-- The two sessions see the two behaviors in different orders. -/
example : (ledgerOf overlapping).given 0 = [0, 1] ∧ (ledgerOf overlapping).given 1 = [1, 0] := by
  decide +kernel

end RpcWorkers

end HktBase.Grpc
