import HktBase.Grpc.Listing
import HktBase.Grpc.Registry
import HktBase.Grpc.UnaryCall

/-!
# Isolation of the groups

A client names a group by a 64-bit number, which the messages carry in a 32-bit field, so
that the service takes two groups for one where the numbers agree in their lower half.

`Registered` says what holds in every state of the server: a group lists a session at most
once, and only under the number, cut to 32 bits, for which a client has opened it.  What a
broadcast reaches is then decided by the numbers of the sessions that are still listed:
`groups_isolated_iff`.
-/

namespace HktBase.Grpc

open Transition

/-! ## Handlers -/

/-- A handler waits for a request or for its answer to be sent, and a deleted one has no
operation. -/
def UnaryCall.InPhase (call : UnaryCall) : Prop :=
  match call.handler with
  | none => call.outstanding = []
  | some handler =>
      (handler.status = .process ∧ call.outstanding = [.request]) ∨
        (handler.status = .finish ∧ call.outstanding = [.finish])

namespace RpcServer

variable {server : RpcServer}

/-- The packet that the server broadcasts for its next request. -/
def nextPacket (request : BehaviorRequest) (server : RpcServer) : BehaviorPacket :=
  { request.packet with behaviorId := (server.nextBehaviorId + 1).toInt64 }

/-- Every handler is in one of its phases. -/
def HandlersInPhase (server : RpcServer) : Prop :=
  ∀ (call : ℕ) (value : UnaryCall), server.unaryCalls[call]? = some value → value.InPhase

theorem HandlersInPhase.setUnaryCall (h : server.HandlersInPhase) (call : ℕ) {value : UnaryCall}
    (hvalue : value.InPhase) : (server.setUnaryCall call value).HandlersInPhase := by
  intro other found hfound
  rw [RpcServer.setUnaryCall] at hfound
  rcases List.mem_or_eq_of_mem_set (List.mem_of_getElem? hfound) with hmem | rfl
  · obtain ⟨index, hindex⟩ := List.mem_iff_getElem?.mp hmem
    exact h index found hindex
  · exact hvalue

theorem HandlersInPhase.newUnaryCall (h : server.HandlersInPhase) :
    server.newUnaryCall.HandlersInPhase := by
  intro call value hvalue
  rw [RpcServer.newUnaryCall] at hvalue
  rcases List.mem_append.mp (List.mem_of_getElem? hvalue) with hmem | hnew
  · obtain ⟨index, hindex⟩ := List.mem_iff_getElem?.mp hmem
    exact h index value hindex
  · obtain rfl := List.mem_singleton.mp hnew
    exact Or.inl ⟨rfl, rfl⟩

theorem eq_of_getElem?_singleton {only found : UnaryOperation} {index : ℕ}
    (h : [only][index]? = some found) : index = 0 ∧ only = found := by
  rw [List.getElem?_singleton] at h
  split at h
  · next hzero => exact ⟨hzero, Option.some.inj h⟩
  · simp at h

/-- What the completion of an operation of a handler does: nothing if there is no such
operation; the end of the handler; or the service of its request, for an operation that waits
for one and succeeds. -/
theorem HandlersInPhase.completeUnary_cases (h : server.HandlersInPhase) (call index : ℕ)
    (bOk : Bool) (request : BehaviorRequest) (order : VisitOrder UInt64 ℕ) :
    (server.unaryOperation call index = none ∧
        server.completeUnary call index bOk request order = server) ∨
      (∃ value : UnaryCall, value.outstanding = [] ∧
        server.completeUnary call index bOk request order = server.deleteUnaryCall call value ∧
          (server.unaryOperation call index = some .request → bOk = false)) ∨
      ∃ (value : UnaryCall) (handler : UnaryCallHandler), value.outstanding = [] ∧
        handler.request = request ∧ server.unaryOperation call index = some .request ∧
          server.completeUnary call index bOk request order =
            server.processRequest call value handler order := by
  unfold completeUnary unaryOperation
  cases hvalue : server.unaryCalls[call]? with
  | none => exact Or.inl ⟨rfl, rfl⟩
  | some value =>
      simp only [Option.bind_some]
      cases hoperation : value.outstanding[index]? with
      | none => exact Or.inl ⟨rfl, rfl⟩
      | some operation =>
          have hphase := h call value hvalue
          unfold UnaryCall.InPhase at hphase
          cases hhandler : value.handler with
          | none =>
              rw [hhandler] at hphase
              rw [hphase] at hoperation
              simp at hoperation
          | some handler =>
              rw [hhandler] at hphase
              rcases hphase with ⟨hstatus, houtstanding⟩ | ⟨hstatus, houtstanding⟩
              · rw [houtstanding] at hoperation
                obtain ⟨rfl, rfl⟩ := eq_of_getElem?_singleton hoperation
                have herase : value.outstanding.eraseIdx 0 = [] := by rw [houtstanding]; rfl
                cases bOk with
                | false =>
                    refine Or.inr (Or.inl ⟨{ handler := some { handler with request := request } },
                      rfl, ?_, fun _ => rfl⟩)
                    simp [proceed, herase]
                | true =>
                    refine Or.inr (Or.inr ⟨{ handler := some { handler with request := request } },
                      { handler with request := request }, rfl, rfl, rfl, ?_⟩)
                    simp [proceed, hstatus, herase]
              · rw [houtstanding] at hoperation
                obtain ⟨rfl, rfl⟩ := eq_of_getElem?_singleton hoperation
                refine Or.inr (Or.inl ⟨{ value with outstanding := [] }, rfl, ?_, by simp⟩)
                cases bOk <;> simp [proceed, hhandler, hstatus, houtstanding]

theorem HandlersInPhase.completeUnary (h : server.HandlersInPhase) (call index : ℕ) (bOk : Bool)
    (request : BehaviorRequest) (order : VisitOrder UInt64 ℕ) :
    (server.completeUnary call index bOk request order).HandlersInPhase := by
  rcases h.completeUnary_cases call index bOk request order with
    ⟨-, hsame⟩ | ⟨value, hvalue, hnext, -⟩ | ⟨value, handler, hvalue, -, -, hnext⟩
  · rwa [hsame]
  · rw [hnext]
    exact h.setUnaryCall call hvalue
  · rw [hnext]
    refine HandlersInPhase.setUnaryCall ?_ call (Or.inr ⟨rfl, ?_⟩)
    · exact h.newUnaryCall
    · rw [hvalue]
      rfl

/-! ## What is registered -/

/-- What holds in every state of the server, whatever has become of its sessions. -/
structure Registered (server : RpcServer) : Prop where
  handlers : server.HandlersInPhase
  awaits : server.service.SessionsAwait
  /-- A session is opened once, and has waited for its client until then. -/
  opened : ∀ session groupId, (session, groupId) ∈ server.opened →
    (∀ other, (session, other) ∈ server.opened → other = groupId) ∧
      ∃ value, server.service.sessions[session]? = some value ∧
        value.outstanding.count .connect = 0
  /-- A group lists what was opened for it. -/
  listed : ∀ groupId sessionId session, server.service.ListedAt groupId sessionId session →
    ∃ other, (session, other) ∈ server.opened ∧ other.toInt32 = groupId
  /-- A session is listed once. -/
  unique : ∀ groupId first second session, server.service.ListedAt groupId first session →
    server.service.ListedAt groupId second session → first = second

theorem registered_init : ({} : RpcServer).Registered where
  handlers := by simp [HandlersInPhase]
  awaits := by simp [RpcService.SessionsAwait]
  opened := by simp
  listed := by simp [RpcService.ListedAt]
  unique := by simp [RpcService.ListedAt]

/-- A step that opens no session and lists nothing new: what was opened is registered under the
same group behind it. -/
theorem Registered.of_keepsSessions (h : server.Registered) {next : RpcServer}
    (hhandlers : next.HandlersInPhase)
    (hsessions : RpcService.KeepsSessions server.service next.service)
    (hopened : next.opened = server.opened)
    (hlisted : ∀ groupId sessionId session, next.service.ListedAt groupId sessionId session →
      server.service.ListedAt groupId sessionId session) : next.Registered where
  handlers := hhandlers
  awaits := hsessions.awaits h.awaits
  opened session groupId hmem := by
    rw [hopened] at hmem ⊢
    obtain ⟨honce, value, hvalue, hcount⟩ := h.opened session groupId hmem
    obtain ⟨found, hfound, hle⟩ := hsessions.kept session value hvalue
    exact ⟨honce, found, hfound, by omega⟩
  listed groupId sessionId session hnext := by
    rw [hopened]
    exact h.listed groupId sessionId session (hlisted _ _ _ hnext)
  unique groupId first second session hfirst hsecond :=
    h.unique groupId first second session (hlisted _ _ _ hfirst) (hlisted _ _ _ hsecond)

theorem Registered.writesEach (h : server.Registered) (groupId : Int32) (packet : BehaviorPacket)
    (order : VisitOrder UInt64 ℕ) :
    RpcService.WritesEach packet (server.service.snapshot groupId order) server.service
      (server.service.broadcastToGroup groupId packet order) := by
  rw [RpcService.broadcastToGroup_eq]
  refine RpcService.writesEach_foldl packet _ (RpcService.nodup_snapshot order ?_) _
  exact fun first second pointer => h.unique groupId first second pointer

theorem Registered.completeUnary (h : server.Registered) (call index : ℕ) (bOk : Bool)
    (request : BehaviorRequest) (order : VisitOrder UInt64 ℕ) :
    (server.completeUnary call index bOk request order).Registered := by
  have hhandlers := h.handlers.completeUnary call index bOk request order
  revert hhandlers
  rcases h.handlers.completeUnary_cases call index bOk request order with
    ⟨-, hsame⟩ | ⟨value, -, hnext, -⟩ | ⟨value, handler, -, -, -, hnext⟩
  · rw [hsame]
    exact fun _ => h
  · rw [hnext]
    intro hhandlers
    exact h.of_keepsSessions hhandlers (.refl _) rfl fun _ _ _ => id
  · rw [hnext]
    intro hhandlers
    have hwrites := h.writesEach handler.request.groupId (server.nextPacket handler.request) order
    refine h.of_keepsSessions hhandlers hwrites.keepsSessions rfl fun groupId sessionId session => ?_
    rintro ⟨group, hgroup, hfind⟩
    exact ⟨group, hwrites.groups ▸ hgroup, hfind⟩

/-- A completion that brings no client. -/
theorem Registered.completeSession (h : server.Registered) (session index : ℕ) (bOk : Bool)
    (hclient : ¬ (server.operation session index = some .connect ∧ bOk = true)) :
    ({ server with service := server.service.complete session index bOk {} }).Registered := by
  refine h.of_keepsSessions h.handlers (RpcService.keepsSessions_complete ..) rfl
    fun groupId sessionId other hlisted => ?_
  rcases server.service.complete_cases session index bOk {} with
    ⟨-, hgroups⟩ | ⟨value, handler, operation, hvalue, hoperation, -, hcases⟩
  · obtain ⟨group, hgroup, hfind⟩ := hlisted
    exact ⟨group, hgroups ▸ hgroup, hfind⟩
  rcases hcases with ⟨-, hnext⟩ | ⟨rfl, rfl, -⟩ | ⟨-, -, hnext⟩
  · dsimp only at hlisted
    rw [hnext] at hlisted
    exact hlisted.of_destroyed
  · refine absurd ⟨?_, rfl⟩ hclient
    rw [RpcServer.operation, hvalue]
    exact hoperation
  · dsimp only at hlisted
    rw [hnext] at hlisted
    exact hlisted

theorem Registered.not_opened (h : server.Registered) {session index : ℕ}
    {value : StreamSession} (hvalue : server.service.sessions[session]? = some value)
    (hoperation : value.outstanding[index]? = some .connect) (groupId : Int64) :
    (session, groupId) ∉ server.opened := by
  intro hopened
  obtain ⟨-, found, hfound, hcount⟩ := h.opened session groupId hopened
  obtain rfl := Option.some.inj (hvalue.symm.trans hfound)
  have hpos := List.count_pos_iff.mpr (List.mem_of_getElem? hoperation)
  omega

/-- The client is there, and the group that it has asked for lists the session; the group that
the client meant is recorded at its full width. -/
theorem Registered.connect (h : server.Registered) {session index : ℕ} {value : StreamSession}
    {handler : StreamSessionHandler}
    (hvalue : server.service.sessions[session]? = some value)
    (hoperation : value.outstanding[index]? = some .connect)
    (hhandler : value.handler = some handler) (playerId groupId : Int64) :
    ({ server with
      service := server.service.complete session index true
        (StreamCall.syncGroup playerId groupId).request
      opened := server.opened ++ [(session, groupId)] }).Registered := by
  have hunopened := h.not_opened hvalue hoperation
  have hunlisted : ∀ other sessionId, ¬ server.service.ListedAt other sessionId session := by
    intro other sessionId hlisted
    obtain ⟨number, hnumber, -⟩ := h.listed other sessionId session hlisted
    exact hunopened number hnumber
  have hkeeps := server.service.keepsSessions_complete session index true
    (StreamCall.syncGroup playerId groupId).request
  have hlt : session < server.service.sessions.length := (List.getElem?_eq_some_iff.mp hvalue).1
  have hnext := RpcService.complete_connect hvalue hoperation hhandler
    (StreamCall.syncGroup playerId groupId).request
  have hlisted : ∀ other sessionId pointer, (server.service.complete session index true
      (StreamCall.syncGroup playerId groupId).request).ListedAt other sessionId pointer ↔
        if other = groupId.toInt32 ∧ sessionId = handler.sessionId then pointer = session
        else server.service.ListedAt other sessionId pointer :=
    fun _ _ _ => RpcService.listedAt_complete_connect hvalue hoperation hhandler _
  refine ⟨h.handlers, hkeeps.awaits h.awaits, ?_, ?_, ?_⟩
  · intro pointer number hmem
    rcases List.mem_append.mp hmem with hold | hnew
    · have hne : pointer ≠ session := fun hsame => hunopened number (hsame ▸ hold)
      obtain ⟨honce, before, hbefore, hcount⟩ := h.opened pointer number hold
      obtain ⟨after, hafter, hle⟩ := hkeeps.kept pointer before hbefore
      refine ⟨fun other hother => ?_, after, hafter, by omega⟩
      rcases List.mem_append.mp hother with hother | hother
      · exact honce other hother
      · obtain ⟨rfl, -⟩ : pointer = session ∧ other = groupId := by simpa using hother
        exact absurd rfl hne
    · obtain ⟨rfl, rfl⟩ : pointer = session ∧ number = groupId := by simpa using hnew
      refine ⟨fun other hother => ?_,
        value.complete index true (StreamCall.syncGroup playerId number).request, ?_, ?_⟩
      · rcases List.mem_append.mp hother with hother | hother
        · exact absurd hother (hunopened other)
        · obtain ⟨-, rfl⟩ : pointer = pointer ∧ other = number := by simpa using hother
          rfl
      · dsimp only
        rw [hnext]
        simp [RpcService.registerSession, RpcService.newSession, RpcService.setSession,
          List.getElem?_append_left, hlt]
      · exact (h.awaits pointer value hvalue).count_eq_zero hoperation true _
  · intro other sessionId pointer hfound
    rw [hlisted] at hfound
    split at hfound
    · next hkey =>
        obtain rfl := hfound
        exact ⟨groupId, by simp, hkey.1.symm⟩
    · obtain ⟨number, hnumber, hcut⟩ := h.listed other sessionId pointer hfound
      exact ⟨number, List.mem_append_left _ hnumber, hcut⟩
  · intro other first second pointer hfirst hsecond
    rw [hlisted] at hfirst hsecond
    split at hfirst
    · next hkey =>
        split at hsecond
        · next hkey' => rw [hkey.2, hkey'.2]
        · obtain rfl := hfirst
          exact absurd hsecond (hunlisted other second)
    · split at hsecond
      · obtain rfl := hsecond
        exact absurd hfirst (hunlisted other first)
      · exact h.unique other first second pointer hfirst hsecond

theorem Registered.step (h : server.Registered) (event : RpcEvent) :
    (server.step event).Registered := by
  cases event with
  | run =>
      exact h.of_keepsSessions h.handlers.newUnaryCall
        (RpcService.keepsSessions_newSession server.service) rfl fun _ _ _ => id
  | syncGroup session index playerId groupId =>
      simp only [RpcServer.step]
      split
      · next hconnect =>
          obtain ⟨value, hvalue, hoperation⟩ := Option.bind_eq_some_iff.mp hconnect
          cases hhandler : value.handler with
          | none =>
              -- the session is gone, and nobody opens it
              have hgone : server.service.handler session = none :=
                (RpcService.handler_eq hvalue).trans hhandler
              simp only [hgone, Option.isSome_none, Bool.false_eq_true, if_false, List.append_nil,
                RpcService.complete, hvalue, hoperation, hhandler]
              exact h.of_keepsSessions h.handlers (.of_sessions_eq rfl) rfl fun _ _ _ => id
          | some handler =>
              have hlive : server.service.handler session = some handler :=
                (RpcService.handler_eq hvalue).trans hhandler
              simp only [hlive, Option.isSome_some, if_true]
              exact h.connect hvalue hoperation hhandler playerId groupId
      · exact h
  | executeBehavior call index groupId packet order =>
      simp only [RpcServer.step]
      split
      · exact h.completeUnary ..
      · exact h
  | completeSession session index bOk =>
      simp only [RpcServer.step]
      split
      · exact h
      · next hclient => exact h.completeSession session index bOk hclient
  | completeUnary call index bOk =>
      simp only [RpcServer.step]
      split
      · exact h
      · exact h.completeUnary ..

theorem registered_run (events : List RpcEvent) : (run step {} events).Registered :=
  run_invariant registered_init (fun _ event h => h.step event) events

/-! ## Broadcasts of behaviors -/

/-- An `ExecuteBehavior` for a group that a handler receives is written to no session that
was opened for another group, nor through a pointer to a destroyed session, and is written
once to each session that was opened for the group and is registered. -/
def Isolates (server : RpcServer) : RpcEvent → Prop
  | .executeBehavior call index groupId requested order =>
      server.unaryOperation call index = some .request →
        let packet := server.nextPacket (behaviorRequest groupId requested)
        let next := server.step (.executeBehavior call index groupId requested order)
        next.service.danglingCalls = server.service.danglingCalls ∧
          (∀ session other, (session, other) ∈ server.opened → other ≠ groupId →
            next.service.sessions[session]? = server.service.sessions[session]?) ∧
          ∀ session, (session, groupId) ∈ server.opened →
            server.service.Lists groupId.toInt32 session →
              ∃ before after, server.service.sessions[session]? = some before ∧
                next.service.sessions[session]? = some after ∧
                  before.handler.isSome = true ∧ after.written = before.written ++ [packet]
  | _ => True

/-- An `ExecuteBehavior` for a group that a handler receives finds no session registered
that was opened for another number with the same lower half, and no registered session of
the group destroyed. -/
def NoCollision (server : RpcServer) : RpcEvent → Prop
  | .executeBehavior call index groupId _ _ =>
      server.unaryOperation call index = some .request →
        ∀ session other, (session, other) ∈ server.opened → other.toInt32 = groupId.toInt32 →
          server.service.Lists other.toInt32 session →
            other = groupId ∧ (server.service.handler session).isSome = true
  | _ => True

/-- The service after an `ExecuteBehavior` that a handler receives. -/
theorem Registered.service_executeBehavior (h : server.Registered) {call index : ℕ}
    (hrequest : server.unaryOperation call index = some .request) (groupId : Int64)
    (packet : Option BehaviorPacket) (order : VisitOrder UInt64 ℕ) :
    (server.step (.executeBehavior call index groupId packet order)).service =
      server.service.broadcastToGroup groupId.toInt32
        (server.nextPacket (behaviorRequest groupId packet)) order := by
  simp only [RpcServer.step, hrequest, if_true]
  rcases h.handlers.completeUnary_cases call index true
      (behaviorRequest groupId packet) order with
    ⟨hnone, -⟩ | ⟨value, -, -, hfails⟩ | ⟨value, handler, -, hhandler, -, hnext⟩
  · rw [hrequest] at hnone
    simp at hnone
  · simpa using hfails hrequest
  · have hgroup : handler.request.groupId = groupId.toInt32 := by
      rw [hhandler]
      rfl
    rw [hnext, ← hhandler, ← hgroup]
    rfl

theorem danglingCalls_eq_iff {packet : BehaviorPacket} {targets : List ℕ}
    {before after : RpcService} (h : RpcService.WritesEach packet targets before after) :
    after.danglingCalls = before.danglingCalls ↔
      ∀ session ∈ targets, (before.handler session).isSome = true := by
  rw [h.danglingCalls, List.append_right_eq_self, List.filter_eq_nil_iff]
  simp [Option.isSome_iff_ne_none]

/-- A target that is alive has the packet written to it. -/
theorem written_of_mem {packet : BehaviorPacket} {targets : List ℕ}
    {before after : RpcService} (h : RpcService.WritesEach packet targets before after)
    {session : ℕ} (hmem : session ∈ targets)
    (hlive : (before.handler session).isSome = true) :
    ∃ value next, before.sessions[session]? = some value ∧ after.sessions[session]? = some next ∧
      value.handler.isSome = true ∧ next.written = value.written ++ [packet] := by
  obtain ⟨handler, hhandler⟩ := Option.isSome_iff_exists.mp hlive
  obtain ⟨value, hvalue, hfound⟩ := Option.bind_eq_some_iff.mp hhandler
  refine ⟨value, _, hvalue, ?_, ?_, StreamSession.written_write hfound _⟩
  · rw [h.sessions, if_pos hmem, hvalue, Option.map_some]
  · rw [hfound]
    rfl

/-- A broadcast stays in its group exactly when no number collides: it goes to the sessions of
the narrowed number, and a session of another group is among them when its group narrows to the
same. -/
theorem Registered.isolates_iff (h : server.Registered) (event : RpcEvent) :
    server.Isolates event ↔ server.NoCollision event := by
  cases event with
  | executeBehavior call index groupId packet order =>
      unfold Isolates NoCollision
      refine imp_congr_right fun hrequest => ?_
      dsimp only
      rw [h.service_executeBehavior hrequest]
      have hwrites := h.writesEach groupId.toInt32
        (server.nextPacket (behaviorRequest groupId packet)) order
      have htarget : ∀ session, session ∈ server.service.snapshot groupId.toInt32 order ↔
          server.service.Lists groupId.toInt32 session := by
        intro session
        rw [RpcService.mem_snapshot, RpcService.lists_iff]
      constructor
      · intro ⟨hdangling, hothers, _⟩ session other hopened hcut hlists
        rw [hcut, ← htarget] at hlists
        -- a destroyed session in the snapshot is called through its pointer
        have hlive : (server.service.handler session).isSome = true :=
          (danglingCalls_eq_iff hwrites).mp hdangling session hlists
        refine ⟨?_, hlive⟩
        by_contra hne
        obtain ⟨value, next, hvalue, hnext, -, hwritten⟩ := written_of_mem hwrites hlists hlive
        obtain rfl : next = value := by
          rw [hothers session other hopened hne, hvalue] at hnext
          exact (Option.some.inj hnext).symm
        simp at hwritten
      · intro hnone
        have hlisted : ∀ session, session ∈ server.service.snapshot groupId.toInt32 order →
            (session, groupId) ∈ server.opened ∧
              (server.service.handler session).isSome = true := by
          intro session hmem
          obtain ⟨sessionId, hentry⟩ := RpcService.mem_snapshot.mp hmem
          obtain ⟨other, hopened, hcut⟩ := h.listed _ sessionId session hentry
          obtain ⟨rfl, hlive⟩ := hnone session other hopened hcut
            (hcut ▸ (htarget session).mp hmem)
          exact ⟨hopened, hlive⟩
        refine ⟨?_, ?_, ?_⟩
        · exact (danglingCalls_eq_iff hwrites).mpr fun session hmem => (hlisted session hmem).2
        · intro session other hopened hne
          rw [hwrites.sessions, if_neg]
          intro hmem
          exact hne ((h.opened session groupId (hlisted session hmem).1).1 other hopened)
        · intro session hopened hlists
          have hmem := (htarget session).mpr hlists
          exact written_of_mem hwrites hmem (hlisted session hmem).2
  | _ => exact Iff.rfl

/-- **When groups are isolated.**  In every run of the server, every `ExecuteBehavior` is
written to no session opened for another group and once to each session registered for its
own, exactly when none of them finds a session registered that was opened for another number
with the same lower 32 bits, or a destroyed session registered. -/
theorem groups_isolated_iff (events : List RpcEvent) :
    EveryStep step {} Isolates events ↔ EveryStep step {} NoCollision events := by
  apply everyStep_iff_of_invariant (P := Registered)
  · exact registered_init
  · exact fun server event h _ => h.step event
  · exact fun server event h => h.isolates_iff event

/-- A client opens a session for group 2^32, and a behavior is sent to group 0. -/
def collidingEvents : List RpcEvent :=
  [.run, .syncGroup 0 0 7 4294967296,
    .executeBehavior 0 0 0 (some (executePacket 9 3 [1])) .asStored]

/-- The behavior is written to the session of the other group. -/
theorem behavior_crosses_groups :
    ¬ EveryStep step {} Isolates collidingEvents ∧
      (run step {} collidingEvents).opened = [(0, 4294967296)] ∧
      ((run step {} collidingEvents).service.sessions[0]?.map StreamSession.written) =
        some [{ behaviorId := 1, ownerPlayerId := 9, behaviorTypeId := 3, payload := [1] }] := by
  have hopened : (run step {} collidingEvents).opened = [(0, 4294967296)] := by decide +kernel
  have hafter : ((run step {} collidingEvents).service.sessions[0]?.map StreamSession.written) =
      some [{ behaviorId := 1, ownerPlayerId := 9, behaviorTypeId := 3, payload := [1] }] := by
    decide +kernel
  refine ⟨fun h => ?_, hopened, hafter⟩
  have hbefore : ((run step {} (collidingEvents.take 2)).service.sessions[0]?.map
      StreamSession.written) = some [] := by
    decide +kernel
  obtain ⟨-, hothers, -⟩ := h (collidingEvents.take 2) _ [] rfl (by decide +kernel)
  have hsame := congrArg (Option.map StreamSession.written)
    (hothers 0 4294967296 (by decide +kernel) (by decide))
  have hrun : (run step {} collidingEvents).service.sessions[0]?.map StreamSession.written =
      (run step {} (collidingEvents.take 2)).service.sessions[0]?.map StreamSession.written :=
    hsame
  rw [hafter, hbefore] at hrun
  simp at hrun

end RpcServer

end HktBase.Grpc
