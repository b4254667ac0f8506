import HktBase.Library.Run
import HktBase.Grpc.Messages

/-!
# Stream sessions

`FStreamSessionHandler` and the asynchronous operations it starts.  At first the handler
waits for a client.  From then on `Write` queues a message, and starts the operation that
writes it if none is going on; the completion of the operation takes the message off the
queue and starts the next one.  An operation that fails destroys the handler.

A session is a handler together with its operations that have not completed.  It also
records, for the statements only, which packets were passed to `Write` and which messages
were written.  The operations complete in any order.

`InOrder` says how handler, operations and records belong together, by whether the handler is
alive (`inOrder_of_some`, `inOrder_of_none`).  `InOrder.write` and `InOrder.complete` are its
steps, and `written_run` relates the record of the packets to the calls.
-/

namespace HktBase.Grpc

open Transition

/-! ## The handler -/

/-- `FStreamSessionHandler`. -/
structure StreamSessionHandler where
  sessionId : UInt64
  groupId : Int32 := -1
  request : SyncRequest := {}
  outgoingMessages : List SyncResponse := []
  bIsWriting : Bool := false
  deriving DecidableEq

namespace StreamSessionHandler

/-- `Write`, with the message whose writing it starts. -/
def write (packet : BehaviorPacket) (handler : StreamSessionHandler) :
    StreamSessionHandler × Option SyncResponse :=
  let response := createResponseFromPacket packet
  let handler := { handler with outgoingMessages := handler.outgoingMessages ++ [response] }
  if handler.bIsWriting then (handler, none)
  else ({ handler with bIsWriting := true }, handler.outgoingMessages.head?)

/-- `FConnectOperation::Execute`, as far as it concerns the handler: the library has
filled in the request of the client. -/
def executeConnect (request : SyncRequest) (handler : StreamSessionHandler) :
    StreamSessionHandler :=
  { handler with request := request, groupId := request.groupId }

/-- `FWriteOperation::Execute`, with the message whose writing it starts. -/
def executeWrite (handler : StreamSessionHandler) : StreamSessionHandler × Option SyncResponse :=
  let handler := { handler with outgoingMessages := handler.outgoingMessages.tail }
  match handler.outgoingMessages with
  | [] => ({ handler with bIsWriting := false }, none)
  | front :: _ => (handler, some front)

end StreamSessionHandler

/-! ## The session -/

/-- An operation that the library has accepted and not completed: an `FConnectOperation`,
or an `FWriteOperation` with the message of its `Writer.Write`. -/
inductive AsyncOperation
  | connect
  | write (response : SyncResponse)
  deriving DecidableEq

/-- A handler, or nothing where it has been destroyed, and its operations. -/
structure StreamSession where
  handler : Option StreamSessionHandler
  outstanding : List AsyncOperation := []
  /-- The packets passed to `Write`. -/
  written : List BehaviorPacket := []
  /-- The messages whose writing has completed. -/
  completed : List SyncResponse := []
  deriving DecidableEq

namespace StreamSession

/-- The constructor and `Start`. -/
def start (sessionId : UInt64) : StreamSession :=
  { handler := some { sessionId := sessionId }
    outstanding := [.connect] }

/-- `Writer.Write`. -/
def startWrite (message : Option SyncResponse) (session : StreamSession) : StreamSession :=
  match message with
  | none => session
  | some message => { session with outstanding := session.outstanding ++ [.write message] }

/-- `Write`, on a session that has not been destroyed. -/
def write (packet : BehaviorPacket) (session : StreamSession) : StreamSession :=
  match session.handler with
  | none => session
  | some handler =>
      let (handler, message) := handler.write packet
      { session with
        handler := some handler
        written := session.written ++ [packet] }.startWrite message

/-- `FAsyncOperation::Proceed`, as far as it concerns the session. -/
def proceed (operation : AsyncOperation) (bOk : Bool) (request : SyncRequest)
    (session : StreamSession) : StreamSession :=
  match session.handler with
  | none => session
  | some handler =>
      if !bOk then { session with handler := none }
      else
        match operation with
        | .connect => { session with handler := some (handler.executeConnect request) }
        | .write response =>
            let (handler, message) := handler.executeWrite
            { session with
              handler := some handler
              completed := session.completed ++ [response] }.startWrite message

/-- The library completes one of the operations; `request` is what it has received if
the operation waits for a client. -/
def complete (index : ℕ) (bOk : Bool) (request : SyncRequest) (session : StreamSession) :
    StreamSession :=
  match session.outstanding[index]? with
  | none => session
  | some operation =>
      { session with outstanding := session.outstanding.eraseIdx index }.proceed operation bOk
        request

/-- A session whose client has connected. -/
def connected (sessionId : UInt64) (request : SyncRequest) : StreamSession :=
  (start sessionId).complete 0 true request

end StreamSession

/-- What happens to a connected session. -/
inductive SessionEvent
  | write (packet : BehaviorPacket)
  | complete (index : ℕ) (bOk : Bool)

/-- The packet that is passed to `Write`. -/
def SessionEvent.packet : SessionEvent → Option BehaviorPacket
  | .write packet => some packet
  | .complete _ _ => none

def StreamSession.step (session : StreamSession) : SessionEvent → StreamSession
  | .write packet => session.write packet
  | .complete index bOk => session.complete index bOk {}

/-! ## What becomes of the handler -/

namespace StreamSessionHandler

@[simp] theorem sessionId_write (packet : BehaviorPacket) (handler : StreamSessionHandler) :
    (handler.write packet).1.sessionId = handler.sessionId := by
  unfold write
  dsimp only
  split <;> rfl

@[simp] theorem groupId_write (packet : BehaviorPacket) (handler : StreamSessionHandler) :
    (handler.write packet).1.groupId = handler.groupId := by
  unfold write
  dsimp only
  split <;> rfl

@[simp] theorem sessionId_executeWrite (handler : StreamSessionHandler) :
    handler.executeWrite.1.sessionId = handler.sessionId := by
  unfold executeWrite
  dsimp only
  split <;> rfl

@[simp] theorem groupId_executeWrite (handler : StreamSessionHandler) :
    handler.executeWrite.1.groupId = handler.groupId := by
  unfold executeWrite
  dsimp only
  split <;> rfl

end StreamSessionHandler

namespace StreamSession

@[simp] theorem handler_startWrite (message : Option SyncResponse) (session : StreamSession) :
    (session.startWrite message).handler = session.handler := by
  cases message <;> rfl

variable {session : StreamSession} {handler : StreamSessionHandler}

theorem handler_write (hhandler : session.handler = some handler) (packet : BehaviorPacket) :
    (session.write packet).handler = some (handler.write packet).1 := by
  rw [write, hhandler]
  exact handler_startWrite ..

theorem handler_complete_false {index : ℕ} {operation : AsyncOperation}
    (hoperation : session.outstanding[index]? = some operation) (request : SyncRequest) :
    (session.complete index false request).handler = none := by
  rw [complete, hoperation]
  cases session.handler <;> simp [proceed]

theorem handler_complete_write {index : ℕ} {response : SyncResponse}
    (hoperation : session.outstanding[index]? = some (.write response))
    (hhandler : session.handler = some handler) (request : SyncRequest) :
    (session.complete index true request).handler = some handler.executeWrite.1 := by
  rw [complete, hoperation]
  simp [proceed, hhandler]

end StreamSession

/-! ## What has been passed to `Write` -/

namespace StreamSession

@[simp] theorem written_startWrite (message : Option SyncResponse) (session : StreamSession) :
    (session.startWrite message).written = session.written := by
  cases message <;> rfl

theorem write_of_none {session : StreamSession} (hhandler : session.handler = none)
    (packet : BehaviorPacket) : session.write packet = session := by
  rw [write, hhandler]

theorem written_write {session : StreamSession} {handler : StreamSessionHandler}
    (hhandler : session.handler = some handler) (packet : BehaviorPacket) :
    (session.write packet).written = session.written ++ [packet] := by
  rw [write, hhandler]
  exact written_startWrite ..

/-- No completion passes a packet to `Write`. -/
theorem written_complete (index : ℕ) (bOk : Bool) (request : SyncRequest)
    (session : StreamSession) :
    (session.complete index bOk request).written = session.written := by
  unfold complete
  split
  · rfl
  · unfold proceed
    dsimp only
    split
    · rfl
    · split
      · rfl
      · split
        · rfl
        · exact written_startWrite ..

/-- A handler that has been destroyed does not come back. -/
theorem handler_step_of_none {session : StreamSession} (hhandler : session.handler = none)
    (event : SessionEvent) : (session.step event).handler = none := by
  cases event with
  | write packet =>
      rw [step, write_of_none hhandler]
      exact hhandler
  | complete index bOk =>
      unfold step complete
      dsimp only
      split
      · exact hhandler
      · rw [proceed]
        simp [hhandler]

theorem written_step_of_none {session : StreamSession} (hhandler : session.handler = none)
    (event : SessionEvent) : (session.step event).written = session.written := by
  cases event with
  | write packet => rw [step, write_of_none hhandler]
  | complete index bOk => exact written_complete ..

theorem written_step_of_some {session : StreamSession} {handler : StreamSessionHandler}
    (hhandler : session.handler = some handler) (event : SessionEvent) :
    (session.step event).written = session.written ++ event.packet.toList := by
  cases event with
  | write packet => exact written_write hhandler packet
  | complete index bOk =>
      rw [SessionEvent.packet, Option.toList_none, List.append_nil]
      exact written_complete ..

/-- A session has been passed the packets of the calls of `Write`: all of them while its handler
lives, and those up to its destruction otherwise. -/
theorem written_run {init : StreamSession} (hinit : init.written = []) (events : List SessionEvent) :
    let session := run step init events
    session.written <+: events.filterMap SessionEvent.packet ∧
      (session.handler.isSome = true →
        session.written = events.filterMap SessionEvent.packet) := by
  intro session
  induction events using List.reverseRecOn with
  | nil => exact ⟨hinit ▸ List.nil_prefix, fun _ => hinit⟩
  | append_singleton before event ih =>
      obtain ⟨hbeginning, hlive⟩ := ih
      have hpackets : (before ++ [event]).filterMap SessionEvent.packet =
          before.filterMap SessionEvent.packet ++ event.packet.toList := by
        rw [List.filterMap_append]
        cases event <;> rfl
      have hafter : session = (run step init before).step event := run_concat before event
      rw [hafter, hpackets]
      cases hhandler : (run step init before).handler with
      | none =>
          -- a destroyed handler is passed nothing more
          rw [written_step_of_none hhandler, handler_step_of_none hhandler]
          exact ⟨hbeginning.trans (List.prefix_append _ _), by simp⟩
      | some handler =>
          have hall : ((run step init before).step event).written =
              before.filterMap SessionEvent.packet ++ event.packet.toList := by
            rw [written_step_of_some hhandler, hlive (by rw [hhandler]; rfl)]
          exact ⟨hall ▸ List.prefix_rfl, fun _ => hall⟩

end StreamSession

/-! ## The queue, the flag and the operation -/

namespace StreamSession

/-- The flag, the operations and the queue of a live handler tell the same, and the
messages written and those queued are the packets passed to `Write`. -/
structure InStep (session : StreamSession) (handler : StreamSessionHandler) : Prop where
  outstanding : session.outstanding = (handler.outgoingMessages.take 1).map .write
  bIsWriting : handler.bIsWriting = true ↔ handler.outgoingMessages ≠ []
  order : session.completed ++ handler.outgoingMessages =
    session.written.map createResponseFromPacket

/-- A live handler is in step with its operations, and a destroyed one has none. -/
def InOrder (session : StreamSession) : Prop :=
  match session.handler with
  | none => session.outstanding = []
  | some handler => session.InStep handler

theorem inOrder_of_some {session : StreamSession} {handler : StreamSessionHandler}
    (hhandler : session.handler = some handler) : session.InOrder ↔ session.InStep handler := by
  rw [InOrder, hhandler]

theorem inOrder_of_none {session : StreamSession} (hhandler : session.handler = none) :
    session.InOrder ↔ session.outstanding = [] := by
  rw [InOrder, hhandler]

theorem inOrder_connected (sessionId : UInt64) (request : SyncRequest) :
    (connected sessionId request).InOrder := by
  refine (inOrder_of_some rfl).mpr ⟨rfl, ?_, rfl⟩
  simp [StreamSessionHandler.executeConnect]

theorem inOrder_start_failed {sessionId : UInt64} {index : ℕ} {operation : AsyncOperation}
    (hoperation : (start sessionId).outstanding[index]? = some operation) (request : SyncRequest) :
    ((start sessionId).complete index false request).InOrder := by
  refine (inOrder_of_none (handler_complete_false hoperation request)).mpr ?_
  cases index with
  | zero => rfl
  | succ index => simp [start] at hoperation

theorem InOrder.write {session : StreamSession} (h : session.InOrder) (packet : BehaviorPacket) :
    (session.write packet).InOrder := by
  cases hhandler : session.handler with
  | none =>
      rw [StreamSession.write, hhandler]
      exact h
  | some handler =>
      obtain ⟨houtstanding, hwriting, horder⟩ := (inOrder_of_some hhandler).mp h
      rw [StreamSession.write, hhandler]
      cases hqueue : handler.outgoingMessages with
      | nil =>
          -- an empty queue means that no write is going on, so that this call starts one
          have hidle : handler.bIsWriting = false := by
            rw [Bool.eq_false_iff, ne_eq, hwriting, hqueue]
            simp
          rw [hqueue, List.append_nil] at horder
          simp only [StreamSessionHandler.write, hidle, hqueue, Bool.false_eq_true, if_false,
            List.nil_append, List.head?_cons, startWrite]
          refine (inOrder_of_some rfl).mpr ⟨?_, ?_, ?_⟩
          · simp [houtstanding, hqueue]
          · simp
          · simp [horder]
      | cons front rest =>
          -- a write is going on, and the message waits for it
          have hbusy : handler.bIsWriting = true := by
            rw [hwriting, hqueue]
            simp
          rw [hqueue] at houtstanding horder
          simp only [StreamSessionHandler.write, hbusy, hqueue, if_true, startWrite]
          refine (inOrder_of_some rfl).mpr ⟨?_, ?_, ?_⟩
          · simp [houtstanding]
          · simp
          · simp [← horder]

/-- A connected session starts writes only, one after the other: a completion is that of the
front of the queue, and it starts the write of the next message or leaves the session idle. -/
theorem InOrder.complete {session : StreamSession} (h : session.InOrder) (index : ℕ) (bOk : Bool)
    (request : SyncRequest) : (session.complete index bOk request).InOrder := by
  cases hoperation : session.outstanding[index]? with
  | none =>
      rw [StreamSession.complete, hoperation]
      exact h
  | some operation =>
      cases hhandler : session.handler with
      | none =>
          rw [(inOrder_of_none hhandler).mp h] at hoperation
          simp at hoperation
      | some handler =>
          obtain ⟨houtstanding, hwriting, horder⟩ := (inOrder_of_some hhandler).mp h
          rw [StreamSession.complete, hoperation]
          -- an operation is outstanding, so that the queue has a front, which it writes
          cases hqueue : handler.outgoingMessages with
          | nil =>
              rw [houtstanding, hqueue] at hoperation
              simp at hoperation
          | cons front rest =>
              rw [hqueue] at houtstanding horder
              rw [houtstanding] at hoperation
              obtain ⟨rfl, rfl⟩ : index = 0 ∧ operation = .write front := by
                cases index with
                | zero => simpa [eq_comm] using hoperation
                | succ index => simp at hoperation
              cases bOk with
              | false =>
                  simp only [proceed, hhandler, Bool.not_false, if_true]
                  refine (inOrder_of_none rfl).mpr ?_
                  simp [houtstanding]
              | true =>
                  simp only [proceed, hhandler, Bool.not_true, Bool.false_eq_true, if_false,
                    StreamSessionHandler.executeWrite, hqueue, List.tail_cons]
                  cases hrest : rest with
                  | nil =>
                      refine (inOrder_of_some rfl).mpr ⟨?_, ?_, ?_⟩
                      · simp [startWrite, houtstanding]
                      · simp
                      · simp [startWrite, ← horder, hrest]
                  | cons next later =>
                      refine (inOrder_of_some rfl).mpr ⟨?_, ?_, ?_⟩
                      · simp [startWrite, houtstanding]
                      · simp [hwriting, hqueue]
                      · simp [startWrite, ← horder, hrest]

/-- What is outstanding in a connected session is a write. -/
theorem InOrder.exists_write {session : StreamSession} (h : session.InOrder) {index : ℕ}
    {operation : AsyncOperation} (hoperation : session.outstanding[index]? = some operation) :
    ∃ response, operation = .write response := by
  have hmem := List.mem_of_getElem? hoperation
  cases hhandler : session.handler with
  | none =>
      rw [(inOrder_of_none hhandler).mp h] at hmem
      simp at hmem
  | some handler =>
      rw [((inOrder_of_some hhandler).mp h).outstanding] at hmem
      obtain ⟨response, -, rfl⟩ := List.mem_map.mp hmem
      exact ⟨response, rfl⟩

theorem InOrder.step {session : StreamSession} (h : session.InOrder) (event : SessionEvent) :
    (session.step event).InOrder := by
  cases event with
  | write packet => exact h.write packet
  | complete index bOk => exact h.complete index bOk {}

/-- **A session writes what it is given, in order.**  Whatever calls of `Write` and
completions a connected session meets: at most one operation is outstanding; while the
handler lives, `bIsWriting` holds exactly when one is, and exactly when messages are
queued, the operation writes the front of the queue, and the messages written followed by
those queued are the packets passed to `Write`, which are those of all the calls; and a destroyed
handler has no operation outstanding, and was passed the packets of the first calls. -/
theorem session_in_order (sessionId : UInt64) (request : SyncRequest)
    (events : List SessionEvent) :
    let session := run step (connected sessionId request) events
    session.outstanding.length ≤ 1 ∧
      (∀ handler, session.handler = some handler →
        (handler.bIsWriting = true ↔ session.outstanding.length = 1) ∧
        (handler.bIsWriting = true ↔ handler.outgoingMessages ≠ []) ∧
        (∀ operation ∈ session.outstanding, ∃ front,
          handler.outgoingMessages.head? = some front ∧ operation = .write front) ∧
        session.completed ++ handler.outgoingMessages =
          session.written.map createResponseFromPacket ∧
        session.written = events.filterMap SessionEvent.packet) ∧
      (session.handler = none → session.outstanding = []) ∧
      session.written <+: events.filterMap SessionEvent.packet := by
  intro session
  have h : session.InOrder := by
    apply run_invariant (P := InOrder)
    · exact inOrder_connected sessionId request
    · exact fun session event h => h.step event
  obtain ⟨hbeginning, hall⟩ := @written_run (connected sessionId request) rfl events
  cases hhandler : session.handler with
  | none =>
      have hnone := (inOrder_of_none hhandler).mp h
      exact ⟨by simp [hnone], by simp, fun _ => hnone, hbeginning⟩
  | some handler =>
      obtain ⟨houtstanding, hwriting, horder⟩ := (inOrder_of_some hhandler).mp h
      refine ⟨?_, ?_, by simp, hbeginning⟩
      · rw [houtstanding, List.length_map, List.length_take]
        omega
      · intro found hfound
        obtain rfl := Option.some.inj hfound
        refine ⟨?_, hwriting, ?_, horder, hall (by rw [hhandler]; rfl)⟩
        · rw [hwriting, houtstanding, List.length_map, List.length_take,
            ← List.length_pos_iff]
          omega
        · intro operation hmem
          rw [houtstanding] at hmem
          cases hqueue : handler.outgoingMessages with
          | nil => simp [hqueue] at hmem
          | cons front rest => exact ⟨front, rfl, by simpa [hqueue] using hmem⟩

end StreamSession

end HktBase.Grpc
