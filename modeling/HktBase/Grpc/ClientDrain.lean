import HktBase.Library.Workload
import HktBase.Grpc.CallDelivery

/-!
# The end of the calls

`FHktRpcProxy` keeps no list of its calls: a call lives on the operation it waits for, and
deletes itself with the last completion.  The loop of `ProcessResponses`, for which the
destructor waits, ends when no operation is left.

A completion that brings a message keeps a stream where it is, any other one takes the call
one step to its end: a stream ends after two of them, the failure of a `StartCall` or `Read`
and the `Finish` that it leads to, and a unary call after its only one.

## Strategy

* **One call.**  `left` counts the steps that are to come, which the phase of a call
  determines.  Each completion is looked at once (`left_startCall`, `left_readNext`,
  `left_endOfStream`, `left_finish`): it takes one step off, or none where it brings a message.
* **All calls.**  The same lemmas are used twice: for the sum over all calls
  (`InPhase.left_step`), from which it follows that the queue can be drained, and for one call
  at a time (`InPhase.streamLeft_step`, `callLeft_step`), where a call that has not been made
  yet counts as having all its steps to go.
* **Runs.**  `calls_end` balances what is left with the completions of the run, by the rules of
  `Library/Workload.lean`.
-/

namespace HktBase.Grpc

open Transition Workload

/-! ## What is left of a call -/

/-- The steps to the end of a stream that waits for the operation. -/
def ReaderOperation.left : ReaderOperation → ℕ
  | .startCall => 2
  | .read => 2
  | .finish => 1

namespace SyncCall

def left (sync : SyncCall) : ℕ := (sync.call.started.map ReaderOperation.left).sum

variable {sync : SyncCall}

theorem InPhase.left_eq_zero_iff (h : sync.InPhase) : sync.left = 0 ↔ sync.call.deleted = true := by
  cases h.phase with
  | created _ hstarted hdeleted => simp [left, hstarted, hdeleted, ReaderOperation.left]
  | reading _ hstarted hdeleted => simp [left, hstarted, hdeleted, ReaderOperation.left]
  | finishing _ hstarted hdeleted => simp [left, hstarted, hdeleted, ReaderOperation.left]
  | deleted _ _ hstarted hdeleted => simp [left, hstarted, hdeleted]

theorem InPhase.length_started (h : sync.InPhase) :
    sync.call.started.length = if sync.call.deleted then 0 else 1 := by
  cases h.phase with
  | created _ hstarted hdeleted => simp [hstarted, hdeleted]
  | reading _ hstarted hdeleted => simp [hstarted, hdeleted]
  | finishing _ hstarted hdeleted => simp [hstarted, hdeleted]
  | deleted _ _ hstarted hdeleted => simp [hstarted, hdeleted]

theorem left_completeReader_of_reading (hstate : sync.call.state = .reading)
    {operation : ReaderOperation} (hstarted : sync.call.started = [operation])
    (buffer : SyncResponse) : (sync.completeReader operation true buffer).left = 2 := by
  rw [completeReader_of_reading hstate]
  simp [left, hstarted, ReaderOperation.left]

theorem left_completeReader_of_reading_false (hstate : sync.call.state = .reading)
    {operation : ReaderOperation} (hstarted : sync.call.started = [operation])
    (buffer : SyncResponse) : (sync.completeReader operation false buffer).left = 1 := by
  rw [completeReader_of_reading_false hstate]
  simp [left, hstarted, ReaderOperation.left]

theorem InPhase.left_startCall (h : sync.InPhase) (bOk : Bool) :
    (sync.startCall bOk).left + (decide (sync.HasStarted .startCall) && !bOk).toNat =
      sync.left := by
  unfold SyncCall.startCall
  split
  · next hhas =>
      rw [decide_eq_true hhas]
      cases h.phase with
      | created hstate hstarted =>
          have hleft : sync.left = 2 := by simp [left, hstarted, ReaderOperation.left]
          cases bOk with
          | true => rw [left_completeReader_of_reading hstate hstarted, hleft]; rfl
          | false => rw [left_completeReader_of_reading_false hstate hstarted, hleft]; rfl
      | reading _ hother => simp [HasStarted, hother] at hhas
      | finishing _ hother => simp [HasStarted, hother] at hhas
      | deleted _ _ hother => simp [HasStarted, hother] at hhas
  · next hhas => simp [hhas]

/-- A message brings a stream no nearer to its end: the read that it completes is followed by
another one. -/
theorem InPhase.left_readNext (h : sync.InPhase) : sync.readNext.left = sync.left := by
  unfold SyncCall.readNext
  split
  · rfl
  · next message _ =>
      split
      · next hhas =>
          cases h.phase with
          | created _ hother => simp [HasStarted, hother] at hhas
          | reading hstate hstarted =>
              refine (left_completeReader_of_reading hstate hstarted message).trans ?_
              simp [left, hstarted, ReaderOperation.left]
          | finishing _ hother => simp [HasStarted, hother] at hhas
          | deleted _ _ hother => simp [HasStarted, hother] at hhas
      · rfl

theorem InPhase.left_endOfStream (h : sync.InPhase) (response : SyncResponse) :
    (sync.endOfStream response).left + (decide (sync.HasStarted .read)).toNat = sync.left := by
  unfold SyncCall.endOfStream
  split
  · next hhas =>
      rw [decide_eq_true hhas]
      cases h.phase with
      | created _ hother => simp [HasStarted, hother] at hhas
      | reading hstate hstarted =>
          have hleft : sync.left = 2 := by simp [left, hstarted, ReaderOperation.left]
          rw [left_completeReader_of_reading_false hstate hstarted, hleft]
          rfl
      | finishing _ hother => simp [HasStarted, hother] at hhas
      | deleted _ _ hother => simp [HasStarted, hother] at hhas
  · next hhas => simp [hhas]

theorem InPhase.left_finish (h : sync.InPhase) (bOk : Bool) (final : Status) :
    (sync.finish bOk final).left + (decide (sync.HasStarted .finish)).toNat = sync.left := by
  unfold SyncCall.finish
  split
  · next hhas =>
      rw [decide_eq_true hhas]
      cases h.phase with
      | created _ hother => simp [HasStarted, hother] at hhas
      | reading _ hother => simp [HasStarted, hother] at hhas
      | finishing hstate hstarted =>
          rw [completeReader_of_finishing (by exact hstate)]
          simp [left, hstarted, ReaderOperation.left]
      | deleted _ _ hother => simp [HasStarted, hother] at hhas
  · next hhas => simp [hhas]

theorem left_transmit (server : RpcServer) (sync : SyncCall) :
    (sync.transmit server).left = sync.left := by
  unfold SyncCall.transmit
  split
  · rfl
  · split <;> rfl

end SyncCall

namespace SentCall

def left (sent : SentCall) : ℕ := if sent.call.waiting then 1 else 0

/-- The library may complete `Finish` with this status. -/
def CanFinish (bOk : Bool) (final : Status) (sent : SentCall) : Prop :=
  sent.call.waiting = true ∧ (bOk = true → final.errorCode = 0 → sent.received = true)

instance (bOk : Bool) (final : Status) (sent : SentCall) : Decidable (sent.CanFinish bOk final) :=
  inferInstanceAs (Decidable (_ ∧ _))

variable {sent : SentCall}

theorem InPhase.left_eq_zero_iff (h : sent.InPhase) : sent.left = 0 ↔ sent.call.deleted = true := by
  rcases h with ⟨hwaiting, -, hdeleted⟩ | ⟨hover, hdeleted, -⟩
  · simp [left, hwaiting, hdeleted]
  · simp [left, hover, hdeleted]

theorem InPhase.waiting_eq (h : sent.InPhase) : sent.call.waiting = !sent.call.deleted := by
  rcases h with ⟨hwaiting, -, hdeleted⟩ | ⟨hover, hdeleted, -⟩
  · rw [hwaiting, hdeleted, Bool.not_false]
  · rw [hover, hdeleted, Bool.not_true]

theorem left_finish (bOk : Bool) (final : Status) (sent : SentCall) :
    (sent.finish bOk final).left + (decide (sent.CanFinish bOk final)).toNat = sent.left := by
  unfold SentCall.finish
  split
  · next hguard =>
      have hcan : sent.CanFinish bOk final := hguard
      rw [decide_eq_true hcan]
      simp [left, ExecuteCall.proceed, hcan.1]
  · next hguard =>
      have hcannot : ¬ sent.CanFinish bOk final := hguard
      rw [decide_eq_false hcannot]
      rfl

end SentCall

/-! ## All calls -/

namespace SyncSystem

/-- The steps to the end of all calls. -/
def left (system : SyncSystem) : ℕ :=
  (system.syncCalls.map SyncCall.left).sum + (system.sentCalls.map SentCall.left).sum

/-- The steps that the calls of a system have in all. -/
def steps (system : SyncSystem) : ℕ :=
  2 * system.syncCalls.length + system.sentCalls.length

/-- A completion without a message takes a call one step to its end. -/
def ends (system : SyncSystem) : SyncEvent → Bool
  | .startCall sync bOk =>
      system.syncCalls[sync]?.any fun value => decide (value.HasStarted .startCall) && !bOk
  | .endOfStream sync _ => system.syncCalls[sync]?.any fun value => value.HasStarted .read
  | .finishStream sync _ _ => system.syncCalls[sync]?.any fun value => value.HasStarted .finish
  | .finishCall sent bOk final => system.sentCalls[sent]?.any fun value => value.CanFinish bOk final
  | _ => false

/-- Every call is in a phase. -/
structure InPhase (system : SyncSystem) : Prop where
  streams : ∀ sync ∈ system.syncCalls, sync.InPhase
  calls : ∀ sent ∈ system.sentCalls, sent.InPhase

theorem inPhase_init : InPhase {} where
  streams := by simp
  calls := by simp

variable {system : SyncSystem}

theorem InPhase.modifySync (h : system.InPhase) (sync : ℕ) {f : SyncCall → SyncCall}
    (hf : ∀ value : SyncCall, value.InPhase → (f value).InPhase) :
    (system.modifySync sync f).InPhase where
  streams value hvalue := by
    obtain ⟨index, hindex⟩ := List.mem_iff_getElem?.mp hvalue
    rw [SyncSystem.modifySync, List.getElem?_modify] at hindex
    obtain ⟨before, hbefore, rfl⟩ := Option.map_eq_some_iff.mp hindex
    have hphase := h.streams before (List.mem_of_getElem? hbefore)
    split
    · exact hf before hphase
    · exact hphase
  calls := h.calls

theorem InPhase.step (h : system.InPhase) (event : SyncEvent) : (system.step event).InPhase := by
  cases event with
  | run => exact ⟨h.streams, h.calls⟩
  | executeBehavior groupId subjectId behaviorTypeId bytes =>
      refine ⟨h.streams, fun sent hsent => ?_⟩
      rcases List.mem_append.mp hsent with hold | hnew
      · exact h.calls sent hold
      · obtain rfl := List.mem_singleton.mp hnew
        exact Or.inl ⟨rfl, rfl, rfl⟩
  | syncGroup playerId groupId =>
      refine ⟨fun sync hsync => ?_, h.calls⟩
      rcases List.mem_append.mp hsync with hold | hnew
      · exact h.streams sync hold
      · obtain rfl := List.mem_singleton.mp hnew
        exact SyncCall.inPhase_create playerId groupId
  | receive sent call index order =>
      simp only [SyncSystem.step, SyncSystem.receive]
      split
      · exact h
      · next value hvalue =>
          split
          · refine ⟨h.streams, fun other hother => ?_⟩
            rcases List.mem_or_eq_of_mem_set hother with hold | rfl
            · exact h.calls other hold
            · exact (h.calls value (List.mem_of_getElem? hvalue)).receive
          · exact h
  | accept sync session index =>
      simp only [SyncSystem.step, SyncSystem.accept]
      split
      · exact h
      · next value hvalue =>
          split
          · refine ⟨fun other hother => ?_, h.calls⟩
            rcases List.mem_or_eq_of_mem_set hother with hold | rfl
            · exact h.streams other hold
            · exact (h.streams value (List.mem_of_getElem? hvalue)).accepted ..
          · exact h
  | completeSession session index bOk => exact ⟨h.streams, h.calls⟩
  | completeUnary call index bOk => exact ⟨h.streams, h.calls⟩
  | transmit sync => exact h.modifySync sync fun value hvalue => hvalue.transmit system.server
  | startCall sync bOk => exact h.modifySync sync fun value hvalue => hvalue.startCall bOk
  | read sync => exact h.modifySync sync fun value hvalue => hvalue.readNext
  | endOfStream sync response =>
      exact h.modifySync sync fun value hvalue => hvalue.endOfStream response
  | finishStream sync bOk final =>
      exact h.modifySync sync fun value hvalue => hvalue.finish bOk final
  | finishCall sent bOk final =>
      refine ⟨h.streams, fun value hvalue => ?_⟩
      obtain ⟨index, hindex⟩ := List.mem_iff_getElem?.mp hvalue
      rw [SyncSystem.step, List.getElem?_modify] at hindex
      obtain ⟨before, hbefore, rfl⟩ := Option.map_eq_some_iff.mp hindex
      have hphase := h.calls before (List.mem_of_getElem? hbefore)
      split
      · exact hphase.finish bOk final
      · exact hphase

/-- What an event of one stream takes off. -/
theorem InPhase.left_modifySync (h : system.InPhase) (sync : ℕ) {f : SyncCall → SyncCall}
    {shrinks : SyncCall → Bool}
    (hf : ∀ value : SyncCall, value.InPhase → (f value).left + (shrinks value).toNat = value.left) :
    (system.modifySync sync f).left + (system.syncCalls[sync]?.any shrinks).toNat = system.left ∧
      (system.modifySync sync f).steps = system.steps := by
  have hsum := sum_map_modify (fun value hvalue => hf value (h.streams value hvalue)) sync
  constructor
  · rw [left, left, ← hsum, SyncSystem.modifySync]
    dsimp only
    omega
  · simp [steps, SyncSystem.modifySync]

theorem InPhase.left_modifySync_of_same (h : system.InPhase) (sync : ℕ)
    {f : SyncCall → SyncCall}
    (hf : ∀ value : SyncCall, value.InPhase → (f value).left = value.left) :
    (system.modifySync sync f).left = system.left ∧
      (system.modifySync sync f).steps = system.steps := by
  have hnothing : ∀ value : SyncCall, value.InPhase →
      (f value).left + ((fun _ => false : SyncCall → Bool) value).toNat = value.left := hf
  obtain ⟨hleft, hsteps⟩ := h.left_modifySync sync hnothing
  refine ⟨?_, hsteps⟩
  rw [← hleft]
  cases system.syncCalls[sync]? <;> rfl

/-- What an event takes off, and what the calls that it begins add: the balance of one step,
which the library of work that is left sums up over a run. -/
theorem InPhase.left_step (h : system.InPhase) (event : SyncEvent) :
    (system.step event).left + (system.ends event).toNat + system.steps =
      system.left + (system.step event).steps := by
  cases event with
  | run => rfl
  | executeBehavior groupId subjectId behaviorTypeId bytes =>
      have hnew : (SentCall.create groupId subjectId behaviorTypeId bytes).left = 1 := rfl
      simp only [left, steps, SyncSystem.step, ends, List.map_append, List.sum_append,
        List.map_singleton, List.sum_singleton, hnew, List.length_append, List.length_singleton,
        Bool.toNat_false]
      omega
  | syncGroup playerId groupId =>
      have hnew : (SyncCall.create playerId groupId).left = 2 := rfl
      simp only [left, steps, SyncSystem.step, ends, List.map_append, List.sum_append,
        List.map_singleton, List.sum_singleton, hnew, List.length_append, List.length_singleton,
        Bool.toNat_false]
      omega
  -- the server's side of a call takes nothing off the client's
  | receive sent call index order =>
      simp only [SyncSystem.step, SyncSystem.receive, ends, Bool.toNat_false, Nat.add_zero]
      split
      · rfl
      · next value hvalue =>
          split
          · have hsum := sum_map_set SentCall.left hvalue { value with received := true }
            have hsame : ({ value with received := true } : SentCall).left = value.left := rfl
            simp only [left, steps, List.length_set]
            omega
          · rfl
  | accept sync session index =>
      simp only [SyncSystem.step, SyncSystem.accept, ends, Bool.toNat_false, Nat.add_zero]
      split
      · rfl
      · next value hvalue =>
          split
          · have hsum := sum_map_set SyncCall.left hvalue
              { value with
                session := some session
                position := (system.server.groupLog value.group).length }
            have hsame : ({ value with
                session := some session
                position := (system.server.groupLog value.group).length } : SyncCall).left =
              value.left := rfl
            simp only [left, steps, List.length_set]
            omega
          · rfl
  | completeSession session index bOk => rfl
  | completeUnary call index bOk => rfl
  | transmit sync =>
      obtain ⟨hleft, hsteps⟩ := h.left_modifySync_of_same sync fun value _ =>
        SyncCall.left_transmit system.server value
      rw [SyncSystem.step, hsteps, hleft]
      rfl
  | startCall sync bOk =>
      obtain ⟨hleft, hsteps⟩ := h.left_modifySync sync fun value hvalue => hvalue.left_startCall bOk
      rw [SyncSystem.step, hsteps, ← hleft]
      rfl
  | read sync =>
      obtain ⟨hleft, hsteps⟩ := h.left_modifySync_of_same sync fun value hvalue =>
        hvalue.left_readNext
      rw [SyncSystem.step, hsteps, hleft]
      rfl
  | endOfStream sync response =>
      obtain ⟨hleft, hsteps⟩ := h.left_modifySync sync fun value hvalue =>
        hvalue.left_endOfStream response
      rw [SyncSystem.step, hsteps, ← hleft]
      rfl
  | finishStream sync bOk final =>
      obtain ⟨hleft, hsteps⟩ := h.left_modifySync sync fun value hvalue =>
        hvalue.left_finish bOk final
      rw [SyncSystem.step, hsteps, ← hleft]
      rfl
  | finishCall sent bOk final =>
      have hsum := sum_map_modify (fun value (_ : value ∈ system.sentCalls) =>
        SentCall.left_finish bOk final value) sent
      simp only [left, steps, SyncSystem.step, List.length_modify, ends]
      omega

/-! ## One call -/

/-- The stream of which an event completes an operation. -/
def completedStream : SyncEvent → Option ℕ
  | .startCall sync _ => some sync
  | .endOfStream sync _ => some sync
  | .finishStream sync _ _ => some sync
  | _ => none

/-- The unary call of which an event completes the operation. -/
def completedCall : SyncEvent → Option ℕ
  | .finishCall sent _ _ => some sent
  | _ => none

/-- A completion without a message takes this stream one step to its end. -/
def endsStream (sync : ℕ) (system : SyncSystem) (event : SyncEvent) : Bool :=
  decide (completedStream event = some sync) && system.ends event

/-- A completion ends this unary call. -/
def endsCall (sent : ℕ) (system : SyncSystem) (event : SyncEvent) : Bool :=
  decide (completedCall event = some sent) && system.ends event

/-- The steps to the end of a stream, two before it begins. -/
def streamLeft (sync : ℕ) (system : SyncSystem) : ℕ :=
  sizeAt SyncCall.left 2 sync system.syncCalls

/-- The steps to the end of a unary call, one before it begins. -/
def callLeft (sent : ℕ) (system : SyncSystem) : ℕ :=
  sizeAt SentCall.left 1 sent system.sentCalls

theorem InPhase.streamLeft_modifySync (h : system.InPhase) (index sync : ℕ)
    {f : SyncCall → SyncCall} {shrinks : SyncCall → Bool}
    (hf : ∀ value : SyncCall, value.InPhase → (f value).left + (shrinks value).toNat = value.left) :
    streamLeft sync (system.modifySync index f) +
        (decide (index = sync) && system.syncCalls[index]?.any shrinks).toNat =
      streamLeft sync system :=
  sizeAt_modify (fun value hvalue => hf value (h.streams value hvalue)) index 2 sync

theorem InPhase.streamLeft_modifySync_of_same (h : system.InPhase) (index sync : ℕ)
    {f : SyncCall → SyncCall}
    (hf : ∀ value : SyncCall, value.InPhase → (f value).left = value.left) :
    streamLeft sync (system.modifySync index f) = streamLeft sync system := by
  have hnothing : ∀ value : SyncCall, value.InPhase →
      (f value).left + ((fun _ => false : SyncCall → Bool) value).toNat = value.left := hf
  simpa using h.streamLeft_modifySync index sync hnothing

/-- What an event takes off one stream. -/
theorem InPhase.streamLeft_step (h : system.InPhase) (sync : ℕ) (event : SyncEvent) :
    streamLeft sync (system.step event) + (system.endsStream sync event).toNat =
      streamLeft sync system := by
  cases event with
  | run => rfl
  | executeBehavior groupId subjectId behaviorTypeId bytes => rfl
  | syncGroup playerId groupId => exact sizeAt_concat (SyncCall.create playerId groupId) sync
  | receive sent call index order =>
      simp only [SyncSystem.step, SyncSystem.receive]
      split
      · rfl
      · split <;> rfl
  | accept stream session index =>
      simp only [SyncSystem.step, SyncSystem.accept]
      split
      · rfl
      · next value hvalue =>
          split
          · have hsame : ({ value with
                session := some session
                position := (system.server.groupLog value.group).length } : SyncCall).left =
              value.left := rfl
            exact sizeAt_set hvalue hsame 2 sync
          · rfl
  | completeSession session index bOk => rfl
  | completeUnary call index bOk => rfl
  | transmit index =>
      exact h.streamLeft_modifySync_of_same index sync fun value _ =>
        SyncCall.left_transmit system.server value
  | startCall index bOk =>
      have hstep := h.streamLeft_modifySync index sync fun value hvalue =>
        hvalue.left_startCall bOk
      simpa [endsStream, completedStream, ends, SyncSystem.step] using hstep
  | read index =>
      exact h.streamLeft_modifySync_of_same index sync fun value hvalue => hvalue.left_readNext
  | endOfStream index response =>
      have hstep := h.streamLeft_modifySync index sync fun value hvalue =>
        hvalue.left_endOfStream response
      simpa [endsStream, completedStream, ends, SyncSystem.step] using hstep
  | finishStream index bOk final =>
      have hstep := h.streamLeft_modifySync index sync fun value hvalue =>
        hvalue.left_finish bOk final
      simpa [endsStream, completedStream, ends, SyncSystem.step] using hstep
  | finishCall sent bOk final => rfl

/-- What an event takes off one unary call. -/
theorem callLeft_step (system : SyncSystem) (sent : ℕ) (event : SyncEvent) :
    callLeft sent (system.step event) + (system.endsCall sent event).toNat =
      callLeft sent system := by
  cases event with
  | executeBehavior groupId subjectId behaviorTypeId bytes =>
      exact sizeAt_concat (SentCall.create groupId subjectId behaviorTypeId bytes) sent
  | receive index call operation order =>
      simp only [SyncSystem.step, SyncSystem.receive]
      split
      · rfl
      · next value hvalue =>
          split
          · have hsame : ({ value with received := true } : SentCall).left = value.left := rfl
            exact sizeAt_set hvalue hsame 1 sent
          · rfl
  | accept sync session index =>
      simp only [SyncSystem.step, SyncSystem.accept]
      split
      · rfl
      · split <;> rfl
  | finishCall index bOk final =>
      have hstep := sizeAt_modify (fun value (_ : value ∈ system.sentCalls) =>
        SentCall.left_finish bOk final value) index 1 sent
      simpa [endsCall, completedCall, ends, SyncSystem.step, callLeft] using hstep
  | _ => rfl

theorem inPhase_run (events : List SyncEvent) : (run step {} events).InPhase :=
  run_invariant inPhase_init (fun _ event h => h.step event) events

theorem steps_of_ends {event : SyncEvent} (hends : system.ends event = true) :
    (system.step event).steps = system.steps := by
  cases event with
  | startCall sync bOk => simp [steps, step, modifySync]
  | endOfStream sync response => simp [steps, step, modifySync]
  | finishStream sync bOk final => simp [steps, step, modifySync]
  | finishCall sent bOk final => simp [steps, step]
  | _ => simp [ends] at hends

theorem InPhase.left_of_ends (h : system.InPhase) {event : SyncEvent}
    (hends : system.ends event = true) : (system.step event).left + 1 = system.left := by
  have hstep := h.left_step event
  rw [steps_of_ends hends, hends, Bool.toNat_true] at hstep
  omega

/-- As long as something is left the library can fail an operation that a call waits for, since
a call that is not at its end waits for one. -/
theorem InPhase.exists_ends (h : system.InPhase) (hleft : system.left ≠ 0) :
    ∃ event, system.ends event = true := by
  -- a stream that is left can be failed; if there is none, a unary call is
  by_cases hstreams : (system.syncCalls.map SyncCall.left).sum = 0
  · have hcalls : (system.sentCalls.map SentCall.left).sum ≠ 0 := fun hzero =>
      hleft (by rw [left, hstreams, hzero])
    obtain ⟨index, sent, hindex, hpositive⟩ := exists_of_sum_ne_zero hcalls
    have hwaiting : sent.call.waiting = true := by
      by_contra hover
      simp [SentCall.left, hover] at hpositive
    refine ⟨.finishCall index false .OK, ?_⟩
    simp [ends, hindex, SentCall.CanFinish, hwaiting]
  · obtain ⟨index, sync, hindex, hpositive⟩ := exists_of_sum_ne_zero hstreams
    have hsync := List.mem_of_getElem? hindex
    cases (h.streams sync hsync).phase with
    | created _ hstarted =>
        exact ⟨.startCall index false, by simp [ends, hindex, SyncCall.HasStarted, hstarted]⟩
    | reading _ hstarted =>
        exact ⟨.endOfStream index {}, by simp [ends, hindex, SyncCall.HasStarted, hstarted]⟩
    | finishing _ hstarted =>
        exact ⟨.finishStream index true .OK, by simp [ends, hindex, SyncCall.HasStarted, hstarted]⟩
    | deleted _ _ hstarted => simp [SyncCall.left, hstarted] at hpositive

theorem InPhase.left_eq_zero_iff (h : system.InPhase) :
    system.left = 0 ↔ (∀ sync ∈ system.syncCalls, sync.call.deleted = true) ∧
      ∀ sent ∈ system.sentCalls, sent.call.deleted = true := by
  rw [left, Nat.add_eq_zero_iff, List.sum_eq_zero_iff_forall_eq_nat,
    List.sum_eq_zero_iff_forall_eq_nat, List.forall_mem_map, List.forall_mem_map]
  refine and_congr (forall₂_congr fun sync hsync => ?_) (forall₂_congr fun sent hsent => ?_)
  · exact (h.streams sync hsync).left_eq_zero_iff
  · exact (h.calls sent hsent).left_eq_zero_iff

/-- Two completions without a message end a stream, and what is left of it is what they have
not made yet. -/
theorem streamLeft_run (events : List SyncEvent) (sync : ℕ) :
    streamLeft sync (run step {} events) +
      (observed step (finished (endsStream sync)) {} events).length = 2 :=
  left_run_const inPhase_init (show streamLeft sync {} = 2 from rfl)
    (fun _ event hbefore => hbefore.step event)
    (fun _ event hbefore => hbefore.streamLeft_step sync event) events

theorem callLeft_run (events : List SyncEvent) (sent : ℕ) :
    callLeft sent (run step {} events) +
      (observed step (finished (endsCall sent)) {} events).length = 1 :=
  left_run_const inPhase_init (show callLeft sent {} = 1 from rfl)
    (fun _ event hbefore => hbefore.step event)
    (fun before event _ => callLeft_step before sent event) events

end SyncSystem

end HktBase.Grpc
