import Mathlib.Data.List.Infix
import Mathlib.Logic.Relation

/-!
# Runs of a transition function

`run step init events` is the state after a list of events.  A function that makes
its state in several moves is related to a move relation by showing that every
step is a chain of moves; `run_of_moves` then turns a property that every move
preserves into one that holds after every run.

The last section is about logs that grow at their end: `sinceLast p log` is the
part after the last entry that satisfies `p`, `Historically Q log` relates every entry
to the log before it, `EveryStep` relates every event of a run to the state it finds,
`observed` lists what some of the steps show and `outputs` what each of them puts out, and
`Outstanding` says that an entry of the log has not been cancelled since.
-/

namespace Transition

variable {σ ε α : Type*}

/-- The state after a list of events. -/
def run (step : σ → ε → σ) (init : σ) (events : List ε) : σ :=
  events.foldl step init

variable {step : σ → ε → σ} {init : σ}

@[simp] theorem run_nil : run step init [] = init := rfl

theorem run_append (before after : List ε) :
    run step init (before ++ after) = run step (run step init before) after :=
  List.foldl_append

theorem run_concat (before : List ε) (event : ε) :
    run step init (before ++ [event]) = step (run step init before) event := by
  rw [run_append]
  rfl

/-- A property of the initial state that every step preserves holds after every run. -/
theorem run_invariant {P : σ → Prop} (hinit : P init)
    (hstep : ∀ state event, P state → P (step state event)) (events : List ε) :
    P (run step init events) := by
  induction events using List.reverseRecOn with
  | nil => exact hinit
  | append_singleton before event ih =>
      rw [run_concat]
      exact hstep _ _ ih

/-! ## Moves -/

open Relation

theorem preserved_of_moves {move : σ → σ → Prop} {P : σ → Prop}
    (hmove : ∀ before after, move before after → P before → P after) {before after : σ}
    (hmoves : ReflTransGen move before after) (hbefore : P before) : P after := by
  induction hmoves with
  | refl => exact hbefore
  | tail _ hlast ih => exact hmove _ _ hlast ih

/-- When every step is a chain of moves, what one move preserves holds after every run. -/
theorem run_of_moves {move : σ → σ → Prop} {P : σ → Prop}
    (hsteps : ∀ state event, ReflTransGen move state (step state event)) (hinit : P init)
    (hmove : ∀ before after, move before after → P before → P after) (events : List ε) :
    P (run step init events) :=
  run_invariant hinit (fun state event => preserved_of_moves hmove (hsteps state event)) events

theorem run_moves {move : σ → σ → Prop}
    (hsteps : ∀ state event, ReflTransGen move state (step state event)) (init : σ)
    (events : List ε) : ReflTransGen move init (run step init events) :=
  run_of_moves hsteps .refl (fun _ _ hmove h => h.tail hmove) events

/-- A loop whose body is a chain of moves is one. -/
theorem moves_foldl {move : σ → σ → Prop} {body : σ → α → σ} {items : List α}
    (hbody : ∀ state, ∀ item ∈ items, ReflTransGen move state (body state item)) (state : σ) :
    ReflTransGen move state (items.foldl body state) := by
  induction items generalizing state with
  | nil => exact .refl
  | cons item rest ih =>
      refine (hbody state item (List.mem_cons_self ..)).trans ?_
      exact ih (fun next other hother => hbody next other (List.mem_cons_of_mem _ hother)) _

/-! ## Logs -/

/-- The entries of a log after the last one that satisfies `p`. -/
def sinceLast (p : α → Bool) (log : List α) : List α :=
  (log.reverse.takeWhile fun entry => !p entry).reverse

@[simp] theorem sinceLast_nil (p : α → Bool) : sinceLast p [] = [] := rfl

theorem sinceLast_concat (p : α → Bool) (log : List α) (entry : α) :
    sinceLast p (log ++ [entry]) = if p entry then [] else sinceLast p log ++ [entry] := by
  unfold sinceLast
  rw [List.reverse_append, List.reverse_singleton, List.singleton_append, List.takeWhile_cons]
  cases p entry <;> simp

theorem sinceLast_concat_of_not {p : α → Bool} {entry : α} (h : p entry = false)
    (log : List α) : sinceLast p (log ++ [entry]) = sinceLast p log ++ [entry] := by
  rw [sinceLast_concat, h]
  rfl

/-- Entries that do not satisfy `p` only extend the part since the last one that does. -/
theorem sinceLast_append_of_not {p : α → Bool} {more : List α}
    (h : ∀ entry ∈ more, p entry = false) (log : List α) :
    sinceLast p (log ++ more) = sinceLast p log ++ more := by
  induction more using List.reverseRecOn with
  | nil => simp
  | append_singleton before entry ih =>
      rw [← List.append_assoc, sinceLast_concat_of_not (h entry (by simp)),
        ih fun other hother => h other (by simp [hother]), List.append_assoc]

theorem sinceLast_suffix (p : α → Bool) (log : List α) : sinceLast p log <:+ log := by
  have hprefix := List.takeWhile_prefix (l := log.reverse) fun entry => !p entry
  simpa [sinceLast] using List.reverse_suffix.mpr hprefix

/-- Every entry of the log stands in a relation to the log before it. -/
def Historically (Q : List α → α → Prop) (log : List α) : Prop :=
  ∀ before entry after, log = before ++ entry :: after → Q before entry

theorem historically_nil (Q : List α → α → Prop) : Historically Q [] := by
  intro before entry after hlog
  simp at hlog

theorem historically_concat {Q : List α → α → Prop} {log : List α} {entry : α} :
    Historically Q (log ++ [entry]) ↔ Historically Q log ∧ Q log entry := by
  constructor
  · intro h
    refine ⟨fun before first after hlog => h before first (after ++ [entry]) ?_,
      h log entry [] rfl⟩
    rw [hlog, List.append_assoc, List.cons_append]
  · rintro ⟨h, hentry⟩ before first after hlog
    induction after using List.reverseRecOn with
    | nil =>
        obtain ⟨rfl, hlast⟩ := List.append_inj' hlog rfl
        obtain rfl : entry = first := by simpa using hlast
        exact hentry
    | append_singleton rest last _ =>
        rw [← List.cons_append, ← List.append_assoc] at hlog
        exact h before first rest (List.append_inj' hlog rfl).1

/-- A log stands in the relation exactly when its parts do, the second on top of the first. -/
theorem historically_append {Q : List α → α → Prop} {log more : List α} :
    Historically Q (log ++ more) ↔
      Historically Q log ∧ Historically (fun before => Q (log ++ before)) more := by
  induction more using List.reverseRecOn with
  | nil => simp [historically_nil]
  | append_singleton before entry ih =>
      rw [← List.append_assoc, historically_concat, historically_concat, ih, and_assoc]

theorem historically_cons {Q : List α → α → Prop} {log : List α} {entry : α} :
    Historically Q (entry :: log) ↔
      Q [] entry ∧ Historically (fun before => Q (entry :: before)) log := by
  constructor
  · intro h
    refine ⟨h [] entry log rfl, fun before later after hlog => ?_⟩
    exact h (entry :: before) later after (by rw [hlog, List.cons_append])
  · rintro ⟨hentry, h⟩ before first after hlog
    cases before with
    | nil =>
        obtain ⟨rfl, -⟩ := List.cons_eq_cons.mp hlog
        exact hentry
    | cons _ before =>
        obtain ⟨rfl, hrest⟩ := List.cons_eq_cons.mp hlog
        exact h before first after hrest

instance decidableHistorically : (log : List α) → (Q : List α → α → Prop) →
    [∀ before entry, Decidable (Q before entry)] → Decidable (Historically Q log)
  | [], Q, _ => isTrue (historically_nil Q)
  | entry :: rest, Q, _ =>
      have := decidableHistorically rest fun before => Q (entry :: before)
      decidable_of_iff _ historically_cons.symm

/-- Every event of a run stands in a relation to the state it finds. -/
def EveryStep (step : σ → ε → σ) (init : σ) (Q : σ → ε → Prop) (events : List ε) : Prop :=
  Historically (fun before event => Q (run step init before) event) events

instance (Q : σ → ε → Prop) [∀ state event, Decidable (Q state event)] (events : List ε) :
    Decidable (EveryStep step init Q events) :=
  decidableHistorically events _

theorem everyStep_concat {Q : σ → ε → Prop} {events : List ε} {event : ε} :
    EveryStep step init Q (events ++ [event]) ↔
      EveryStep step init Q events ∧ Q (run step init events) event :=
  historically_concat

theorem run_invariant_of_everyStep {P : σ → Prop} {Q : σ → ε → Prop} (hinit : P init)
    (hstep : ∀ state event, P state → Q state event → P (step state event)) {events : List ε}
    (hevents : EveryStep step init Q events) : P (run step init events) := by
  induction events using List.reverseRecOn with
  | nil => exact hinit
  | append_singleton before event ih =>
      obtain ⟨hbefore, hevent⟩ := everyStep_concat.mp hevents
      rw [run_concat]
      exact hstep _ _ (ih hbefore) hevent

/-- Two conditions on steps that agree wherever an invariant holds, one of which
preserves it, are met by the same runs.  Both the invariant and the agreement may rest on
an assumption about every step. -/
theorem everyStep_iff_of_assumed {P : σ → Prop} {A Q R : σ → ε → Prop} (hinit : P init)
    (hstep : ∀ state event, P state → A state event → Q state event → P (step state event))
    (hiff : ∀ state event, P state → A state event → (Q state event ↔ R state event))
    {events : List ε} (hassumed : EveryStep step init A events) :
    EveryStep step init Q events ↔ EveryStep step init R events := by
  -- the invariant holds as long as the one condition has been met
  have hand : ∀ before : List ε, EveryStep step init A before → EveryStep step init Q before →
      P (run step init before) := by
    intro before hbefore hQ
    refine run_invariant_of_everyStep (Q := fun state event => A state event ∧ Q state event)
      hinit (fun state event h hevent => hstep state event h hevent.1 hevent.2) ?_
    exact fun first event rest hrest => ⟨hbefore first event rest hrest, hQ first event rest hrest⟩
  induction events using List.reverseRecOn with
  | nil => exact iff_of_true (historically_nil _) (historically_nil _)
  | append_singleton before event ih =>
      obtain ⟨hbefore, hevent⟩ := everyStep_concat.mp hassumed
      rw [everyStep_concat, everyStep_concat]
      constructor
      · rintro ⟨hQ, hlast⟩
        exact ⟨(ih hbefore).mp hQ, (hiff _ _ (hand before hbefore hQ) hevent).mp hlast⟩
      · rintro ⟨hR, hlast⟩
        have hQ := (ih hbefore).mpr hR
        exact ⟨hQ, (hiff _ _ (hand before hbefore hQ) hevent).mpr hlast⟩

theorem everyStep_iff_of_invariant {P : σ → Prop} {Q R : σ → ε → Prop} (hinit : P init)
    (hstep : ∀ state event, P state → Q state event → P (step state event))
    (hiff : ∀ state event, P state → (Q state event ↔ R state event)) {events : List ε} :
    EveryStep step init Q events ↔ EveryStep step init R events :=
  everyStep_iff_of_assumed (A := fun _ _ => True) hinit
    (fun state event h _ => hstep state event h) (fun state event h _ => hiff state event h)
    fun _ _ _ _ => trivial

/-- A property that a step has exactly when the state had it and the step is of a kind
holds after exactly the runs of such steps. -/
theorem run_iff_everyStep {P : σ → Prop} {Q : σ → ε → Prop} (hinit : P init)
    (hstep : ∀ state event, P (step state event) ↔ P state ∧ Q state event) {events : List ε} :
    P (run step init events) ↔ EveryStep step init Q events := by
  induction events using List.reverseRecOn with
  | nil => exact iff_of_true hinit (historically_nil _)
  | append_singleton before event ih => rw [run_concat, everyStep_concat, hstep, ih]

/-- What a run shows to an observer that sees something of some of its steps, in order. -/
def observed (step : σ → ε → σ) (observe : σ → ε → Option α) : σ → List ε → List α
  | _, [] => []
  | state, event :: rest =>
      (observe state event).toList ++ observed step observe (step state event) rest

theorem observed_append (observe : σ → ε → Option α) (before after : List ε) :
    observed step observe init (before ++ after) =
      observed step observe init before ++ observed step observe (run step init before) after := by
  induction before generalizing init with
  | nil => rfl
  | cons first rest ih =>
      rw [List.cons_append, observed, ih, observed, List.append_assoc]
      rfl

theorem observed_concat (observe : σ → ε → Option α) (events : List ε) (event : ε) :
    observed step observe init (events ++ [event]) =
      observed step observe init events ++ (observe (run step init events) event).toList := by
  rw [observed_append, observed, observed, List.append_nil]

/-- What the steps of a run put out, in order. -/
def outputs (step : σ → ε → σ) (output : σ → ε → List α) : σ → List ε → List α
  | _, [] => []
  | state, event :: rest => output state event ++ outputs step output (step state event) rest

theorem outputs_concat (output : σ → ε → List α) (events : List ε) (event : ε) :
    outputs step output init (events ++ [event]) =
      outputs step output init events ++ output (run step init events) event := by
  induction events generalizing init with
  | nil => simp [outputs]
  | cons first rest ih =>
      rw [List.cons_append, outputs, ih, outputs, List.append_assoc]
      rfl

/-- A property holds in every state of a run. -/
def HoldsThroughout (step : σ → ε → σ) (init : σ) (P : σ → Prop) (events : List ε) : Prop :=
  ∀ before, before <+: events → P (run step init before)

/-- A property of the initial state holds throughout a run when every step ends in it. -/
theorem holdsThroughout_iff {P : σ → Prop} (hinit : P init) {events : List ε} :
    HoldsThroughout step init P events ↔
      EveryStep step init (fun state event => P (step state event)) events := by
  constructor
  · rintro h before event after rfl
    have hnext := h (before ++ [event]) ⟨after, by simp⟩
    rwa [run_concat] at hnext
  · rintro h before ⟨after, rfl⟩
    induction before using List.reverseRecOn with
    | nil => exact hinit
    | append_singleton before event _ =>
        rw [run_concat]
        exact h before event after (by simp)

/-- Some entry satisfies `opened`, and none after it satisfies `closed`. -/
def Outstanding (opened closed : α → Prop) (log : List α) : Prop :=
  ∃ before entry after, log = before ++ entry :: after ∧ opened entry ∧
    ∀ later ∈ after, ¬ closed later

theorem not_outstanding_nil (opened closed : α → Prop) : ¬ Outstanding opened closed [] := by
  rintro ⟨before, entry, after, hlog, -⟩
  simp at hlog

/-- An entry that opens makes the log outstanding; any other one keeps it so unless
it closes. -/
theorem outstanding_concat {opened closed : α → Prop} {log : List α} {entry : α} :
    Outstanding opened closed (log ++ [entry]) ↔
      opened entry ∨ (Outstanding opened closed log ∧ ¬ closed entry) := by
  constructor
  · rintro ⟨before, first, after, hlog, hopened, hafter⟩
    -- either the new entry is the opening, or it follows it and does not close
    induction after using List.reverseRecOn with
    | nil =>
        obtain ⟨-, hentry⟩ := List.append_inj' hlog rfl
        obtain rfl : entry = first := by simpa using hentry
        exact Or.inl hopened
    | append_singleton rest last _ =>
        rw [← List.cons_append, ← List.append_assoc] at hlog
        obtain ⟨hbefore, hentry⟩ := List.append_inj' hlog rfl
        obtain rfl : entry = last := by simpa using hentry
        exact Or.inr ⟨⟨before, first, rest, hbefore, hopened,
          fun later hlater => hafter later (by simp [hlater])⟩, hafter entry (by simp)⟩
  · rintro (hopened | ⟨⟨before, first, after, rfl, hopened, hafter⟩, hclosed⟩)
    · exact ⟨log, entry, [], rfl, hopened, by simp⟩
    · refine ⟨before, first, after ++ [entry], by simp, hopened, ?_⟩
      intro later hlater
      rcases List.mem_append.mp hlater with hlater | hlater
      · exact hafter later hlater
      · rwa [List.mem_singleton.mp hlater]

theorem outstanding_cons {opened closed : α → Prop} {log : List α} {entry : α} :
    Outstanding opened closed (entry :: log) ↔
      (opened entry ∧ ∀ later ∈ log, ¬ closed later) ∨ Outstanding opened closed log := by
  constructor
  · rintro ⟨before, first, after, hlog, hopened, hafter⟩
    cases before with
    | nil =>
        obtain ⟨rfl, rfl⟩ := List.cons_eq_cons.mp hlog
        exact Or.inl ⟨hopened, hafter⟩
    | cons head rest =>
        obtain ⟨rfl, rfl⟩ := List.cons_eq_cons.mp hlog
        exact Or.inr ⟨rest, first, after, rfl, hopened, hafter⟩
  · rintro (⟨hopened, hafter⟩ | ⟨before, first, after, rfl, hopened, hafter⟩)
    · exact ⟨[], entry, log, rfl, hopened, hafter⟩
    · exact ⟨entry :: before, first, after, rfl, hopened, hafter⟩

instance decidableOutstanding {opened closed : α → Prop} [DecidablePred opened]
    [DecidablePred closed] : (log : List α) → Decidable (Outstanding opened closed log)
  | [] => isFalse (not_outstanding_nil opened closed)
  | _ :: rest =>
      have : Decidable (Outstanding opened closed rest) := decidableOutstanding rest
      decidable_of_iff _ outstanding_cons.symm

theorem Outstanding.append {opened closed : α → Prop} {log more : List α}
    (h : Outstanding opened closed log) (hmore : ∀ later ∈ more, ¬ closed later) :
    Outstanding opened closed (log ++ more) := by
  obtain ⟨before, entry, after, rfl, hopened, hafter⟩ := h
  refine ⟨before, entry, after ++ more, by simp, hopened, ?_⟩
  intro later hlater
  rcases List.mem_append.mp hlater with hlater | hlater
  · exact hafter later hlater
  · exact hmore later hlater

theorem Outstanding.of_closed {opened closed : α → Prop} {before after : List α} {entry : α}
    (h : Outstanding opened closed (before ++ entry :: after)) (hclosed : closed entry) :
    opened entry ∨ Outstanding opened closed after := by
  induction before with
  | nil => exact (outstanding_cons.mp h).imp_left And.left
  | cons first rest ih =>
      rcases outstanding_cons.mp h with ⟨-, hkept⟩ | h
      · exact absurd hclosed (hkept entry (by simp))
      · exact ih h

/-- Where nothing opens twice, an entry is outstanding when it is there at all and
whatever follows an opening does not close. -/
theorem outstanding_iff_forall {opened closed : α → Prop} {log : List α}
    (honce : ∀ before entry after, log = before ++ entry :: after → opened entry →
      ∀ later ∈ after, ¬ opened later) :
    Outstanding opened closed log ↔
      (∃ entry ∈ log, opened entry) ∧ ∀ before entry after, log = before ++ entry :: after →
        opened entry → ∀ later ∈ after, ¬ closed later := by
  constructor
  · rintro ⟨before, entry, after, hlog, hopened, hafter⟩
    refine ⟨⟨entry, by simp [hlog], hopened⟩, ?_⟩
    intro before' entry' after' hlog' hopened' later hlater
    -- the two openings are the same entry, or one would follow the other
    rcases List.append_eq_append_iff.mp (hlog.symm.trans hlog') with
      ⟨middle, -, hmiddle⟩ | ⟨middle, -, hmiddle⟩
    · cases middle with
      | nil =>
          obtain ⟨-, rfl⟩ := List.cons_eq_cons.mp hmiddle
          exact hafter later hlater
      | cons _ rest =>
          obtain ⟨-, rfl⟩ := List.cons_eq_cons.mp hmiddle
          exact absurd hopened' (honce before entry _ hlog hopened entry' (by simp))
    · cases middle with
      | nil =>
          obtain ⟨-, rfl⟩ := List.cons_eq_cons.mp hmiddle
          exact hafter later hlater
      | cons _ rest =>
          obtain ⟨-, rfl⟩ := List.cons_eq_cons.mp hmiddle
          exact absurd hopened (honce before' entry' _ hlog' hopened' entry (by simp))
  · rintro ⟨⟨entry, hmem, hopened⟩, hall⟩
    obtain ⟨before, after, hlog⟩ := List.append_of_mem hmem
    exact ⟨before, entry, after, hlog, hopened, hall before entry after hlog hopened⟩

end Transition
