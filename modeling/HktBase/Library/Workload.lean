import Mathlib.Algebra.GroupWithZero.Nat
import Mathlib.Algebra.Order.BigOperators.Group.List
import HktBase.Library.Run

/-!
# Work that is left

A system owes work to each of a list of clients; what is left in all is a sum over them.

* The first part follows such a sum when one client changes, and the work of one client:
  `sizeAt` is what is left for it, or what it will be owed when it comes.
* The second part is about runs.  Where every step takes off what it finishes and adds what it
  begins, `left_run` balances what is left after a run with what was finished and begun in it.
* Where work that is left can always be finished, `exists_drain` says that a run of as many
  steps as there is work leaves none.

Which steps finish work is a decidable property of a state and an event, so that what a run has
finished is the number of entries that `observed` lists.
-/

namespace Workload

open Transition

/-! ## Sums over the clients -/

section Sums

variable {α : Type*}

/-- A client is replaced. -/
theorem sum_map_set (size : α → ℕ) {values : List α} {index : ℕ} {old : α}
    (h : values[index]? = some old) (new : α) :
    ((values.set index new).map size).sum + size old = (values.map size).sum + size new := by
  induction values generalizing index with
  | nil => simp at h
  | cons first rest ih =>
      cases index with
      | zero =>
          obtain rfl : first = old := by simpa using h
          simp only [List.set_cons_zero, List.map_cons, List.sum_cons]
          omega
      | succ index =>
          have hrest := ih (by simpa using h)
          simp only [List.set_cons_succ, List.map_cons, List.sum_cons]
          omega

/-- A client is changed, which finishes some of its work or none. -/
theorem sum_map_modify {change : α → α} {size : α → ℕ} {finishes : α → Bool} {values : List α}
    (h : ∀ value ∈ values, size (change value) + (finishes value).toNat = size value)
    (index : ℕ) :
    ((values.modify index change).map size).sum + (values[index]?.any finishes).toNat =
      (values.map size).sum := by
  induction values generalizing index with
  | nil => simp
  | cons first rest ih =>
      cases index with
      | zero =>
          have hfirst := h first List.mem_cons_self
          simp only [List.modify_zero_cons, List.map_cons, List.sum_cons, List.getElem?_cons_zero,
            Option.any_some]
          omega
      | succ index =>
          have hrest := ih (fun value hvalue => h value (List.mem_cons_of_mem _ hvalue)) index
          simp only [List.modify_succ_cons, List.map_cons, List.sum_cons, List.getElem?_cons_succ]
          omega

theorem exists_of_sum_ne_zero {size : α → ℕ} {values : List α} (h : (values.map size).sum ≠ 0) :
    ∃ (index : ℕ) (value : α), values[index]? = some value ∧ size value ≠ 0 := by
  by_contra hnone
  refine h (List.sum_eq_zero_iff_forall_eq_nat.mpr (List.forall_mem_map.mpr fun value hvalue => ?_))
  obtain ⟨index, hindex⟩ := List.mem_iff_getElem?.mp hvalue
  by_contra hpositive
  exact hnone ⟨index, value, hindex, hpositive⟩

theorem count_eraseIdx [DecidableEq α] {operations : List α} {index : ℕ} {operation : α}
    (h : operations[index]? = some operation) (kind : α) :
    operations.count kind =
      (operations.eraseIdx index).count kind + if operation = kind then 1 else 0 := by
  obtain ⟨hlt, hget⟩ := List.getElem?_eq_some_iff.mp h
  have hperm := (List.getElem_cons_eraseIdx_perm hlt).count_eq kind
  rw [hget, List.count_cons] at hperm
  rw [← hperm]
  simp

end Sums

/-! ## One client -/

section Client

variable {α : Type*} {size : α → ℕ} {values : List α}

/-- What is left for a client, or for a client that has not come yet. -/
def sizeAt (size : α → ℕ) (fresh : ℕ) (client : ℕ) (values : List α) : ℕ :=
  (values[client]?.map size).getD fresh

theorem sizeAt_concat (new : α) (client : ℕ) :
    sizeAt size (size new) client (values ++ [new]) = sizeAt size (size new) client values := by
  rw [sizeAt, sizeAt]
  rcases Nat.lt_trichotomy client values.length with hlt | rfl | hgt
  · rw [List.getElem?_append_left hlt]
  · rw [List.getElem?_concat_length, List.getElem?_eq_none le_rfl]
    rfl
  · rw [List.getElem?_eq_none (by simp; omega), List.getElem?_eq_none hgt.le]

theorem sizeAt_set {index : ℕ} {old new : α} (h : values[index]? = some old)
    (hsize : size new = size old) (fresh client : ℕ) :
    sizeAt size fresh client (values.set index new) = sizeAt size fresh client values := by
  rw [sizeAt, sizeAt]
  by_cases hsame : index = client
  · subst hsame
    rw [List.getElem?_set_self (List.getElem?_eq_some_iff.mp h).1, h, Option.map_some,
      Option.map_some, hsize]
  · rw [List.getElem?_set_ne hsame]

/-- A client is changed, which finishes some of its work or none. -/
theorem sizeAt_modify {change : α → α} {finishes : α → Bool}
    (h : ∀ value ∈ values, size (change value) + (finishes value).toNat = size value)
    (index fresh client : ℕ) :
    sizeAt size fresh client (values.modify index change) +
        (decide (index = client) && values[index]?.any finishes).toNat =
      sizeAt size fresh client values := by
  rw [sizeAt, sizeAt, List.getElem?_modify]
  by_cases hsame : index = client
  · subst hsame
    cases hvalue : values[index]? with
    | none => simp
    | some value => simpa using h value (List.mem_of_getElem? hvalue)
  · simp [hsame]

end Client

/-! ## Runs -/

variable {σ ε : Type*} {step : σ → ε → σ} {init : σ} {Inv : σ → Prop} {left begun : σ → ℕ}
  {finishes : σ → ε → Bool}

/-- A step that finishes some work, for `observed`. -/
def finished (finishes : σ → ε → Bool) (state : σ) (event : ε) : Option Unit :=
  if finishes state event then some () else none

theorem length_finished (finishes : σ → ε → Bool) (state : σ) (event : ε) :
    (finished finishes state event).toList.length = (finishes state event).toNat := by
  unfold finished
  cases finishes state event <;> rfl

/-- What was finished and what is left make up what was begun. -/
theorem left_run (hinit : Inv init) (hzero : left init = begun init)
    (hstep : ∀ state event, Inv state → Inv (step state event))
    (hbalance : ∀ state event, Inv state →
      left (step state event) + (finishes state event).toNat + begun state =
        left state + begun (step state event)) (events : List ε) :
    left (run step init events) + (observed step (finished finishes) init events).length =
      begun (run step init events) := by
  induction events using List.reverseRecOn with
  | nil => exact hzero
  | append_singleton before event ih =>
      have hlast := hbalance _ event (run_invariant hinit hstep before)
      rw [observed_concat, run_concat, List.length_append, length_finished]
      omega

theorem left_run_const {total : ℕ} (hinit : Inv init) (hzero : left init = total)
    (hstep : ∀ state event, Inv state → Inv (step state event))
    (hbalance : ∀ state event, Inv state →
      left (step state event) + (finishes state event).toNat = left state) (events : List ε) :
    left (run step init events) + (observed step (finished finishes) init events).length =
      total := by
  refine @left_run σ ε step init Inv left (fun _ => total) finishes hinit hzero hstep ?_ events
  intro state event hinv
  rw [hbalance state event hinv]

/-- Work that can always be finished, one piece after the other, comes to an end. -/
theorem exists_drain (hstep : ∀ state event, Inv state → Inv (step state event))
    (hfinish : ∀ state event, Inv state → finishes state event = true →
      left (step state event) + 1 = left state)
    (hexists : ∀ state, Inv state → left state ≠ 0 → ∃ event, finishes state event = true)
    {state : σ} (h : Inv state) :
    ∃ drain, EveryStep step state (fun before event => finishes before event = true) drain ∧
      drain.length = left state ∧ left (run step state drain) = 0 := by
  induction hcount : left state generalizing state with
  | zero => exact ⟨[], historically_nil _, rfl, hcount⟩
  | succ count ih =>
      obtain ⟨event, hends⟩ := hexists state h (by omega)
      have hnext := hfinish state event h hends
      obtain ⟨drain, hdrain, hlength, hempty⟩ := ih (hstep state event h) (by omega)
      refine ⟨event :: drain, historically_cons.mpr ⟨hends, hdrain⟩, ?_, hempty⟩
      rw [List.length_cons, hlength]

end Workload
