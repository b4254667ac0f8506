import Mathlib.Algebra.Order.Group.Basic
import HktBase.Library.Run

/-!
# Timers that are polled

A timer that is not interrupted but looked at from time to time: it fires when it is looked at
more than `timeout` after it was started or last fired, and then counts from there.  Nothing can
be said about when it fires without knowing how often it is looked at.  `latest_le` is what can
be said when no reading of the clock is more than `gap` later than the one before it: with every
`timeout + gap` that pass, the timer has fired once more.

The readings need not increase, and may come as close together as they like.
-/

namespace PolledTimer

open Transition

variable {τ : Type*} [AddCommGroup τ] [LinearOrder τ]

/-- When a timer was started or last fired, and how often it has fired, after one reading. -/
def poll (timeout : τ) (timer : τ × ℕ) (now : τ) : τ × ℕ :=
  if now - timer.1 > timeout then (now, timer.2 + 1) else timer

/-- The timer that was started at `start`, after some readings. -/
def polls (timeout start : τ) (readings : List τ) : τ × ℕ :=
  readings.foldl (poll timeout) (start, 0)

theorem polls_concat (timeout start : τ) (readings : List τ) (now : τ) :
    polls timeout start (readings ++ [now]) = poll timeout (polls timeout start readings) now := by
  simp [polls]

omit [AddCommGroup τ] [LinearOrder τ] in
/-- The last reading, or the start. -/
def latest (start : τ) (readings : List τ) : τ :=
  readings.getLastD start

omit [AddCommGroup τ] [LinearOrder τ] in
@[simp] theorem latest_concat (start : τ) (readings : List τ) (now : τ) :
    latest start (readings ++ [now]) = now := by
  simp [latest]

/-- No reading is more than `gap` later than the one before it. -/
def Paced (gap start : τ) (readings : List τ) : Prop :=
  Historically (fun earlier now => now ≤ latest start earlier + gap) readings

/-- A clock that is read every `gap`. -/
theorem paced_regular (gap start : τ) (n : ℕ) :
    Paced gap start ((List.range n).map fun i => start + (i + 1) • gap) := by
  induction n with
  | zero => exact historically_nil _
  | succ n ih =>
      rw [List.range_succ, List.map_append, List.map_singleton]
      refine historically_concat.mpr ⟨ih, ?_⟩
      cases n with
      | zero => exact (congrArg (start + ·) (one_nsmul gap)).le
      | succ n =>
          rw [List.range_succ, List.map_append, List.map_singleton, latest_concat,
            succ_nsmul gap (n + 1), add_assoc]

variable [IsOrderedAddMonoid τ] {timeout gap start : τ} {readings : List τ}

/-- Between two firings there are at most `timeout + gap`, and at most `timeout` have passed since
the last one. -/
theorem polls_invariant (htimeout : 0 ≤ timeout) (hpaced : Paced gap start readings) :
    (polls timeout start readings).1 ≤
        start + (polls timeout start readings).2 • (timeout + gap) ∧
      latest start readings ≤ (polls timeout start readings).1 + timeout := by
  induction readings using List.reverseRecOn with
  | nil => simp [polls, latest, htimeout]
  | append_singleton before now ih =>
      obtain ⟨hbefore, hnow⟩ := historically_concat.mp hpaced
      obtain ⟨hfired, hlatest⟩ := ih hbefore
      rw [polls_concat, latest_concat]
      unfold poll
      split
      · refine ⟨?_, le_add_of_nonneg_right htimeout⟩
        calc now ≤ latest start before + gap := hnow
          _ ≤ (polls timeout start before).1 + timeout + gap := by gcongr
          _ ≤ start + (polls timeout start before).2 • (timeout + gap) + timeout + gap := by gcongr
          _ = start + ((polls timeout start before).2 + 1) • (timeout + gap) := by
            rw [succ_nsmul, add_assoc, add_assoc]
      · next hwaits => exact ⟨hfired, sub_le_iff_le_add'.mp (not_lt.mp hwaits)⟩

/-- How late it can be while the timer has not fired more than `n` times. -/
theorem latest_le (htimeout : 0 ≤ timeout) (hgap : 0 ≤ gap) (hpaced : Paced gap start readings)
    {n : ℕ} (hfired : (polls timeout start readings).2 ≤ n) :
    latest start readings ≤ start + n • (timeout + gap) + timeout := by
  obtain ⟨hlast, hlatest⟩ := polls_invariant htimeout hpaced
  calc latest start readings
      ≤ (polls timeout start readings).1 + timeout := hlatest
    _ ≤ start + (polls timeout start readings).2 • (timeout + gap) + timeout := by gcongr
    _ ≤ start + n • (timeout + gap) + timeout := by
      have hperiod : 0 ≤ timeout + gap := add_nonneg htimeout hgap
      have hmore := nsmul_le_nsmul_left hperiod hfired
      gcongr

end PolledTimer
