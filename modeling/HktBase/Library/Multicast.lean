import Mathlib.Data.List.Nodup
import Mathlib.Logic.Function.Basic
import HktBase.Library.Run

/-!
# Multicasts that overlap

Workers give messages to lists of targets, each to one target after the other, while other
workers do the same.  The multicasts are numbered in the order in which they begin, and a
ledger records the numbers that a target is given.

As long as no list has a target twice, a target of a multicast is given it once unless it is
still ahead of the worker: `Sound`.  A multicast that has ended comes before all those that
begin later, at every target: `precedes_of_ended`.  Of two that overlap either may come first,
and at one target the one and at another target the other.

`Sound.step` has a lemma for each thing that a worker does: `Sound.start`, `Sound.give` and
`Sound.leave`.  They share `Sound.alone_update`, as all three change what one worker is busy
with; `ahead_update_iff` says that this changes nothing for the other multicasts.
-/

namespace Multicast

open Transition

variable {ω τ μ : Type*}

/-- A message, and who it is for. -/
structure Cast (τ μ : Type*) where
  message : μ
  targets : List τ

structure Ledger (ω τ μ : Type*) where
  /-- The multicasts that have begun; their places are their numbers. -/
  begun : List (Cast τ μ) := []
  /-- The multicast that a worker is in, and the targets ahead. -/
  current : ω → Option (ℕ × List τ) := fun _ => none
  /-- What a target was given, in order. -/
  given : τ → List ℕ := fun _ => []

/-- What a worker does. -/
inductive Event (ω τ μ : Type*)
  | start (worker : ω) (message : μ) (targets : List τ)
  /-- The worker gives its message to the next target, or ends where there is none. -/
  | proceed (worker : ω)

/-- No target is named twice. -/
def Event.Distinct : Event ω τ μ → Prop
  | .start _ _ targets => targets.Nodup
  | .proceed _ => True

/-- The one comes before the other, wherever the list has them. -/
def Precedes (first second : ℕ) (numbers : List ℕ) : Prop :=
  ∃ front back, numbers = front ++ back ∧ second ∉ front ∧ first ∉ back

namespace Ledger

section Steps

variable [DecidableEq ω]

def start (worker : ω) (message : μ) (targets : List τ) (ledger : Ledger ω τ μ) :
    Ledger ω τ μ :=
  match ledger.current worker with
  | none =>
      { ledger with
        begun := ledger.begun ++ [⟨message, targets⟩]
        current := Function.update ledger.current worker (some (ledger.begun.length, targets)) }
  | some _ => ledger

def proceed [DecidableEq τ] (worker : ω) (ledger : Ledger ω τ μ) : Ledger ω τ μ :=
  match ledger.current worker with
  | none => ledger
  | some (_, []) => { ledger with current := Function.update ledger.current worker none }
  | some (number, target :: rest) =>
      { ledger with
        current := Function.update ledger.current worker (some (number, rest))
        given := Function.update ledger.given target (ledger.given target ++ [number]) }

def step [DecidableEq τ] (ledger : Ledger ω τ μ) : Event ω τ μ → Ledger ω τ μ
  | .start worker message targets => ledger.start worker message targets
  | .proceed worker => ledger.proceed worker

variable {ledger : Ledger ω τ μ} {worker : ω}

theorem start_of_none (h : ledger.current worker = none) (message : μ) (targets : List τ) :
    ledger.start worker message targets =
      { ledger with
        begun := ledger.begun ++ [⟨message, targets⟩]
        current := Function.update ledger.current worker
          (some (ledger.begun.length, targets)) } := by
  rw [start, h]

theorem proceed_of_nil [DecidableEq τ] {number : ℕ}
    (h : ledger.current worker = some (number, [])) :
    ledger.proceed worker =
      { ledger with current := Function.update ledger.current worker none } := by
  rw [proceed, h]

theorem proceed_of_cons [DecidableEq τ] {number : ℕ} {target : τ} {rest : List τ}
    (h : ledger.current worker = some (number, target :: rest)) :
    ledger.proceed worker =
      { ledger with
        current := Function.update ledger.current worker (some (number, rest))
        given := Function.update ledger.given target (ledger.given target ++ [number]) } := by
  rw [proceed, h]

end Steps

/-! ## What is ahead -/

/-- A worker has still to give the multicast to the target. -/
def Ahead (ledger : Ledger ω τ μ) (number : ℕ) (target : τ) : Prop :=
  ∃ worker rest, ledger.current worker = some (number, rest) ∧ target ∈ rest

/-- The multicast has begun, and no worker is in it any more. -/
def Ended (ledger : Ledger ω τ μ) (number : ℕ) : Prop :=
  number < ledger.begun.length ∧ ∀ worker rest, ledger.current worker ≠ some (number, rest)

theorem Ended.not_ahead {ledger : Ledger ω τ μ} {number : ℕ} (h : ledger.Ended number)
    (target : τ) : ¬ ledger.Ahead number target := by
  rintro ⟨worker, rest, hcurrent, -⟩
  exact h.2 worker rest hcurrent

/-- A worker turns to something else: nothing changes for the multicasts that it has not been
in and is not in now. -/
theorem ahead_update_iff [DecidableEq ω] {ledger next : Ledger ω τ μ} {worker : ω}
    {state : Option (ℕ × List τ)}
    (hnext : next.current = Function.update ledger.current worker state) {number : ℕ}
    (hbefore : ∀ rest, ledger.current worker ≠ some (number, rest))
    (hafter : ∀ rest, state ≠ some (number, rest)) (target : τ) :
    next.Ahead number target ↔ ledger.Ahead number target := by
  have hother : ∀ other rest, next.current other = some (number, rest) ↔
      ledger.current other = some (number, rest) := by
    intro other rest
    rw [hnext, Function.update_apply]
    split
    · next hsame =>
        subst hsame
        exact iff_of_false (hafter rest) (hbefore rest)
    · exact Iff.rfl
  simp only [Ahead, hother]

/-- The only worker that was in a multicast goes on with it. -/
theorem ahead_update_of_alone [DecidableEq ω] {ledger next : Ledger ω τ μ} {worker : ω}
    {number : ℕ} {rest : List τ}
    (halone : ∀ other found, ledger.current other = some (number, found) → other = worker)
    (hnext : next.current = Function.update ledger.current worker (some (number, rest)))
    (target : τ) : next.Ahead number target ↔ target ∈ rest := by
  constructor
  · rintro ⟨other, found, hfound, hmem⟩
    rw [hnext, Function.update_apply] at hfound
    split at hfound
    · obtain ⟨-, rfl⟩ := Prod.mk.inj (Option.some.inj hfound)
      exact hmem
    · next hne => exact absurd (halone other found hfound) hne
  · intro hmem
    refine ⟨worker, rest, ?_, hmem⟩
    rw [hnext, Function.update_self]

/-! ## What every step keeps -/

/-- A multicast was given once to those of its targets that are not ahead. -/
structure Sound (ledger : Ledger ω τ μ) : Prop where
  distinct : ∀ cast ∈ ledger.begun, cast.targets.Nodup
  current : ∀ worker number rest, ledger.current worker = some (number, rest) →
    ∃ cast, ledger.begun[number]? = some cast ∧ rest <:+ cast.targets
  alone : ∀ first second number rest other, ledger.current first = some (number, rest) →
    ledger.current second = some (number, other) → first = second
  given : ∀ number target, number ∈ ledger.given target ↔
    (∃ cast, ledger.begun[number]? = some cast ∧ target ∈ cast.targets) ∧
      ¬ ledger.Ahead number target
  once : ∀ target, (ledger.given target).Nodup

theorem sound_init : ({} : Ledger ω τ μ).Sound where
  distinct := by simp
  current := by simp
  alone := by simp
  given := by simp
  once := by simp

variable {ledger : Ledger ω τ μ}

theorem Sound.lt_of_current (h : ledger.Sound) {worker : ω} {number : ℕ} {rest : List τ}
    (hcurrent : ledger.current worker = some (number, rest)) : number < ledger.begun.length := by
  obtain ⟨cast, hcast, -⟩ := h.current worker number rest hcurrent
  exact (List.getElem?_eq_some_iff.mp hcast).1

theorem Sound.lt_of_given (h : ledger.Sound) {number : ℕ} {target : τ}
    (hgiven : number ∈ ledger.given target) : number < ledger.begun.length := by
  obtain ⟨⟨cast, hcast, -⟩, -⟩ := (h.given number target).mp hgiven
  exact (List.getElem?_eq_some_iff.mp hcast).1

/-- What is ahead of a worker is ahead in its multicast. -/
theorem Sound.ahead_iff (h : ledger.Sound) {worker : ω} {number : ℕ} {rest : List τ}
    (hcurrent : ledger.current worker = some (number, rest)) (target : τ) :
    ledger.Ahead number target ↔ target ∈ rest := by
  constructor
  · rintro ⟨other, found, hfound, hmem⟩
    obtain rfl := h.alone other worker number found rest hfound hcurrent
    rw [hcurrent] at hfound
    obtain ⟨-, rfl⟩ := Prod.mk.inj (Option.some.inj hfound)
    exact hmem
  · exact fun hmem => ⟨worker, rest, hcurrent, hmem⟩

variable [DecidableEq ω]

/-- A worker keeps its multicast or leaves it, or takes a number that nobody has, so that no two
come to be in one. -/
theorem Sound.alone_update (h : ledger.Sound) {worker : ω} {state : Option (ℕ × List τ)}
    (hstate : ∀ number rest, state = some (number, rest) →
      (∃ before, ledger.current worker = some (number, before)) ∨
        ledger.begun.length ≤ number)
    {first second : ω} {number : ℕ} {rest other : List τ}
    (hfirst : Function.update ledger.current worker state first = some (number, rest))
    (hsecond : Function.update ledger.current worker state second = some (number, other)) :
    first = second := by
  have hnew : ∀ elsewhere found, state = some (number, found) → ∀ rest,
      ledger.current elsewhere = some (number, rest) → elsewhere = worker := by
    intro elsewhere found hfound rest hcurrent
    rcases hstate number found hfound with ⟨before, hbefore⟩ | hge
    · exact h.alone elsewhere worker number rest before hcurrent hbefore
    · exact absurd (h.lt_of_current hcurrent) (by omega)
  rw [Function.update_apply] at hfirst hsecond
  split at hfirst
  · next heq =>
      split at hsecond
      · next heq' => rw [heq, heq']
      · rw [heq, hnew second rest hfirst other hsecond]
  · split at hsecond
    · next heq => rw [heq, hnew first other hsecond rest hfirst]
    · exact h.alone first second number rest other hfirst hsecond

theorem Sound.start (h : ledger.Sound) (worker : ω) (message : μ) {targets : List τ}
    (hdistinct : targets.Nodup) : (ledger.start worker message targets).Sound := by
  unfold Ledger.start
  cases hcurrent : ledger.current worker with
  | some _ => exact h
  | none =>
      -- the older multicasts keep their numbers
      have hkept : ∀ {number : ℕ} {cast : Cast τ μ}, ledger.begun[number]? = some cast →
          (ledger.begun ++ [⟨message, targets⟩])[number]? = some cast := by
        intro number cast hcast
        rw [List.getElem?_append_left (List.getElem?_eq_some_iff.mp hcast).1, hcast]
      refine ⟨fun cast hmem => ?_, fun other number rest hother => ?_, ?_, fun number target => ?_,
        h.once⟩
      · rcases List.mem_append.mp hmem with hold | hnew
        · exact h.distinct cast hold
        · obtain rfl := List.mem_singleton.mp hnew
          exact hdistinct
      · dsimp only at hother
        rw [Function.update_apply] at hother
        split at hother
        · obtain ⟨rfl, rfl⟩ := Prod.mk.inj (Option.some.inj hother)
          exact ⟨_, List.getElem?_concat_length, List.suffix_rfl⟩
        · obtain ⟨cast, hcast, hrest⟩ := h.current other number rest hother
          exact ⟨cast, hkept hcast, hrest⟩
      · intro first second number rest other hfirst hsecond
        refine h.alone_update (fun number rest hstate => Or.inr ?_) hfirst hsecond
        exact (Prod.mk.inj (Option.some.inj hstate)).1.le
      · rcases Nat.lt_trichotomy number ledger.begun.length with hlt | rfl | hgt
        · -- an older multicast
          have hsame : Ahead { ledger with
              begun := ledger.begun ++ [⟨message, targets⟩]
              current := Function.update ledger.current worker
                (some (ledger.begun.length, targets)) } number target ↔
              ledger.Ahead number target :=
            ahead_update_iff rfl (by simp [hcurrent]) (by simp [Nat.ne_of_gt hlt]) target
          rw [hsame]
          dsimp only
          rw [List.getElem?_append_left hlt]
          exact h.given number target
        · -- the new one, which has been given to nobody
          refine iff_of_false (fun hgiven => Nat.lt_irrefl _ (h.lt_of_given hgiven)) ?_
          rintro ⟨⟨cast, hcast, hmem⟩, hahead⟩
          obtain rfl : ⟨message, targets⟩ = cast := by simpa using hcast
          exact hahead ⟨worker, targets, by simp, hmem⟩
        · refine iff_of_false (fun hgiven => ?_) ?_
          · exact Nat.lt_asymm hgt (h.lt_of_given hgiven)
          · rintro ⟨⟨cast, hcast, -⟩, -⟩
            rw [List.getElem?_eq_none (by simp; omega)] at hcast
            simp at hcast

/-- A worker ends its multicast: no target was ahead of it any more, and what has been given
stays. -/
theorem Sound.leave (h : ledger.Sound) {worker : ω} {number : ℕ}
    (hcurrent : ledger.current worker = some (number, [])) :
    Sound { ledger with current := Function.update ledger.current worker none } := by
  refine ⟨h.distinct, fun other found rest hother => ?_, ?_, fun found target => ?_, h.once⟩
  · dsimp only at hother
    rw [Function.update_apply] at hother
    split at hother
    · simp at hother
    · exact h.current other found rest hother
  · intro first second found rest other hfirst hsecond
    exact h.alone_update (by simp) hfirst hsecond
  · rw [h.given]
    refine and_congr_right fun _ => not_congr ?_
    by_cases hsame : found = number
    · -- nothing was ahead of the worker
      subst hsame
      rw [h.ahead_iff hcurrent]
      refine iff_of_false List.not_mem_nil ?_
      rintro ⟨other, rest, hother, hmem⟩
      dsimp only at hother
      rw [Function.update_apply] at hother
      split at hother
      · simp at hother
      · next hne => exact hne (h.alone other worker _ _ _ hother hcurrent)
    · symm
      exact ahead_update_iff rfl (by simp [hcurrent, Ne.symm hsame]) (by simp) target

/-- A worker gives its multicast to the next target, which it has not been given before: the
target is still ahead, and its list names no target twice. -/
theorem Sound.give [DecidableEq τ] (h : ledger.Sound) {worker : ω} {number : ℕ} {target : τ}
    {rest : List τ} (hcurrent : ledger.current worker = some (number, target :: rest)) :
    Sound { ledger with
      current := Function.update ledger.current worker (some (number, rest))
      given := Function.update ledger.given target (ledger.given target ++ [number]) } := by
  obtain ⟨cast, hcast, hsuffix⟩ := h.current worker number _ hcurrent
  have hnodup : (target :: rest).Nodup :=
    (h.distinct cast (List.mem_of_getElem? hcast)).sublist hsuffix.sublist
  obtain ⟨hfresh, -⟩ := List.nodup_cons.mp hnodup
  have hahead := h.ahead_iff hcurrent
  have hnew : number ∉ ledger.given target := fun hgiven =>
    ((h.given number target).mp hgiven).2 ((hahead target).mpr List.mem_cons_self)
  refine ⟨h.distinct, fun other found later hother => ?_, ?_, fun found other => ?_,
    fun other => ?_⟩
  · dsimp only at hother
    rw [Function.update_apply] at hother
    split at hother
    · obtain ⟨rfl, rfl⟩ := Prod.mk.inj (Option.some.inj hother)
      exact ⟨cast, hcast, (List.suffix_cons ..).trans hsuffix⟩
    · exact h.current other found later hother
  · intro first second found later other hfirst hsecond
    refine h.alone_update (fun found later hstate => Or.inl ⟨target :: rest, ?_⟩) hfirst hsecond
    rw [hcurrent, (Prod.mk.inj (Option.some.inj hstate)).1]
  · by_cases hsame : found = number
    · -- the target is not ahead any more, and was given the number
      subst hsame
      have hlater : ∀ other, Ahead { ledger with
          current := Function.update ledger.current worker (some (found, rest))
          given := Function.update ledger.given target (ledger.given target ++ [found]) }
          found other ↔ other ∈ rest :=
        fun other => ahead_update_of_alone (fun elsewhere later hother =>
          h.alone elsewhere worker found later _ hother hcurrent) rfl other
      rw [hlater]
      dsimp only
      rw [Function.update_apply]
      split
      · next heq =>
          subst heq
          refine iff_of_true (List.mem_append_right _ (List.mem_singleton_self _)) ⟨?_, hfresh⟩
          exact ⟨cast, hcast, hsuffix.subset List.mem_cons_self⟩
      · next hne =>
          rw [h.given, hahead, List.mem_cons, or_iff_right hne]
    · have hlater : Ahead { ledger with
          current := Function.update ledger.current worker (some (number, rest))
          given := Function.update ledger.given target (ledger.given target ++ [number]) }
          found other ↔ ledger.Ahead found other :=
        ahead_update_iff rfl (by simp [hcurrent, Ne.symm hsame]) (by simp [Ne.symm hsame]) other
      rw [hlater, ← h.given]
      dsimp only
      rw [Function.update_apply]
      split
      · next heq =>
          subst heq
          rw [List.mem_append, List.mem_singleton, or_iff_left hsame]
      · exact Iff.rfl
  · dsimp only
    rw [Function.update_apply]
    split
    · refine List.nodup_append.mpr ⟨h.once target, List.nodup_singleton _, ?_⟩
      intro first hfirst second hsecond hsame
      obtain rfl := List.mem_singleton.mp hsecond
      exact hnew (hsame ▸ hfirst)
    · exact h.once other

theorem Sound.proceed [DecidableEq τ] (h : ledger.Sound) (worker : ω) :
    (ledger.proceed worker).Sound := by
  unfold Ledger.proceed
  split
  · exact h
  · next number hcurrent => exact h.leave hcurrent
  · next number target rest hcurrent => exact h.give hcurrent

theorem Sound.step [DecidableEq τ] (h : ledger.Sound) {event : Event ω τ μ}
    (hdistinct : event.Distinct) : (ledger.step event).Sound := by
  cases event with
  | start worker message targets => exact h.start worker message hdistinct
  | proceed worker => exact h.proceed worker

/-! ## Runs -/

section Runs

variable [DecidableEq τ] {events : List (Event ω τ μ)}

theorem sound_run (h : ledger.Sound) (hdistinct : ∀ event ∈ events, event.Distinct) :
    (run step ledger events).Sound := by
  induction events using List.reverseRecOn with
  | nil => exact h
  | append_singleton before event ih =>
      rw [run_concat]
      have hbefore := ih fun other hother => hdistinct other (List.mem_append_left _ hother)
      exact hbefore.step (hdistinct event (by simp))

/-- What has begun stays, and what was given stays given. -/
theorem prefix_step (ledger : Ledger ω τ μ) (event : Event ω τ μ) (target : τ) :
    ledger.begun <+: (ledger.step event).begun ∧
      ledger.given target <+: (ledger.step event).given target := by
  cases event with
  | start worker message targets =>
      simp only [step, start]
      split
      · exact ⟨List.prefix_append .., List.prefix_rfl⟩
      · exact ⟨List.prefix_rfl, List.prefix_rfl⟩
  | proceed worker =>
      simp only [step, proceed]
      split
      · exact ⟨List.prefix_rfl, List.prefix_rfl⟩
      · exact ⟨List.prefix_rfl, List.prefix_rfl⟩
      · refine ⟨List.prefix_rfl, ?_⟩
        dsimp only
        rw [Function.update_apply]
        split
        · next heq =>
            rw [heq]
            exact List.prefix_append ..
        · exact List.prefix_rfl

theorem prefix_run (ledger : Ledger ω τ μ) (events : List (Event ω τ μ)) (target : τ) :
    ledger.begun <+: (run step ledger events).begun ∧
      ledger.given target <+: (run step ledger events).given target := by
  refine run_invariant (P := fun next : Ledger ω τ μ => ledger.begun <+: next.begun ∧
    ledger.given target <+: next.given target) ⟨List.prefix_rfl, List.prefix_rfl⟩ ?_ events
  intro next event ⟨hbegun, hgiven⟩
  obtain ⟨hbegunNext, hgivenNext⟩ := prefix_step next event target
  exact ⟨hbegun.trans hbegunNext, hgiven.trans hgivenNext⟩

/-- **What has ended comes first.**  A multicast that has ended comes before all those that
begin later, whatever targets they share. -/
theorem precedes_of_ended (h : ledger.Sound) (hdistinct : ∀ event ∈ events, event.Distinct)
    {first second : ℕ} (hfirst : ledger.Ended first) (hsecond : ledger.begun.length ≤ second)
    (target : τ) : Precedes first second ((run step ledger events).given target) := by
  obtain ⟨hbegun, back, hback⟩ := prefix_run ledger events target
  refine ⟨ledger.given target, back, hback.symm, fun hgiven => ?_, fun hmem => ?_⟩
  · exact absurd (h.lt_of_given hgiven) (by omega)
  · have hafter := sound_run h hdistinct
    obtain ⟨⟨cast, hcast, htarget⟩, -⟩ := (hafter.given first target).mp
      (by rw [← hback]; exact List.mem_append_right _ hmem)
    have hold : ledger.begun[first]? = some cast := by
      obtain ⟨more, hmore⟩ := hbegun
      rw [← hcast, ← hmore, List.getElem?_append_left hfirst.1]
    -- it was given to the target already, and nothing is given twice
    have hgiven := (h.given first target).mpr ⟨⟨cast, hold, htarget⟩, hfirst.not_ahead target⟩
    have honce := hafter.once target
    rw [← hback] at honce
    exact (List.nodup_append.mp honce).2.2 first hgiven first hmem rfl

end Runs

end Ledger

end Multicast
