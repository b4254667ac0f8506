import HktBase.Base.Graph

/-!
# Removing a subject

`RemoveSubject` removes the node of the subject from `SubjectNodes` and nothing else.
`FSubjectNode` has an array that could own the behaviors of the subject, but `AddBehavior`
never fills it: the behaviors are in `Behaviors`, and stay there.  `RemoveBehavior` starts
from the node of the subject, so it cannot remove them either.

That the behaviors of other subjects are left alone, in the tag index too, holds whatever is
stored; what decides is whether the subject has a behavior at all.
-/

namespace HktBase.Base

open Transition

variable {Address Tag : Type} [DecidableEq Address] [DecidableEq Tag]

namespace HktGraph

/-! ## What a removed subject leaves behind -/

omit [DecidableEq Address] [DecidableEq Tag] in
/-- After `RemoveSubject` no behavior of the subject can be found, and for each behavior of
another subject the lookup and the node of its subject, with all its tags, are as before. -/
def RemovesSubject (graph : HktGraph Address Tag) (subjectId : HktId) : Prop :=
  (∀ behaviorId behavior, graph.findBehavior behaviorId = some behavior →
    behavior.subjectId = subjectId →
    (graph.removeSubject subjectId).findBehavior behavior.behaviorId = none) ∧
  ∀ behaviorId behavior, graph.findBehavior behaviorId = some behavior →
    behavior.subjectId ≠ subjectId →
    (graph.removeSubject subjectId).findBehavior behaviorId = some behavior ∧
      (graph.removeSubject subjectId).subjectNodes.find behavior.subjectId =
        graph.subjectNodes.find behavior.subjectId

omit [DecidableEq Address] [DecidableEq Tag] in
theorem find_subjectNodes_removeSubject (graph : HktGraph Address Tag) (removed subjectId : HktId) :
    (graph.removeSubject removed).subjectNodes.find subjectId =
      if subjectId = removed then none else graph.subjectNodes.find subjectId :=
  SparseMap.find_remove ..

/-- **When removing a subject removes what belongs to it.**  In every reachable graph,
after `RemoveSubject` none of the behaviors of the subject can be found and those of other
subjects are as before, in `Behaviors` and in the tag index, exactly when no behavior of the
subject is stored. -/
theorem removeSubject_removes_iff (events : List (GraphEvent Address Tag)) (subjectId : HktId) :
    (run step {} events).RemovesSubject subjectId ↔
      ∀ behaviorId behavior, (run step {} events).findBehavior behaviorId = some behavior →
        behavior.subjectId ≠ subjectId := by
  have hid := storedById_run events
  generalize run step {} events = graph at hid ⊢
  constructor
  · intro h behaviorId behavior hfind hsubject
    -- a stored behavior would still be found under its id
    have hgone := h.1 behaviorId behavior hfind hsubject
    rw [findBehavior_removeSubject, hid behaviorId behavior hfind, hfind] at hgone
    simp at hgone
  · intro hnone
    constructor
    · intro behaviorId behavior hfind hsubject
      exact absurd hsubject (hnone behaviorId behavior hfind)
    · intro behaviorId behavior hfind hsubject
      refine ⟨hfind, ?_⟩
      rw [find_subjectNodes_removeSubject, if_neg hsubject]

/-- A behavior of subject 2 with one tag. -/
def taggedBehavior : List (GraphEvent ℕ String) :=
  [.addBehavior ⟨0, 101, 2, ["Unit"]⟩]

/-- It is found as before once its subject is removed. -/
theorem removeSubject_leaves_behavior :
    ¬ (run step {} taggedBehavior).RemovesSubject 2 := by
  intro h
  have hgone := h.1 101 ⟨0, 101, 2, ["Unit"]⟩ (by decide +kernel) rfl
  have hstill : ((run step {} taggedBehavior).removeSubject 2).findBehavior 101 =
      some (⟨0, 101, 2, ["Unit"]⟩ : Behavior ℕ String) := by
    decide +kernel
  rw [hstill] at hgone
  simp at hgone

end HktGraph

end HktBase.Base
