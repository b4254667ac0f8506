import HktBase.Library.Run
import HktBase.Library.SparseMap

/-!
# The behavior graph

`FHktGraph` keeps every behavior in two places.  `Behaviors` owns it, under its id.
`SubjectNodes` indexes it: the node of its subject lists a pointer to it under each of
its tags.  `AddBehavior` writes both, `RemoveBehavior` starts from the index, and
`RemoveSubject` touches the index only.

A behavior is its identity as an object, `address`, and what its virtual functions
return.  Addresses and tags are arbitrary types.

`AddBehavior` writes under the id that the behavior returns, which is the invariant
`StoredById`: what `FindBehavior` finds has the id that it was asked for.  With it the effect
of `RemoveBehavior` is decided by the node of one subject.
-/

namespace HktBase.Base

open Transition

/-- `FHktId`. -/
abbrev HktId := Int64

abbrev TMap (K V : Type) := SparseMap K V

variable {Address Tag : Type}

/-! ## Data -/

/-- `IHktBehavior`, with the object's address. -/
structure Behavior (Address Tag : Type) where
  address : Address
  behaviorId : HktId
  subjectId : HktId
  tags : List Tag
  deriving DecidableEq

/-- `FTagNode`. -/
structure TagNode (Address : Type) where
  behaviorRefs : List Address := []

/-- `FSubjectNode`. -/
structure SubjectNode (Address Tag : Type) where
  tagNodes : TMap Tag (TagNode Address) := ∅

/-- `FHktGraph::FContext`. -/
structure HktGraph (Address Tag : Type) where
  behaviors : TMap HktId (Behavior Address Tag) := ∅
  subjectNodes : TMap HktId (SubjectNode Address Tag) := ∅

/-! ## Operations -/

section

variable [DecidableEq Address] [DecidableEq Tag]

/-- `TArray::AddUnique`. -/
def addUnique (refs : List Address) (address : Address) : List Address :=
  if address ∈ refs then refs else refs ++ [address]

/-- `TArray::Remove`. -/
def removeAll (refs : List Address) (address : Address) : List Address :=
  refs.filter fun ref => ref ≠ address

/-- The loop body of `AddBehavior`. -/
def SubjectNode.addTag (address : Address) (node : SubjectNode Address Tag) (tag : Tag) :
    SubjectNode Address Tag :=
  let tagNode := (node.tagNodes.find tag).getD {}
  { node with
    tagNodes := node.tagNodes.add tag
      { tagNode with behaviorRefs := addUnique tagNode.behaviorRefs address } }

/-- The loop body of `RemoveBehavior`, with the flag `bExist`. -/
def SubjectNode.removeTag (address : Address) (state : SubjectNode Address Tag × Bool)
    (tag : Tag) : SubjectNode Address Tag × Bool :=
  match state.1.tagNodes.find tag with
  | none => state
  | some tagNode =>
      ({ state.1 with
        tagNodes := state.1.tagNodes.add tag
          { tagNode with behaviorRefs := removeAll tagNode.behaviorRefs address } }, true)

namespace HktGraph

/-- `AddBehavior`. -/
def addBehavior (behavior : Behavior Address Tag) (graph : HktGraph Address Tag) :
    HktGraph Address Tag :=
  -- `FindOrAdd`, and the node is updated in place
  let subjectNode := (graph.subjectNodes.find behavior.subjectId).getD {}
  let subjectNode := behavior.tags.foldl (SubjectNode.addTag behavior.address) subjectNode
  { graph with
    subjectNodes := graph.subjectNodes.add behavior.subjectId subjectNode
    -- `Emplace` destroys the behavior stored under the id, if there is one
    behaviors := graph.behaviors.add behavior.behaviorId behavior }

omit [DecidableEq Address] [DecidableEq Tag] in
/-- `FindBehavior`. -/
def findBehavior (behaviorId : HktId) (graph : HktGraph Address Tag) :
    Option (Behavior Address Tag) :=
  graph.behaviors.find behaviorId

/-- `RemoveBehavior(const IHktBehavior&)`. -/
def removeBehaviorRef (behavior : Behavior Address Tag) (graph : HktGraph Address Tag) :
    HktGraph Address Tag :=
  match graph.subjectNodes.find behavior.subjectId with
  | none => graph
  | some subjectNode =>
      let (subjectNode, bExist) :=
        behavior.tags.foldl (SubjectNode.removeTag behavior.address) (subjectNode, false)
      let subjectNodes := graph.subjectNodes.add behavior.subjectId subjectNode
      { graph with
        subjectNodes := if bExist then subjectNodes else subjectNodes.remove behavior.subjectId
        behaviors := graph.behaviors.remove behavior.behaviorId }

/-- `RemoveBehavior(FHktId)`. -/
def removeBehavior (behaviorId : HktId) (graph : HktGraph Address Tag) : HktGraph Address Tag :=
  match graph.behaviors.find behaviorId with
  | none => graph
  | some behavior => graph.removeBehaviorRef behavior

omit [DecidableEq Address] [DecidableEq Tag] in
/-- `RemoveSubject`. -/
def removeSubject (subjectId : HktId) (graph : HktGraph Address Tag) : HktGraph Address Tag :=
  { graph with subjectNodes := graph.subjectNodes.remove subjectId }

end HktGraph

/-! ## Runs -/

/-- A call of a public function of the graph. -/
inductive GraphEvent (Address Tag : Type)
  | addBehavior (behavior : Behavior Address Tag)
  | removeBehavior (behaviorId : HktId)
  | removeBehaviorRef (behavior : Behavior Address Tag)
  | removeSubject (subjectId : HktId)

namespace HktGraph

def step (graph : HktGraph Address Tag) : GraphEvent Address Tag → HktGraph Address Tag
  | .addBehavior behavior => graph.addBehavior behavior
  | .removeBehavior behaviorId => graph.removeBehavior behaviorId
  | .removeBehaviorRef behavior => graph.removeBehaviorRef behavior
  | .removeSubject subjectId => graph.removeSubject subjectId

/-! ## The owned behaviors -/

variable (graph : HktGraph Address Tag)

@[simp] theorem findBehavior_addBehavior (behavior : Behavior Address Tag) (behaviorId : HktId) :
    (graph.addBehavior behavior).findBehavior behaviorId =
      if behaviorId = behavior.behaviorId then some behavior else graph.findBehavior behaviorId :=
  SparseMap.find_add ..

/-- `RemoveBehavior` does nothing at all unless the subject of the behavior has a node. -/
theorem removeBehaviorRef_of_none {behavior : Behavior Address Tag}
    (hnode : graph.subjectNodes.find behavior.subjectId = none) :
    graph.removeBehaviorRef behavior = graph := by
  rw [removeBehaviorRef, hnode]

theorem findBehavior_removeBehaviorRef {behavior : Behavior Address Tag}
    {subjectNode : SubjectNode Address Tag}
    (hnode : graph.subjectNodes.find behavior.subjectId = some subjectNode) (behaviorId : HktId) :
    (graph.removeBehaviorRef behavior).findBehavior behaviorId =
      if behaviorId = behavior.behaviorId then none else graph.findBehavior behaviorId := by
  rw [removeBehaviorRef, hnode]
  exact SparseMap.find_remove ..

omit [DecidableEq Address] [DecidableEq Tag] in
@[simp] theorem findBehavior_removeSubject (subjectId behaviorId : HktId) :
    (graph.removeSubject subjectId).findBehavior behaviorId = graph.findBehavior behaviorId :=
  rfl

/-- Every behavior is stored under its own id. -/
def StoredById : Prop :=
  ∀ behaviorId behavior, graph.findBehavior behaviorId = some behavior →
    behavior.behaviorId = behaviorId

variable {graph}

theorem storedById_removeBehaviorRef (h : graph.StoredById) (behavior : Behavior Address Tag) :
    (graph.removeBehaviorRef behavior).StoredById := by
  cases hnode : graph.subjectNodes.find behavior.subjectId with
  | none => rwa [removeBehaviorRef_of_none graph hnode]
  | some subjectNode =>
      intro behaviorId found hfound
      rw [findBehavior_removeBehaviorRef graph hnode] at hfound
      split at hfound
      · simp at hfound
      · exact h behaviorId found hfound

theorem storedById_step (h : graph.StoredById) (event : GraphEvent Address Tag) :
    (graph.step event).StoredById := by
  cases event with
  | addBehavior behavior =>
      intro behaviorId found hfound
      simp only [step, findBehavior_addBehavior] at hfound
      split at hfound
      · next hid => rw [hid, Option.some.inj hfound]
      · exact h behaviorId found hfound
  | removeBehavior behaviorId =>
      simp only [step, removeBehavior]
      split
      · exact h
      · exact storedById_removeBehaviorRef h _
  | removeBehaviorRef behavior => exact storedById_removeBehaviorRef h behavior
  | removeSubject subjectId => exact h

theorem storedById_run (events : List (GraphEvent Address Tag)) :
    (run step ({} : HktGraph Address Tag) events).StoredById := by
  apply run_invariant (P := StoredById)
  · simp [StoredById, findBehavior]
  · exact fun graph event h => storedById_step h event

/-- **When a removed behavior is gone.**  In every reachable graph, after
`RemoveBehavior` with an id, `FindBehavior` returns null for the id and what it returned
before for the other ones, exactly when the id is not stored or the subject of the
behavior stored under it has a node. -/
theorem removeBehavior_removes_iff (events : List (GraphEvent Address Tag)) (behaviorId : HktId) :
    (((run step {} events).removeBehavior behaviorId).findBehavior behaviorId = none ∧
      ∀ other, other ≠ behaviorId →
        ((run step {} events).removeBehavior behaviorId).findBehavior other =
          (run step {} events).findBehavior other) ↔
      ∀ behavior, (run step {} events).findBehavior behaviorId = some behavior →
        (run step {} events).subjectNodes.contains behavior.subjectId = true := by
  have hid := storedById_run events
  generalize run step {} events = graph at hid ⊢
  cases hfind : graph.findBehavior behaviorId with
  | none =>
      have hskip : graph.removeBehavior behaviorId = graph := by
        rw [removeBehavior, show graph.behaviors.find behaviorId = none from hfind]
      rw [hskip]
      exact iff_of_true ⟨hfind, fun _ _ => rfl⟩ (by simp)
  | some behavior =>
      have hremove : graph.removeBehavior behaviorId = graph.removeBehaviorRef behavior := by
        rw [removeBehavior, show graph.behaviors.find behaviorId = some behavior from hfind]
      rw [hremove]
      cases hnode : graph.subjectNodes.find behavior.subjectId with
      -- no node: `RemoveBehavior` returns before it comes to `Behaviors`
      | none =>
          refine iff_of_false ?_ ?_
          · rw [removeBehaviorRef_of_none graph hnode, hfind]
            simp
          · simp [SparseMap.contains, hnode]
      | some subjectNode =>
          refine iff_of_true ⟨?_, fun other hother => ?_⟩ ?_
          · rw [findBehavior_removeBehaviorRef graph hnode, if_pos (hid behaviorId behavior hfind).symm]
          · rw [findBehavior_removeBehaviorRef graph hnode, if_neg]
            rwa [hid behaviorId behavior hfind]
          · intro found hfound
            rw [← Option.some.inj hfound]
            exact SparseMap.contains_iff.mpr ⟨subjectNode, hnode⟩

/-- Two behaviors of subject 2 without tags, as `THktBehavior` has them. -/
def untaggedSiblings : List (GraphEvent ℕ String) :=
  [.addBehavior ⟨0, 101, 2, []⟩, .addBehavior ⟨1, 102, 2, []⟩, .removeBehavior 101]

/-- The removal of the first one takes the node of the subject with it, and the second
one can no longer be removed. -/
theorem removeBehavior_leaves_sibling :
    ¬ (((run step {} untaggedSiblings).removeBehavior 102).findBehavior 102 = none ∧
      ∀ other, other ≠ 102 →
        ((run step {} untaggedSiblings).removeBehavior 102).findBehavior other =
          (run step {} untaggedSiblings).findBehavior other) := by
  have hstill : ((run step {} untaggedSiblings).removeBehavior 102).findBehavior 102 =
      some (⟨1, 102, 2, []⟩ : Behavior ℕ String) := by
    decide +kernel
  intro h
  rw [hstill] at h
  simp at h

end HktGraph

end

end HktBase.Base
