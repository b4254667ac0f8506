import Mathlib.Data.List.Nodup
import HktBase.Library.SecondaryIndex
import HktBase.Base.Graph

/-!
# The tag index of the graph

`SubjectNodes` read as a secondary index of `Behaviors`: the keys of a behavior are the
pairs of its subject and one of its tags, and the reference listed under them is its
address.  `AddBehavior` lists and puts.  `RemoveBehavior` unlists and erases when the
node of the subject has a `FTagNode` for one of the tags, and otherwise drops all keys of
the subject and erases.  `RemoveSubject` drops the keys of a subject.

What the index owes the store, and the store the index, is then read off the rules for
secondary indexes.
-/

namespace HktBase.Base

open Transition

variable {Address Tag : Type} [DecidableEq Address] [DecidableEq Tag]

omit [DecidableEq Address] [DecidableEq Tag] in
/-- The subject of a behavior with each of its tags. -/
def Behavior.keys (behavior : Behavior Address Tag) : Set (HktId × Tag) :=
  {key | key.1 = behavior.subjectId ∧ key.2 ∈ behavior.tags}

omit [DecidableEq Address] [DecidableEq Tag] in
theorem Behavior.mem_keys {behavior : Behavior Address Tag} {key : HktId × Tag} :
    key ∈ behavior.keys ↔ key.1 = behavior.subjectId ∧ key.2 ∈ behavior.tags :=
  Iff.rfl

/-! ## The references under a subject and a tag -/

omit [DecidableEq Address] in
/-- The `BehaviorRefs` of a tag. -/
def SubjectNode.refs (node : SubjectNode Address Tag) (tag : Tag) : List Address :=
  match node.tagNodes.find tag with
  | none => []
  | some tagNode => tagNode.behaviorRefs

omit [DecidableEq Tag] in
theorem addUnique_addUnique (refs : List Address) (address : Address) :
    addUnique (addUnique refs address) address = addUnique refs address := by
  by_cases hmem : address ∈ refs
  · simp only [addUnique, if_pos hmem]
  · simp [addUnique, if_neg hmem]

omit [DecidableEq Tag] in
theorem removeAll_removeAll (refs : List Address) (address : Address) :
    removeAll (removeAll refs address) address = removeAll refs address := by
  simp [removeAll]

omit [DecidableEq Address] in
/-- An update that has no further effect the second time, made at a tag and then at the
tags of a list. -/
theorem update_cons (update : List Address → List Address)
    (htwice : ∀ refs, update (update refs) = update refs) (refs : List Address) (tag other : Tag)
    (rest : List Tag) :
    (if other ∈ rest then update (if other = tag then update refs else refs)
      else if other = tag then update refs else refs) =
      if other ∈ tag :: rest then update refs else refs := by
  by_cases htag : other = tag
  · simp only [htag, if_true, List.mem_cons, true_or]
    split
    · exact htwice refs
    · rfl
  · simp only [htag, if_false, List.mem_cons, false_or]

omit [DecidableEq Tag] in
theorem mem_addUnique {refs : List Address} {address other : Address} :
    other ∈ addUnique refs address ↔ other ∈ refs ∨ other = address := by
  unfold addUnique
  split
  · next hmem =>
      constructor
      · exact Or.inl
      · rintro (h | rfl)
        · exact h
        · exact hmem
  · simp

omit [DecidableEq Tag] in
theorem nodup_addUnique {refs : List Address} (h : refs.Nodup) (address : Address) :
    (addUnique refs address).Nodup := by
  unfold addUnique
  split
  · exact h
  · next hmem => exact List.nodup_append_comm.mp (List.nodup_cons.mpr ⟨hmem, h⟩)

namespace SubjectNode

variable (node : SubjectNode Address Tag) (address : Address)

theorem refs_addTag (tag other : Tag) :
    (node.addTag address tag).refs other =
      if other = tag then addUnique (node.refs other) address else node.refs other := by
  simp only [addTag, refs, SparseMap.find_add]
  by_cases h : other = tag
  · subst h
    simp only [if_true]
    cases node.tagNodes.find other <;> rfl
  · simp only [if_neg h]

theorem refs_foldl_addTag (tags : List Tag) (other : Tag) :
    (tags.foldl (addTag address) node).refs other =
      if other ∈ tags then addUnique (node.refs other) address else node.refs other := by
  induction tags generalizing node with
  | nil => simp
  | cons tag rest ih =>
      rw [List.foldl_cons, ih, refs_addTag]
      exact update_cons (fun refs => addUnique refs address)
        (fun refs => addUnique_addUnique refs address) _ tag other rest

/-- One round of the loop over the tags: the pointer goes from the node of the tag, which stays
even when it is empty, and the flag records whether there was one. -/
theorem removeTag_spec (state : SubjectNode Address Tag × Bool) (tag other : Tag) :
    (removeTag address state tag).1.refs other =
        (if other = tag then removeAll (state.1.refs other) address else state.1.refs other) ∧
      (removeTag address state tag).1.tagNodes.contains other = state.1.tagNodes.contains other ∧
      (removeTag address state tag).2 = (state.2 || state.1.tagNodes.contains tag) := by
  cases hfind : state.1.tagNodes.find tag with
  | none =>
      rw [removeTag, hfind]
      refine ⟨?_, rfl, by simp [SparseMap.contains, hfind]⟩
      by_cases h : other = tag
      · simp [h, refs, hfind, removeAll]
      · rw [if_neg h]
  | some tagNode =>
      rw [removeTag, hfind]
      refine ⟨?_, ?_, by simp [SparseMap.contains, hfind]⟩
      · simp only [refs, SparseMap.find_add]
        by_cases h : other = tag
        · subst h
          simp [hfind]
        · simp only [if_neg h]
      · rw [Bool.eq_iff_iff, SparseMap.contains_add]
        constructor
        · rintro (rfl | h)
          · exact SparseMap.contains_iff.mpr ⟨tagNode, hfind⟩
          · exact h
        · exact Or.inr

/-- The loop of `RemoveBehavior`: it takes the pointer out of the nodes of the tags, and
raises the flag when one of them exists. -/
theorem foldl_removeTag_spec (tags : List Tag) (state : SubjectNode Address Tag × Bool)
    (other : Tag) :
    (tags.foldl (removeTag address) state).1.refs other =
        (if other ∈ tags then removeAll (state.1.refs other) address
          else state.1.refs other) ∧
      ((tags.foldl (removeTag address) state).2 = true ↔
        state.2 = true ∨ ∃ tag ∈ tags, state.1.tagNodes.contains tag = true) := by
  induction tags generalizing state with
  | nil => simp
  | cons tag rest ih =>
      obtain ⟨hrefs, hflag⟩ := ih (removeTag address state tag)
      rw [List.foldl_cons, hrefs, hflag, (removeTag_spec address state tag other).1,
        (removeTag_spec address state tag other).2.2]
      constructor
      · exact update_cons (fun refs => removeAll refs address)
          (fun refs => removeAll_removeAll refs address) _ tag other rest
      · simp only [(removeTag_spec address state tag _).2.1, Bool.or_eq_true, List.mem_cons,
          exists_eq_or_imp, or_assoc]

end SubjectNode

namespace HktGraph

variable (graph : HktGraph Address Tag)

omit [DecidableEq Address] in
/-- The `BehaviorRefs` under a subject and a tag. -/
def behaviorRefs (subjectId : HktId) (tag : Tag) : List Address :=
  match graph.subjectNodes.find subjectId with
  | none => []
  | some node => node.refs tag

omit [DecidableEq Address] in
/-- The node of the subject has a `FTagNode` for the tag. -/
def HasTagNode (subjectId : HktId) (tag : Tag) : Prop :=
  ∃ node, graph.subjectNodes.find subjectId = some node ∧ node.tagNodes.contains tag = true

theorem behaviorRefs_addBehavior (behavior : Behavior Address Tag) (subjectId : HktId) (tag : Tag) :
    (graph.addBehavior behavior).behaviorRefs subjectId tag =
      if subjectId = behavior.subjectId ∧ tag ∈ behavior.tags then
        addUnique (graph.behaviorRefs subjectId tag) behavior.address
      else graph.behaviorRefs subjectId tag := by
  unfold addBehavior behaviorRefs
  simp only [SparseMap.find_add]
  by_cases hsubject : subjectId = behavior.subjectId
  · subst hsubject
    simp only [if_true, true_and, SubjectNode.refs_foldl_addTag]
    cases graph.subjectNodes.find behavior.subjectId <;> rfl
  · simp [hsubject]

theorem behaviorRefs_removeBehaviorRef (behavior : Behavior Address Tag)
    (hnode : ∃ tag ∈ behavior.tags, graph.HasTagNode behavior.subjectId tag) (subjectId : HktId)
    (tag : Tag) :
    (graph.removeBehaviorRef behavior).behaviorRefs subjectId tag =
      if subjectId = behavior.subjectId ∧ tag ∈ behavior.tags then
        removeAll (graph.behaviorRefs subjectId tag) behavior.address
      else graph.behaviorRefs subjectId tag := by
  obtain ⟨listed, hlisted, node, hfind, hcontains⟩ := hnode
  obtain ⟨hrefs, hflag⟩ :=
    SubjectNode.foldl_removeTag_spec behavior.address behavior.tags (node, false) tag
  have hexist := hflag.mpr (Or.inr ⟨listed, hlisted, hcontains⟩)
  unfold removeBehaviorRef behaviorRefs
  simp only [hfind, hexist, if_true, SparseMap.find_add]
  by_cases hsubject : subjectId = behavior.subjectId
  · subst hsubject
    simp only [if_true, true_and, hrefs, hfind]
  · simp [hsubject]

theorem behaviorRefs_removeBehaviorRef_of_none (behavior : Behavior Address Tag)
    (hnode : ∀ tag ∈ behavior.tags, ¬ graph.HasTagNode behavior.subjectId tag) (subjectId : HktId)
    (tag : Tag) :
    (graph.removeBehaviorRef behavior).behaviorRefs subjectId tag =
      if subjectId = behavior.subjectId then [] else graph.behaviorRefs subjectId tag := by
  cases hfind : graph.subjectNodes.find behavior.subjectId with
  | none =>
      rw [removeBehaviorRef_of_none graph hfind]
      split
      · next hsubject => rw [behaviorRefs, hsubject, hfind]
      · rfl
  | some node =>
      obtain ⟨-, hflag⟩ :=
        SubjectNode.foldl_removeTag_spec behavior.address behavior.tags (node, false) tag
      -- the flag stays down, because no tag of the behavior has an `FTagNode`
      have hexist : (behavior.tags.foldl (SubjectNode.removeTag behavior.address)
          (node, false)).2 = false := by
        rw [Bool.eq_false_iff, ne_eq, hflag]
        rintro (h | ⟨listed, hlisted, hcontains⟩)
        · simp at h
        · exact hnode listed hlisted ⟨node, hfind, hcontains⟩
      unfold removeBehaviorRef behaviorRefs
      simp only [hfind, hexist, Bool.false_eq_true, if_false, SparseMap.find_remove,
        SparseMap.find_add]
      by_cases hsubject : subjectId = behavior.subjectId
      · simp [hsubject]
      · simp [hsubject]

omit [DecidableEq Address] in
theorem behaviorRefs_removeSubject (removed subjectId : HktId) (tag : Tag) :
    (graph.removeSubject removed).behaviorRefs subjectId tag =
      if subjectId = removed then [] else graph.behaviorRefs subjectId tag := by
  unfold removeSubject behaviorRefs
  simp only [SparseMap.find_remove]
  by_cases hsubject : subjectId = removed
  · simp [hsubject]
  · simp [hsubject]

/-! ## The graph as a store with a secondary index -/

/-- Behaviors under their ids, and addresses under pairs of a subject and a tag. -/
def toIndexedStore : IndexedStore HktId (Behavior Address Tag) Address (HktId × Tag) :=
  { store := fun behaviorId => graph.findBehavior behaviorId
    index := fun key => {address | address ∈ graph.behaviorRefs key.1 key.2} }

theorem toIndexedStore_addBehavior (behavior : Behavior Address Tag) :
    (graph.addBehavior behavior).toIndexedStore =
      (graph.toIndexedStore.list Behavior.address Behavior.keys behavior).put
        behavior.behaviorId behavior := by
  unfold toIndexedStore IndexedStore.list IndexedStore.put
  congr 1
  · funext behaviorId
    rw [findBehavior_addBehavior, Function.update_apply]
  · funext key
    ext address
    rw [Set.mem_ofPred_eq, behaviorRefs_addBehavior, Set.mem_ofPred_eq, Behavior.mem_keys]
    split
    · next hkey => simp [mem_addUnique, hkey]
    · next hkey => simp [hkey]

/-- The loop of `RemoveBehavior` has found a `FTagNode`. -/
theorem toIndexedStore_removeBehaviorRef {behavior : Behavior Address Tag}
    (hnode : ∃ tag ∈ behavior.tags, graph.HasTagNode behavior.subjectId tag) :
    (graph.removeBehaviorRef behavior).toIndexedStore =
      (graph.toIndexedStore.unlist Behavior.address Behavior.keys behavior).erase
        behavior.behaviorId := by
  unfold toIndexedStore IndexedStore.unlist IndexedStore.erase
  congr 1
  · obtain ⟨tag, -, node, hfind, -⟩ := hnode
    funext behaviorId
    rw [findBehavior_removeBehaviorRef graph hfind, Function.update_apply]
  · funext key
    ext address
    rw [Set.mem_ofPred_eq, behaviorRefs_removeBehaviorRef graph behavior hnode, Set.mem_ofPred_eq,
      Behavior.mem_keys]
    split
    · next hkey => simp [removeAll, hkey]
    · next hkey => simp [hkey]

/-- The loop of `RemoveBehavior` has found no `FTagNode` in the node of the subject. -/
theorem toIndexedStore_removeBehaviorRef_of_none {behavior : Behavior Address Tag}
    {node : SubjectNode Address Tag}
    (hfind : graph.subjectNodes.find behavior.subjectId = some node)
    (hnode : ∀ tag ∈ behavior.tags, ¬ graph.HasTagNode behavior.subjectId tag) :
    (graph.removeBehaviorRef behavior).toIndexedStore =
      (graph.toIndexedStore.dropKeys {key | key.1 = behavior.subjectId}).erase
        behavior.behaviorId := by
  unfold toIndexedStore IndexedStore.dropKeys IndexedStore.erase
  congr 1
  · funext behaviorId
    rw [findBehavior_removeBehaviorRef graph hfind, Function.update_apply]
  · funext key
    ext address
    rw [Set.mem_ofPred_eq, behaviorRefs_removeBehaviorRef_of_none graph behavior hnode,
      Set.mem_ofPred_eq, Set.mem_ofPred_eq]
    split
    · next hkey => simp [hkey]
    · next hkey => simp [hkey]

omit [DecidableEq Address] in
theorem toIndexedStore_removeSubject (subjectId : HktId) :
    (graph.removeSubject subjectId).toIndexedStore =
      graph.toIndexedStore.dropKeys {key | key.1 = subjectId} := by
  unfold toIndexedStore IndexedStore.dropKeys
  congr 1
  funext key
  ext address
  rw [Set.mem_ofPred_eq, behaviorRefs_removeSubject, Set.mem_ofPred_eq, Set.mem_ofPred_eq]
  split
  · next hkey => simp [hkey]
  · next hkey => simp [hkey]

end HktGraph

end HktBase.Base
