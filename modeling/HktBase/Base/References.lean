import HktBase.Base.TagIndex

/-!
# References between the two maps

When the tag index lists every stored behavior, and when every pointer it holds belongs
to a stored one.  Both are lost in single calls only, and both results are of the same
form: a run has the property in every state exactly when none of its calls finds the
graph in a state in which it does the damage.

Completeness is lost when `RemoveBehavior` finds no `FTagNode` for the tags of the removed
behavior and takes the whole node of the subject away, and when `RemoveSubject` does.  A
pointer becomes stale when a behavior leaves `Behaviors` while it is listed: replaced by
`AddBehavior`, or removed through another object with its id.

Objects that are alive at the same time have different addresses.

Both results go through `toIndexedStore`, the graph read as a store with a secondary index, and
the conditions are those of the library for the operation that a call amounts to
(`removeBehaviorRef_cases`).  `Tidy` collects what holds of every reachable graph and is used
for both.
-/

namespace HktBase.Base

open Transition

variable {Address Tag : Type} [DecidableEq Address] [DecidableEq Tag]

namespace HktGraph

/-! ## Objects -/

omit [DecidableEq Address] [DecidableEq Tag] in
/-- The graph owns its behaviors, so that an object handed to it is none of them, and an
object with the address of one is that one. -/
def LiveObjects (graph : HktGraph Address Tag) : GraphEvent Address Tag → Prop
  | .addBehavior behavior =>
      ∀ behaviorId other, graph.findBehavior behaviorId = some other →
        other.address ≠ behavior.address
  | .removeBehaviorRef behavior =>
      ∀ behaviorId other, graph.findBehavior behaviorId = some other →
        other.address = behavior.address → other = behavior
  | _ => True

omit [DecidableEq Address] [DecidableEq Tag] in
theorem forall_findBehavior_iff {graph : HktGraph Address Tag}
    {P : Behavior Address Tag → Prop} :
    (∀ entry ∈ graph.behaviors.entries, P entry.2) ↔
      ∀ behaviorId other, graph.findBehavior behaviorId = some other → P other := by
  constructor
  · intro h behaviorId other hstored
    exact h (behaviorId, other) (SparseMap.find_eq_some_iff.mp hstored)
  · intro h stored hmem
    obtain ⟨behaviorId, other⟩ := stored
    exact h behaviorId other (SparseMap.find_eq_some_iff.mpr hmem)

instance (graph : HktGraph Address Tag) : DecidablePred graph.LiveObjects
  | .addBehavior _ => decidable_of_iff _ forall_findBehavior_iff
  | .removeBehaviorRef _ => decidable_of_iff _ forall_findBehavior_iff
  | .removeBehavior _ => .isTrue trivial
  | .removeSubject _ => .isTrue trivial

/-- What holds in every graph whose objects are alive: behaviors are stored under their
own ids and have different addresses, and no pointer is listed twice in one place. -/
structure Tidy (graph : HktGraph Address Tag) : Prop where
  storedById : graph.StoredById
  distinct : graph.toIndexedStore.DistinctRefs Behavior.address
  nodup : ∀ subjectId tag, (graph.behaviorRefs subjectId tag).Nodup

variable {graph : HktGraph Address Tag}

/-- What `RemoveBehavior` does to the two maps: nothing without a node of the subject; the
pointers under its tags and the object, where one of the tags has a node; and the whole node of
the subject otherwise. -/
theorem removeBehaviorRef_cases (graph : HktGraph Address Tag) (behavior : Behavior Address Tag) :
    (graph.subjectNodes.find behavior.subjectId = none ∧
        graph.removeBehaviorRef behavior = graph) ∨
      ((∃ tag ∈ behavior.tags, graph.HasTagNode behavior.subjectId tag) ∧
        (graph.removeBehaviorRef behavior).toIndexedStore =
          (graph.toIndexedStore.unlist Behavior.address Behavior.keys behavior).erase
            behavior.behaviorId) ∨
      ((∀ tag ∈ behavior.tags, ¬ graph.HasTagNode behavior.subjectId tag) ∧
        graph.subjectNodes.contains behavior.subjectId = true ∧
        (graph.removeBehaviorRef behavior).toIndexedStore =
          (graph.toIndexedStore.dropKeys {key | key.1 = behavior.subjectId}).erase
            behavior.behaviorId) := by
  by_cases hexist : ∃ tag ∈ behavior.tags, graph.HasTagNode behavior.subjectId tag
  · exact Or.inr (Or.inl ⟨hexist, toIndexedStore_removeBehaviorRef graph hexist⟩)
  · push Not at hexist
    cases hfind : graph.subjectNodes.find behavior.subjectId with
    | none => exact Or.inl ⟨rfl, removeBehaviorRef_of_none graph hfind⟩
    | some node =>
        refine Or.inr (Or.inr ⟨hexist, ?_, ?_⟩)
        · exact SparseMap.contains_iff.mpr ⟨node, hfind⟩
        · exact toIndexedStore_removeBehaviorRef_of_none graph hfind hexist

theorem Tidy.removeBehaviorRef (h : graph.Tidy) (behavior : Behavior Address Tag) :
    (graph.removeBehaviorRef behavior).Tidy := by
  refine ⟨storedById_removeBehaviorRef h.storedById behavior, ?_, ?_⟩
  · rcases removeBehaviorRef_cases graph behavior with ⟨-, hsame⟩ | ⟨-, hstore⟩ | ⟨-, -, hstore⟩
    · rw [hsame]
      exact h.distinct
    · rw [hstore]
      exact IndexedStore.DistinctRefs.erase h.distinct _
    · rw [hstore]
      exact IndexedStore.DistinctRefs.erase h.distinct _
  · intro subjectId tag
    by_cases hexist : ∃ tag ∈ behavior.tags, graph.HasTagNode behavior.subjectId tag
    · rw [behaviorRefs_removeBehaviorRef graph behavior hexist]
      split
      · exact (h.nodup subjectId tag).filter _
      · exact h.nodup subjectId tag
    · push Not at hexist
      rw [behaviorRefs_removeBehaviorRef_of_none graph behavior hexist]
      split
      · exact List.nodup_nil
      · exact h.nodup subjectId tag

theorem Tidy.step (h : graph.Tidy) {event : GraphEvent Address Tag}
    (hlive : graph.LiveObjects event) : (graph.step event).Tidy := by
  cases event with
  | addBehavior behavior =>
      -- a replaced object may share its id with the new one, but not its address
      refine ⟨storedById_step h.storedById (.addBehavior behavior), ?_, ?_⟩
      · rw [HktGraph.step, toIndexedStore_addBehavior]
        refine IndexedStore.DistinctRefs.put h.distinct _ ?_
        intro hlive
        obtain ⟨behaviorId, other, hstored, haddress⟩ := hlive
        exact hlive behaviorId other hstored haddress
      · intro subjectId tag
        rw [HktGraph.step, behaviorRefs_addBehavior]
        split
        · exact nodup_addUnique (h.nodup subjectId tag) _
        · exact h.nodup subjectId tag
  | removeBehavior behaviorId =>
      rw [HktGraph.step, removeBehavior]
      split
      · exact h
      · exact h.removeBehaviorRef _
  | removeBehaviorRef behavior => exact h.removeBehaviorRef behavior
  | removeSubject removed =>
      refine ⟨h.storedById, ?_, ?_⟩
      · rw [HktGraph.step, toIndexedStore_removeSubject]
        exact h.distinct
      · intro subjectId tag
        rw [HktGraph.step, behaviorRefs_removeSubject]
        split
        · exact List.nodup_nil
        · exact h.nodup subjectId tag

omit [DecidableEq Address] in
theorem tidy_empty : ({} : HktGraph Address Tag).Tidy := by
  refine ⟨?_, ?_, ?_⟩
  · simp [StoredById, findBehavior]
  · simp [IndexedStore.DistinctRefs, toIndexedStore, findBehavior]
  · simp [behaviorRefs]

omit [DecidableEq Address] in
theorem Tidy.liveObjects_stored (h : graph.Tidy) {behaviorId : HktId}
    {behavior : Behavior Address Tag} (hstored : graph.findBehavior behaviorId = some behavior) :
    graph.LiveObjects (.removeBehaviorRef behavior) := by
  intro other found hfound haddress
  obtain rfl := h.distinct other behaviorId found behavior hfound hstored haddress
  exact Option.some.inj (hfound.symm.trans hstored)

/-! ## Completeness -/

/-- Every stored behavior is listed exactly once under its subject and each of its tags. -/
def IndexComplete (graph : HktGraph Address Tag) : Prop :=
  ∀ behaviorId behavior, graph.findBehavior behaviorId = some behavior → ∀ tag ∈ behavior.tags,
    ∃ subjectNode tagNode, graph.subjectNodes.find behavior.subjectId = some subjectNode ∧
      subjectNode.tagNodes.find tag = some tagNode ∧
      tagNode.behaviorRefs.count behavior.address = 1

omit [DecidableEq Address] [DecidableEq Tag] in
/-- No other stored behavior of the subject has a tag. -/
def NoTaggedSibling (graph : HktGraph Address Tag) (behavior : Behavior Address Tag) : Prop :=
  ∀ behaviorId other, graph.findBehavior behaviorId = some other →
    behaviorId ≠ behavior.behaviorId → other.subjectId = behavior.subjectId → other.tags = []

omit [DecidableEq Address] in
/-- A stored behavior without tags is removed only when no other stored behavior of its
subject has any, and so is an object that is not stored and for whose tags the subject
has no `FTagNode`; `RemoveSubject` is called on subjects without tagged behaviors. -/
def KeepsSiblings (graph : HktGraph Address Tag) : GraphEvent Address Tag → Prop
  | .addBehavior _ => True
  | .removeBehavior behaviorId =>
      ∀ behavior, graph.findBehavior behaviorId = some behavior → behavior.tags = [] →
        graph.NoTaggedSibling behavior
  | .removeBehaviorRef behavior =>
      (∀ tag ∈ behavior.tags, ¬ graph.HasTagNode behavior.subjectId tag) →
        graph.NoTaggedSibling behavior
  | .removeSubject subjectId =>
      ∀ behaviorId behavior, graph.findBehavior behaviorId = some behavior →
        behavior.subjectId = subjectId → behavior.tags = []

omit [DecidableEq Address] in
theorem mem_behaviorRefs_iff {subjectId : HktId} {tag : Tag} {address : Address} :
    address ∈ graph.behaviorRefs subjectId tag ↔
      ∃ subjectNode tagNode, graph.subjectNodes.find subjectId = some subjectNode ∧
        subjectNode.tagNodes.find tag = some tagNode ∧ address ∈ tagNode.behaviorRefs := by
  unfold behaviorRefs
  cases hnode : graph.subjectNodes.find subjectId with
  | none => simp
  | some subjectNode =>
      simp only [SubjectNode.refs]
      cases htag : subjectNode.tagNodes.find tag with
      | none => simp [htag]
      | some tagNode => simp [htag]

theorem Tidy.indexComplete_iff (h : graph.Tidy) :
    graph.IndexComplete ↔ graph.toIndexedStore.Complete Behavior.address Behavior.keys := by
  constructor
  · rintro hcomplete behaviorId behavior hstored ⟨subjectId, tag⟩ ⟨rfl, htag⟩
    obtain ⟨subjectNode, tagNode, hnode, hfind, hcount⟩ :=
      hcomplete behaviorId behavior hstored tag htag
    refine mem_behaviorRefs_iff.mpr ⟨subjectNode, tagNode, hnode, hfind, ?_⟩
    exact List.count_pos_iff.mp (by omega)
  · intro hcomplete behaviorId behavior hstored tag htag
    have hmem : behavior.address ∈ graph.behaviorRefs behavior.subjectId tag :=
      hcomplete behaviorId behavior hstored (behavior.subjectId, tag) ⟨rfl, htag⟩
    obtain ⟨subjectNode, tagNode, hnode, hfind, hlisted⟩ := mem_behaviorRefs_iff.mp hmem
    refine ⟨subjectNode, tagNode, hnode, hfind, ?_⟩
    have hnodup := h.nodup behavior.subjectId tag
    rw [behaviorRefs, hnode] at hnodup
    simp only [SubjectNode.refs, hfind] at hnodup
    exact List.count_eq_one_of_mem hnodup hlisted

theorem IndexComplete.hasTagNode (h : graph.IndexComplete) {behaviorId : HktId}
    {behavior : Behavior Address Tag} (hstored : graph.findBehavior behaviorId = some behavior)
    {tag : Tag} (htag : tag ∈ behavior.tags) : graph.HasTagNode behavior.subjectId tag := by
  obtain ⟨subjectNode, tagNode, hnode, hfind, -⟩ := h behaviorId behavior hstored tag htag
  exact ⟨subjectNode, hnode, SparseMap.contains_iff.mpr ⟨tagNode, hfind⟩⟩

omit [DecidableEq Address] [DecidableEq Tag] in
theorem forall_keys_ne_iff {behavior : Behavior Address Tag} {subjectId : HktId} :
    (∀ key ∈ behavior.keys, key ∉ ({key | key.1 = subjectId} : Set (HktId × Tag))) ↔
      (behavior.subjectId = subjectId → behavior.tags = []) := by
  constructor
  · intro hkeys hsubject
    refine List.eq_nil_iff_forall_not_mem.mpr fun tag htag => ?_
    exact hkeys (behavior.subjectId, tag) ⟨rfl, htag⟩ hsubject
  · rintro hsubject ⟨subject, tag⟩ ⟨rfl, htag⟩ hdropped
    rw [hsubject hdropped] at htag
    simp at htag

/-- Removing an object keeps the index complete, unless it takes the node of a subject
away that still has a tagged behavior. -/
theorem IndexComplete.removeBehaviorRef_iff (h : graph.IndexComplete) (htidy : graph.Tidy)
    {behavior : Behavior Address Tag} (hlive : graph.LiveObjects (.removeBehaviorRef behavior)) :
    (graph.removeBehaviorRef behavior).IndexComplete ↔
      graph.KeepsSiblings (.removeBehaviorRef behavior) := by
  have hcomplete := htidy.indexComplete_iff.mp h
  rw [(htidy.removeBehaviorRef behavior).indexComplete_iff]
  rcases removeBehaviorRef_cases graph behavior with
    ⟨hnone, hsame⟩ | ⟨hexist, hstore⟩ | ⟨hexist, -, hstore⟩
  -- a subject without a node has no tagged behavior, where the index is complete
  · rw [hsame]
    refine iff_of_true hcomplete fun _ behaviorId other hstored _ hsubject => ?_
    refine List.eq_nil_iff_forall_not_mem.mpr fun tag htag => ?_
    obtain ⟨subjectNode, hnode, -⟩ := h.hasTagNode hstored htag
    rw [hsubject, hnone] at hnode
    simp at hnode
  · rw [hstore]
    obtain ⟨tag, htag, hnode⟩ := hexist
    refine iff_of_true ?_ fun hnone => absurd hnode (hnone tag htag)
    refine IndexedStore.Complete.unlist_erase hcomplete fun behaviorId other hstored haddress => ?_
    rw [← htidy.storedById behaviorId other hstored, hlive behaviorId other hstored haddress]
  -- the whole node goes, with the pointers to the siblings
  · rw [hstore, IndexedStore.complete_dropKeys_erase_iff hcomplete]
    constructor
    · intro hkept _ behaviorId other hstored hne
      exact forall_keys_ne_iff.mp (hkept behaviorId other hne hstored)
    · intro hkept behaviorId other hne hstored
      exact forall_keys_ne_iff.mpr (hkept hexist behaviorId other hstored hne)

/-- A call keeps a complete index complete exactly when it meets the condition. -/
theorem IndexComplete.step_iff (h : graph.IndexComplete) (htidy : graph.Tidy)
    {event : GraphEvent Address Tag} (hlive : graph.LiveObjects event) :
    (graph.step event).IndexComplete ↔ graph.KeepsSiblings event := by
  have hcomplete := htidy.indexComplete_iff.mp h
  cases event with
  | addBehavior behavior =>
      rw [(htidy.step hlive).indexComplete_iff, HktGraph.step, toIndexedStore_addBehavior]
      exact iff_of_true (hcomplete.list_put _ behavior) trivial
  | removeBehavior behaviorId =>
      cases hfind : graph.findBehavior behaviorId with
      | none =>
          have hskip : graph.step (.removeBehavior behaviorId) = graph := by
            rw [HktGraph.step, removeBehavior, show graph.behaviors.find behaviorId = none from hfind]
          rw [hskip]
          exact iff_of_true h fun behavior hstored => by simp [hfind] at hstored
      | some behavior =>
          -- the call removes the object that it finds
          have hremove : graph.step (.removeBehavior behaviorId) =
              graph.removeBehaviorRef behavior := by
            rw [HktGraph.step, removeBehavior,
              show graph.behaviors.find behaviorId = some behavior from hfind]
          rw [hremove, h.removeBehaviorRef_iff htidy (htidy.liveObjects_stored hfind)]
          constructor
          · intro hkeeps found hfound hempty
            obtain rfl : found = behavior := Option.some.inj (hfound.symm.trans hfind)
            exact hkeeps (by simp [hempty])
          · intro hkeeps hnone
            refine hkeeps behavior hfind (List.eq_nil_iff_forall_not_mem.mpr fun tag htag => ?_)
            exact hnone tag htag (h.hasTagNode hfind htag)
  | removeBehaviorRef behavior => exact h.removeBehaviorRef_iff htidy hlive
  | removeSubject subjectId =>
      rw [(htidy.step hlive).indexComplete_iff, HktGraph.step, toIndexedStore_removeSubject,
        IndexedStore.complete_dropKeys_iff hcomplete]
      constructor
      · intro hkept behaviorId behavior hstored
        exact forall_keys_ne_iff.mp (hkept behaviorId behavior hstored)
      · intro hkept behaviorId behavior hstored
        exact forall_keys_ne_iff.mpr (hkept behaviorId behavior hstored)

theorem indexComplete_empty : ({} : HktGraph Address Tag).IndexComplete := by
  simp [IndexComplete, findBehavior]

/-- **When the tag index is complete.**  Throughout a run every stored behavior is listed
exactly once under its subject and each of its tags, exactly when no call takes the node
of a subject away that still has a stored behavior with tags. -/
theorem index_complete_iff {events : List (GraphEvent Address Tag)}
    (hlive : EveryStep step {} LiveObjects events) :
    HoldsThroughout step {} IndexComplete events ↔
      EveryStep step ({} : HktGraph Address Tag) KeepsSiblings events := by
  rw [holdsThroughout_iff indexComplete_empty]
  apply everyStep_iff_of_assumed (P := fun graph => graph.Tidy ∧ graph.IndexComplete) _ _ _ hlive
  · exact ⟨tidy_empty, indexComplete_empty⟩
  · exact fun graph event h hevent hnext => ⟨h.1.step hevent, hnext⟩
  · exact fun graph event h hevent => h.2.step_iff h.1 hevent

/-- Two tagged behaviors of one subject, of which the first is removed. -/
theorem index_complete_iff_siblings :
    HoldsThroughout step {} IndexComplete
        [.addBehavior ⟨0, 101, 2, ["a", "b"]⟩, .addBehavior ⟨1, 102, 2, ["b"]⟩,
          .removeBehavior 101] ↔
      EveryStep step ({} : HktGraph ℕ String) KeepsSiblings
        [.addBehavior ⟨0, 101, 2, ["a", "b"]⟩, .addBehavior ⟨1, 102, 2, ["b"]⟩,
          .removeBehavior 101] :=
  index_complete_iff (by decide +kernel)

/-- A tagged and an untagged behavior of one subject, of which the untagged one is
removed. -/
def removeUntaggedSibling : List (GraphEvent ℕ String) :=
  [.addBehavior ⟨0, 101, 2, ["a"]⟩, .addBehavior ⟨1, 102, 2, []⟩, .removeBehavior 102]

/-- The node of the subject is gone, and with it the entries of the tagged behavior. -/
theorem removeBehavior_unlists_sibling :
    EveryStep step {} LiveObjects removeUntaggedSibling ∧
      ¬ HoldsThroughout step {} IndexComplete removeUntaggedSibling := by
  refine ⟨by decide +kernel, fun h => ?_⟩
  have hstored : (run step {} removeUntaggedSibling).findBehavior 101 =
      some ⟨0, 101, 2, ["a"]⟩ := by
    decide +kernel
  obtain ⟨subjectNode, -, hnode, -⟩ :=
    h removeUntaggedSibling List.prefix_rfl 101 _ hstored "a" (by simp)
  have hgone : (run step {} removeUntaggedSibling).subjectNodes.contains 2 = false := by
    decide +kernel
  simp [SparseMap.contains, hnode] at hgone

/-! ## Stale references -/

/-- Every pointer in a `FTagNode` is that of a stored behavior. -/
def NoStaleReference (graph : HktGraph Address Tag) : Prop :=
  ∀ subjectId subjectNode tag tagNode, graph.subjectNodes.find subjectId = some subjectNode →
    subjectNode.tagNodes.find tag = some tagNode → ∀ address ∈ tagNode.behaviorRefs,
      ∃ behaviorId behavior, graph.findBehavior behaviorId = some behavior ∧
        behavior.address = address

/-- The pointer stands in some `BehaviorRefs`. -/
def Listed (graph : HktGraph Address Tag) (address : Address) : Prop :=
  ∃ subjectId tag, address ∈ graph.behaviorRefs subjectId tag

/-- `AddBehavior` replaces a stored behavior only when no pointer to it is listed, and
`RemoveBehavior` removes a stored behavior through another object with its id only when
none stays listed. -/
def DropsUnlisted (graph : HktGraph Address Tag) : GraphEvent Address Tag → Prop
  | .addBehavior behavior =>
      ∀ old, graph.findBehavior behavior.behaviorId = some old → ¬ graph.Listed old.address
  | .removeBehaviorRef behavior =>
      ∀ old, graph.findBehavior behavior.behaviorId = some old →
        old.address ≠ behavior.address →
        graph.subjectNodes.contains behavior.subjectId = true →
        (old.subjectId ≠ behavior.subjectId ∨
          ∃ tag ∈ behavior.tags, graph.HasTagNode behavior.subjectId tag) →
        ¬ graph.Listed old.address
  | _ => True

omit [DecidableEq Address] in
theorem noStaleReference_iff :
    graph.NoStaleReference ↔ graph.toIndexedStore.NoneStale Behavior.address := by
  constructor
  · intro h key address hlisted
    obtain ⟨subjectNode, tagNode, hnode, htag, hmem⟩ := mem_behaviorRefs_iff.mp hlisted
    exact h key.1 subjectNode key.2 tagNode hnode htag address hmem
  · intro h subjectId subjectNode tag tagNode hnode htag address hmem
    exact h (subjectId, tag) address
      (mem_behaviorRefs_iff.mpr ⟨subjectNode, tagNode, hnode, htag, hmem⟩)

omit [DecidableEq Address] in
theorem listed_iff {address : Address} :
    graph.Listed address ↔ graph.toIndexedStore.Listed address := by
  constructor
  · intro hlists
    obtain ⟨subjectId, tag, hmem⟩ := hlists
    exact ⟨(subjectId, tag), hmem⟩
  · intro hlisted
    obtain ⟨key, hmem⟩ := hlisted
    exact ⟨key.1, key.2, hmem⟩

/-- Every pointer is that of a stored behavior with the subject and the tag. -/
def SoundIndex (graph : HktGraph Address Tag) : Prop :=
  graph.toIndexedStore.Sound Behavior.address Behavior.keys

/-- While no pointer is stale, removing an object leaves one behind exactly when it
removes another one that stays listed. -/
theorem SoundIndex.removeBehaviorRef (h : graph.SoundIndex) (htidy : graph.Tidy)
    {behavior : Behavior Address Tag} (hlive : graph.LiveObjects (.removeBehaviorRef behavior))
    (hdrops : graph.DropsUnlisted (.removeBehaviorRef behavior)) :
    (graph.removeBehaviorRef behavior).SoundIndex := by
  unfold SoundIndex
  rcases removeBehaviorRef_cases graph behavior with
    ⟨-, hsame⟩ | ⟨hexist, hstore⟩ | ⟨-, hnode, hstore⟩
  · rw [hsame]
    exact h
  · rw [hstore]
    refine IndexedStore.sound_erase (IndexedStore.Sound.unlist h behavior) ?_
    intro old hold hentry
    obtain ⟨key, hlisted, hkept⟩ := hentry
    -- what is erased is either the object itself, which is unlisted, or another one with its id
    by_cases haddress : old.address = behavior.address
    · obtain rfl := hlive _ old hold haddress
      exact hkept ⟨IndexedStore.Sound.mem_keys h htidy.distinct hold hlisted, rfl⟩
    · have hnode : graph.subjectNodes.contains behavior.subjectId = true := by
        obtain ⟨tag, -, node, hfind, -⟩ := hexist
        exact SparseMap.contains_iff.mpr ⟨node, hfind⟩
      exact hdrops old hold haddress hnode (Or.inr hexist) (listed_iff.mpr ⟨key, hlisted⟩)
  · rw [hstore]
    refine IndexedStore.sound_erase (IndexedStore.Sound.dropKeys h _) ?_
    intro old hold hentry
    obtain ⟨key, hlisted, hkept⟩ := hentry
    have hkey := IndexedStore.Sound.mem_keys h htidy.distinct hold hlisted
    by_cases haddress : old.address = behavior.address
    · obtain rfl := hlive _ old hold haddress
      exact hkept hkey.1
    · have hsubject : old.subjectId ≠ behavior.subjectId := fun hsame => hkept (hkey.1.trans hsame)
      exact hdrops old hold haddress hnode (Or.inl hsubject) (listed_iff.mpr ⟨key, hlisted⟩)

/-- The converse: where no pointer is stale after the removal, whatever object was removed under
the id is listed no longer. -/
theorem dropsUnlisted_of_noStaleReference (h : graph.SoundIndex) (htidy : graph.Tidy)
    {behavior : Behavior Address Tag}
    (hnext : (graph.removeBehaviorRef behavior).NoStaleReference) :
    graph.DropsUnlisted (.removeBehaviorRef behavior) := by
  intro old hold haddress hnode hstays hlisted
  obtain ⟨key, hlisted⟩ := listed_iff.mp hlisted
  rw [noStaleReference_iff] at hnext
  rcases removeBehaviorRef_cases graph behavior with
    ⟨hnone, -⟩ | ⟨-, hstore⟩ | ⟨hexist, -, hstore⟩
  · simp [SparseMap.contains, hnone] at hnode
  · rw [hstore] at hnext
    refine IndexedStore.not_listed_of_noneStale_erase ?_ hnext hold ⟨key, hlisted, ?_⟩
    · exact htidy.distinct
    · exact fun hsame => haddress hsame.2
  · rw [hstore] at hnext
    refine IndexedStore.not_listed_of_noneStale_erase ?_ hnext hold ⟨key, hlisted, ?_⟩
    · exact htidy.distinct
    · have hkey := IndexedStore.Sound.mem_keys h htidy.distinct hold hlisted
      rcases hstays with hsubject | ⟨tag, htag, hnode⟩
      · exact fun hdropped => hsubject (hkey.1.symm.trans hdropped)
      · exact absurd hnode (hexist tag htag)

/-- A call leaves no stale pointer behind exactly when it meets the condition. -/
theorem SoundIndex.step (h : graph.SoundIndex) (htidy : graph.Tidy)
    {event : GraphEvent Address Tag} (hlive : graph.LiveObjects event)
    (hdrops : graph.DropsUnlisted event) : (graph.step event).SoundIndex := by
  cases event with
  | addBehavior behavior =>
      rw [SoundIndex, HktGraph.step, toIndexedStore_addBehavior]
      refine IndexedStore.sound_list_put h fun old hold hlisted => ?_
      exact hdrops old hold (listed_iff.mpr hlisted)
  | removeBehavior behaviorId =>
      rw [HktGraph.step, HktGraph.removeBehavior]
      split
      · exact h
      · next behavior hfind =>
          refine h.removeBehaviorRef htidy (htidy.liveObjects_stored hfind) ?_
          intro old hold haddress
          have hid := htidy.storedById behaviorId behavior hfind
          rw [hid, show graph.findBehavior behaviorId = some behavior from hfind] at hold
          exact absurd (congrArg Behavior.address (Option.some.inj hold).symm) haddress
  | removeBehaviorRef behavior => exact h.removeBehaviorRef htidy hlive hdrops
  | removeSubject subjectId =>
      rw [SoundIndex, HktGraph.step, toIndexedStore_removeSubject]
      exact IndexedStore.Sound.dropKeys h _

theorem SoundIndex.step_iff (h : graph.SoundIndex) (htidy : graph.Tidy)
    {event : GraphEvent Address Tag} (hlive : graph.LiveObjects event) :
    (graph.step event).NoStaleReference ↔ graph.DropsUnlisted event := by
  constructor
  · intro hnext
    cases event with
    | addBehavior behavior =>
        intro old hold hlisted
        rw [noStaleReference_iff, HktGraph.step, toIndexedStore_addBehavior] at hnext
        refine IndexedStore.not_listed_of_noneStale_list_put htidy.distinct ?_ hnext hold
          (listed_iff.mp hlisted)
        intro hlive
        obtain ⟨behaviorId, other, hstored, haddress⟩ := hlive
        exact hlive behaviorId other hstored haddress
    | removeBehavior behaviorId => trivial
    | removeBehaviorRef behavior => exact dropsUnlisted_of_noStaleReference h htidy hnext
    | removeSubject subjectId => trivial
  · intro hdrops
    exact noStaleReference_iff.mpr (h.step htidy hlive hdrops).noneStale

omit [DecidableEq Address] in
theorem soundIndex_empty : ({} : HktGraph Address Tag).SoundIndex := by
  simp [SoundIndex, IndexedStore.Sound, toIndexedStore, behaviorRefs]

/-- **When the tag index holds no stale reference.**  Throughout a run every pointer in a
`BehaviorRefs` is that of a stored behavior, exactly when no call takes a behavior out of
`Behaviors` to which a pointer stays listed. -/
theorem no_stale_reference_iff {events : List (GraphEvent Address Tag)}
    (hlive : EveryStep step {} LiveObjects events) :
    HoldsThroughout step {} NoStaleReference events ↔
      EveryStep step ({} : HktGraph Address Tag) DropsUnlisted events := by
  rw [holdsThroughout_iff (noStaleReference_iff.mpr soundIndex_empty.noneStale)]
  apply everyStep_iff_of_assumed (P := fun graph => graph.Tidy ∧ graph.SoundIndex) _ _ _ hlive
  · exact ⟨tidy_empty, soundIndex_empty⟩
  · intro graph event h hevent hnext
    exact ⟨h.1.step hevent, h.2.step h.1 hevent ((h.2.step_iff h.1 hevent).mp hnext)⟩
  · exact fun graph event h hevent => h.2.step_iff h.1 hevent

/-- A behavior is removed before its id is used again. -/
theorem no_stale_reference_iff_reused :
    HoldsThroughout step {} NoStaleReference
        [.addBehavior ⟨0, 101, 2, ["a"]⟩, .removeBehavior 101,
          .addBehavior ⟨1, 101, 3, ["b"]⟩] ↔
      EveryStep step ({} : HktGraph ℕ String) DropsUnlisted
        [.addBehavior ⟨0, 101, 2, ["a"]⟩, .removeBehavior 101,
          .addBehavior ⟨1, 101, 3, ["b"]⟩] :=
  no_stale_reference_iff (by decide +kernel)

/-- A header that is delivered twice. -/
def deliveredTwice : List (GraphEvent ℕ String) :=
  [.addBehavior ⟨0, 101, 2, ["a"]⟩, .addBehavior ⟨1, 101, 2, ["a"]⟩]

/-- The first object is destroyed, and its pointer stays. -/
theorem addBehavior_leaves_stale_reference :
    EveryStep step {} LiveObjects deliveredTwice ∧
      ¬ HoldsThroughout step {} NoStaleReference deliveredTwice := by
  refine ⟨by decide +kernel, fun h => ?_⟩
  have hlisted : 0 ∈ (run step {} deliveredTwice).behaviorRefs 2 "a" := by
    decide +kernel
  obtain ⟨subjectNode, tagNode, hnode, htag, hmem⟩ := mem_behaviorRefs_iff.mp hlisted
  obtain ⟨behaviorId, behavior, hstored, haddress⟩ :=
    h deliveredTwice List.prefix_rfl 2 subjectNode "a" tagNode hnode htag 0 hmem
  have hnone : ∀ entry ∈ (run step {} deliveredTwice).behaviors.entries,
      entry.2.address ≠ 0 := by
    decide +kernel
  exact hnone (behaviorId, behavior) (SparseMap.find_eq_some_iff.mp hstored) haddress

end HktGraph

end HktBase.Base
