import HktBase.Library.Broker
import HktBase.Base.Graph

/-!
# The event bus

`THktEventBus` keeps a delegate for each node and tag, in two levels of maps.  `GetEvent` makes
what it does not find, so that a function can be bound to the delegate or removed from it;
`Broadcast` makes nothing, and calls what is bound to the delegate with exactly this node and tag.

The delegates are the engine's: a binding has a handle that no other binding has, and a broadcast
calls every bound function once, in an order that is not promised.  What is bound does not use the
bus while it is called.

## Strategy

`event_bus_is_broker` describes the bus without its maps: a node with a tag is a topic, binding
and removing are subscribing and unsubscribing, and a handle is called with what is published.

* `broadcast_eq` and `bound_getEvent` say once what the two operations do, whatever the maps hold;
* `payloads_broadcast` counts the calls of one handle, which `Knows` shows to be bound at most
  once to a delegate;
* `performAll_commands` is the step: what a use of the bus makes of a handle is what its commands
  make of the subscription of that handle;
* `delegates_run` accounts for the maps themselves: a delegate is there because `GetEvent` was
  asked for it, and a broadcast makes none.
-/

namespace HktBase.Base

open Transition Broker

variable {Tag Handle Payload : Type}

/-! ## Data -/

/-- The order in which a multicast delegate calls what is bound to it. -/
structure CallOrder (Handle : Type) where
  calls : List Handle → List Handle
  perm : ∀ bound, (calls bound).Perm bound

/-- `FBehaviorEvent`: the handles of what is bound. -/
structure BehaviorEvent (Handle : Type) where
  bound : List Handle := []

namespace BehaviorEvent

/-- `IsBound`. -/
def isBound (event : BehaviorEvent Handle) : Bool :=
  !event.bound.isEmpty

/-- `AddLambda`, with the handle that it returns. -/
def addLambda (handle : Handle) (event : BehaviorEvent Handle) : BehaviorEvent Handle :=
  { event with bound := event.bound ++ [handle] }

/-- `Remove`. -/
def remove [DecidableEq Handle] (handle : Handle) (event : BehaviorEvent Handle) :
    BehaviorEvent Handle :=
  { event with bound := event.bound.erase handle }

end BehaviorEvent

/-- `FEventRouter`. -/
structure EventRouter (Tag Handle : Type) where
  events : TMap Tag (BehaviorEvent Handle) := ∅

/-- `THktEventBus`, with the calls that its delegates have made. -/
structure HktEventBus (Tag Handle Payload : Type) where
  eventRouterMap : TMap HktId (EventRouter Tag Handle) := ∅
  calls : List (Handle × Payload) := []

/-- A use of the bus; a `GetEvent` without a tag is the one with the empty tag. -/
inductive BusEvent (Tag Handle Payload : Type)
  | getEvent (nodeIndex : HktId) (tag : Option Tag)
  | addLambda (nodeIndex : HktId) (tag : Option Tag) (handle : Handle)
  | remove (nodeIndex : HktId) (tag : Option Tag) (handle : Handle)
  | broadcast (nodeIndex : HktId) (tag : Tag) (payload : Payload)

/-! ## Operations -/

namespace HktEventBus

variable [DecidableEq Tag]

/-- `GetEvent`: the delegate for a tag of a node is made if there is none, and used in place. -/
def getEvent (nodeIndex : HktId) (tag : Tag) (use : BehaviorEvent Handle → BehaviorEvent Handle)
    (bus : HktEventBus Tag Handle Payload) : HktEventBus Tag Handle Payload :=
  let router := (bus.eventRouterMap.find nodeIndex).getD {}
  let event := (router.events.find tag).getD {}
  { bus with
    eventRouterMap := bus.eventRouterMap.add nodeIndex
      { router with events := router.events.add tag (use event) } }

/-- `Broadcast`. -/
def broadcast (order : CallOrder Handle) (nodeIndex : HktId) (tag : Tag) (payload : Payload)
    (bus : HktEventBus Tag Handle Payload) : HktEventBus Tag Handle Payload :=
  match bus.eventRouterMap.find nodeIndex with
  | none => bus
  | some router =>
      match router.events.find tag with
      | none => bus
      | some event =>
          if event.isBound then
            { bus with
              calls := bus.calls ++ (order.calls event.bound).map fun handle => (handle, payload) }
          else bus

def step [DecidableEq Handle] [Inhabited Tag] (order : CallOrder Handle)
    (bus : HktEventBus Tag Handle Payload) :
    BusEvent Tag Handle Payload → HktEventBus Tag Handle Payload
  | .getEvent nodeIndex tag => bus.getEvent nodeIndex (tag.getD default) id
  | .addLambda nodeIndex tag handle =>
      bus.getEvent nodeIndex (tag.getD default) (BehaviorEvent.addLambda handle)
  | .remove nodeIndex tag handle =>
      bus.getEvent nodeIndex (tag.getD default) (BehaviorEvent.remove handle)
  | .broadcast nodeIndex tag payload => bus.broadcast order nodeIndex tag payload

/-! ## The bus without its maps -/

/-- What is bound to the delegate for a tag of a node. -/
def bound (bus : HktEventBus Tag Handle Payload) (nodeIndex : HktId) (tag : Tag) : List Handle :=
  (((bus.eventRouterMap.find nodeIndex).getD {}).events.find tag).elim [] BehaviorEvent.bound

theorem bound_getEvent (nodeIndex other : HktId) (tag otherTag : Tag)
    (use : BehaviorEvent Handle → BehaviorEvent Handle) (bus : HktEventBus Tag Handle Payload) :
    (bus.getEvent nodeIndex tag use).bound other otherTag =
      if other = nodeIndex ∧ otherTag = tag then (use ⟨bus.bound nodeIndex tag⟩).bound
      else bus.bound other otherTag := by
  unfold bound getEvent
  dsimp only
  rw [SparseMap.find_add]
  by_cases hnode : other = nodeIndex
  · subst hnode
    rw [if_pos rfl, Option.getD_some, SparseMap.find_add]
    by_cases htag : otherTag = tag
    · subst htag
      rw [if_pos rfl, if_pos ⟨rfl, rfl⟩, Option.elim_some]
      cases ((bus.eventRouterMap.find other).getD {}).events.find otherTag <;> rfl
    · rw [if_neg htag, if_neg fun h => htag h.2]
  · rw [if_neg hnode, if_neg fun h => hnode h.1]

/-- Whatever the maps hold, a broadcast calls what is bound. -/
theorem broadcast_eq (order : CallOrder Handle) (nodeIndex : HktId) (tag : Tag) (payload : Payload)
    (bus : HktEventBus Tag Handle Payload) :
    bus.broadcast order nodeIndex tag payload =
      { bus with
        calls := bus.calls ++
          (order.calls (bus.bound nodeIndex tag)).map fun handle => (handle, payload) } := by
  have hnobody : order.calls [] = [] := (order.perm []).eq_nil
  unfold broadcast bound
  cases bus.eventRouterMap.find nodeIndex with
  | none => simp [hnobody]
  | some router =>
      dsimp only [Option.getD_some]
      cases router.events.find tag with
      | none => simp [hnobody]
      | some event =>
          obtain ⟨bound⟩ := event
          cases bound with
          | nil => simp [BehaviorEvent.isBound, hnobody]
          | cons first rest => rfl

/-- A broadcast leaves the maps as they are, also where it finds nothing. -/
theorem eventRouterMap_broadcast (order : CallOrder Handle) (nodeIndex : HktId) (tag : Tag)
    (payload : Payload) (bus : HktEventBus Tag Handle Payload) :
    (bus.broadcast order nodeIndex tag payload).eventRouterMap = bus.eventRouterMap := by
  rw [broadcast_eq]

/-- The nodes and tags that the bus has a delegate for, whether anything is bound to it or not. -/
def delegates (bus : HktEventBus Tag Handle Payload) : Set (HktId × Tag) :=
  {topic | ∃ router event, bus.eventRouterMap.find topic.1 = some router ∧
    router.events.find topic.2 = some event}

theorem delegates_broadcast (order : CallOrder Handle) (nodeIndex : HktId) (tag : Tag)
    (payload : Payload) (bus : HktEventBus Tag Handle Payload) :
    (bus.broadcast order nodeIndex tag payload).delegates = bus.delegates := by
  unfold delegates
  rw [eventRouterMap_broadcast]

theorem delegates_getEvent (nodeIndex : HktId) (tag : Tag)
    (use : BehaviorEvent Handle → BehaviorEvent Handle) (bus : HktEventBus Tag Handle Payload) :
    (bus.getEvent nodeIndex tag use).delegates = insert (nodeIndex, tag) bus.delegates := by
  ext ⟨other, otherTag⟩
  rw [Set.mem_insert_iff, Prod.mk.injEq]
  unfold delegates getEvent
  simp only [Set.mem_ofPred_eq]
  rw [SparseMap.find_add]
  by_cases hnode : other = nodeIndex
  · subst hnode
    simp only [if_pos, Option.some.injEq, exists_and_left, exists_eq_left', true_and]
    rw [SparseMap.find_add]
    by_cases htag : otherTag = tag
    · simp [htag]
    · -- the router is a new one, without any delegate, or the one that was there
      rw [if_neg htag]
      cases bus.eventRouterMap.find other with
      | none => simp [htag]
      | some router => simp [htag]
  · simp [hnode]

/-! ## The bus as a broker -/

variable [DecidableEq Handle]

/-- What a handle has been called with. -/
def payloads (bus : HktEventBus Tag Handle Payload) (handle : Handle) : List Payload :=
  (bus.calls.filter fun call => call.1 = handle).map Prod.snd

/-- What the bus keeps of a handle. -/
def subscription (bus : HktEventBus Tag Handle Payload) (handle : Handle) :
    Subscription (HktId × Tag) Payload :=
  { topics := {topic | handle ∈ bus.bound topic.1 topic.2}
    published := bus.payloads handle }

end HktEventBus

namespace BusEvent

/-- What a use of the bus asks of a broker. -/
def commands [Inhabited Tag] : BusEvent Tag Handle Payload → List (Command Handle (HktId × Tag) Payload)
  | .getEvent _ _ => []
  | .addLambda nodeIndex tag handle =>
      [.connect handle, .subscribe handle (nodeIndex, tag.getD default)]
  | .remove nodeIndex tag handle => [.unsubscribe handle (nodeIndex, tag.getD default)]
  | .broadcast nodeIndex tag payload => [.publish (nodeIndex, tag) payload none]

/-- The handle that the use of the bus returns. -/
def returned : BusEvent Tag Handle Payload → Option Handle
  | .addLambda _ _ handle => some handle
  | _ => none

/-- The node and the tag whose delegate the use of the bus gets. -/
def got [Inhabited Tag] : BusEvent Tag Handle Payload → Option (HktId × Tag)
  | .getEvent nodeIndex tag | .addLambda nodeIndex tag _ | .remove nodeIndex tag _ =>
      some (nodeIndex, tag.getD default)
  | .broadcast _ _ _ => none

end BusEvent

/-- The handles that have been returned. -/
def handlesOf (events : List (BusEvent Tag Handle Payload)) : List Handle :=
  events.filterMap BusEvent.returned

theorem handlesOf_concat (events : List (BusEvent Tag Handle Payload))
    (event : BusEvent Tag Handle Payload) :
    handlesOf (events ++ [event]) = handlesOf events ++ event.returned.toList := by
  rw [handlesOf, List.filterMap_append]
  cases event <;> rfl

theorem returned_eq_none {event : BusEvent Tag Handle Payload} {handles : List Handle}
    (h : ∀ nodeIndex tag handle, event ≠ .addLambda nodeIndex tag handle) :
    handles ++ event.returned.toList = handles := by
  cases event with
  | addLambda nodeIndex tag handle => exact absurd rfl (h nodeIndex tag handle)
  | _ => exact List.append_nil handles

namespace HktEventBus

variable [DecidableEq Tag] [DecidableEq Handle]

omit [DecidableEq Handle] in
/-- Only handles that have been returned are bound, each once to a delegate, or called. -/
structure Knows (handles : List Handle) (bus : HktEventBus Tag Handle Payload) : Prop where
  nodup : ∀ nodeIndex tag, (bus.bound nodeIndex tag).Nodup
  bound : ∀ nodeIndex tag, ∀ handle ∈ bus.bound nodeIndex tag, handle ∈ handles
  called : ∀ call ∈ bus.calls, call.1 ∈ handles

/-- What nobody has bound is not known to the bus. -/
theorem Knows.subscription_eq {handles : List Handle} {bus : HktEventBus Tag Handle Payload}
    (h : Knows handles bus) {handle : Handle} (hnew : handle ∉ handles) :
    bus.subscription handle = {} := by
  have htopics : {topic : HktId × Tag | handle ∈ bus.bound topic.1 topic.2} = ∅ := by
    refine Set.eq_empty_of_forall_notMem fun topic hmem => hnew ?_
    exact h.bound topic.1 topic.2 handle hmem
  have hpublished : bus.payloads handle = [] := by
    rw [payloads, List.filter_eq_nil_iff.mpr, List.map_nil]
    intro call hcall hsame
    exact hnew (of_decide_eq_true hsame ▸ h.called call hcall)
  rw [subscription, htopics, hpublished]

omit [DecidableEq Handle] in
/-- Using a delegate changes what is bound to it. -/
theorem Knows.getEvent {handles more : List Handle} {bus : HktEventBus Tag Handle Payload}
    (h : Knows handles bus) (hmore : handles ⊆ more) {nodeIndex : HktId} {tag : Tag}
    {use : BehaviorEvent Handle → BehaviorEvent Handle}
    (hnodup : (use ⟨bus.bound nodeIndex tag⟩).bound.Nodup)
    (hbound : (use ⟨bus.bound nodeIndex tag⟩).bound ⊆ more) :
    Knows more (bus.getEvent nodeIndex tag use) := by
  refine ⟨fun other otherTag => ?_, fun other otherTag handle hmem => ?_, fun call hcall => ?_⟩
  · rw [bound_getEvent]
    split
    · exact hnodup
    · exact h.nodup other otherTag
  · rw [bound_getEvent] at hmem
    split at hmem
    · exact hbound hmem
    · exact hmore (h.bound other otherTag handle hmem)
  · exact hmore (h.called call hcall)

variable [Inhabited Tag] {order : CallOrder Handle}

theorem Knows.step {handles : List Handle} {bus : HktEventBus Tag Handle Payload}
    (h : Knows handles bus) {event : BusEvent Tag Handle Payload}
    (hfresh : (handles ++ event.returned.toList).Nodup) :
    Knows (handles ++ event.returned.toList) (bus.step order event) := by
  have hmore : handles ⊆ handles ++ event.returned.toList := List.subset_append_left _ _
  cases event with
  | getEvent nodeIndex tag =>
      exact h.getEvent hmore (h.nodup _ _) fun handle hmem => hmore (h.bound _ _ handle hmem)
  | addLambda nodeIndex tag handle =>
      -- what is bound has been returned before
      have hnew : handle ∉ bus.bound nodeIndex (tag.getD default) := by
        intro hmem
        have hdistinct := (List.nodup_append.mp hfresh).2.2
        exact hdistinct handle (h.bound _ _ handle hmem) handle (by simp [BusEvent.returned]) rfl
      refine h.getEvent hmore ?_ ?_
      · refine List.nodup_append.mpr ⟨h.nodup _ _, by simp, fun other hother last hlast => ?_⟩
        obtain rfl := List.mem_singleton.mp hlast
        exact fun hsame => hnew (hsame ▸ hother)
      · exact List.append_subset.mpr ⟨fun other hmem => hmore (h.bound _ _ other hmem),
          List.subset_append_right _ _⟩
  | remove nodeIndex tag handle =>
      exact h.getEvent hmore ((h.nodup _ _).erase handle)
        fun other hmem => hmore (h.bound _ _ other (List.mem_of_mem_erase hmem))
  | broadcast nodeIndex tag payload =>
      simp only [HktEventBus.step]
      rw [broadcast_eq]
      refine ⟨h.nodup, fun other otherTag handle hmem => hmore (h.bound _ _ handle hmem), ?_⟩
      intro call hcall
      rcases List.mem_append.mp hcall with hbefore | hnow
      · exact hmore (h.called call hbefore)
      · obtain ⟨handle, hmem, rfl⟩ := List.mem_map.mp hnow
        exact hmore (h.bound _ _ handle ((order.perm _).mem_iff.mp hmem))

/-! ### One use of the bus -/

omit [Inhabited Tag] in
theorem subscription_getEvent (nodeIndex : HktId) (tag : Tag)
    (use : BehaviorEvent Handle → BehaviorEvent Handle) (bus : HktEventBus Tag Handle Payload)
    (handle : Handle) :
    (bus.getEvent nodeIndex tag use).subscription handle =
      { bus.subscription handle with
        topics := {topic | if topic = (nodeIndex, tag) then
            handle ∈ (use ⟨bus.bound nodeIndex tag⟩).bound
          else topic ∈ (bus.subscription handle).topics} } := by
  unfold subscription
  congr 1
  ext ⟨other, otherTag⟩
  rw [Set.mem_ofPred_eq, Set.mem_ofPred_eq, bound_getEvent]
  by_cases hsame : other = nodeIndex ∧ otherTag = tag
  · rw [if_pos hsame, if_pos (Prod.ext hsame.1 hsame.2)]
  · rw [if_neg hsame, if_neg fun heq => hsame ⟨congrArg Prod.fst heq, congrArg Prod.snd heq⟩]
    exact Iff.rfl

omit [Inhabited Tag] in
/-- A handle that is bound to the delegate is called once. -/
theorem payloads_broadcast {bus : HktEventBus Tag Handle Payload} {nodeIndex : HktId} {tag : Tag}
    (hnodup : (bus.bound nodeIndex tag).Nodup) (payload : Payload) (handle : Handle) :
    (bus.broadcast order nodeIndex tag payload).payloads handle =
      bus.payloads handle ++ if handle ∈ bus.bound nodeIndex tag then [payload] else [] := by
  rw [broadcast_eq, payloads, List.filter_append, List.map_append]
  congr 1
  have hcount : (order.calls (bus.bound nodeIndex tag)).count handle =
      if handle ∈ bus.bound nodeIndex tag then 1 else 0 := by
    rw [(order.perm _).count_eq]
    exact hnodup.count
  have hcalls : (order.calls (bus.bound nodeIndex tag)).filter (fun other => other = handle) =
      List.replicate (if handle ∈ bus.bound nodeIndex tag then 1 else 0) handle := by
    rw [List.filter_eq, hcount]
  rw [List.filter_map, List.map_map]
  calc _ = ((order.calls (bus.bound nodeIndex tag)).filter (fun other => other = handle)).map
        fun _ => payload := rfl
    _ = _ := by
      rw [hcalls]
      split <;> rfl

omit [Inhabited Tag] in
/-- For a handle that stays bound, or stays unbound, using a delegate changes nothing. -/
theorem subscription_getEvent_of_iff {bus : HktEventBus Tag Handle Payload} {nodeIndex : HktId}
    {tag : Tag} {use : BehaviorEvent Handle → BehaviorEvent Handle} {handle : Handle}
    (hsame : handle ∈ (use ⟨bus.bound nodeIndex tag⟩).bound ↔ handle ∈ bus.bound nodeIndex tag) :
    (bus.getEvent nodeIndex tag use).subscription handle = bus.subscription handle := by
  rw [subscription_getEvent]
  have htopics : {topic : HktId × Tag | if topic = (nodeIndex, tag) then
      handle ∈ (use ⟨bus.bound nodeIndex tag⟩).bound else topic ∈ (bus.subscription handle).topics} =
      (bus.subscription handle).topics := by
    ext topic
    rw [Set.mem_ofPred_eq]
    split
    · next htopic => rw [htopic, hsame]; rfl
    · exact Iff.rfl
  rw [htopics]

/-- The handle that `AddLambda` returns is bound to the one delegate. -/
theorem subscription_addLambda_self {handles : List Handle} {bus : HktEventBus Tag Handle Payload}
    (h : Knows handles bus) (nodeIndex : HktId) (tag : Option Tag) {bound : Handle}
    (hnew : bound ∉ handles) :
    (bus.step order (.addLambda nodeIndex tag bound)).subscription bound =
      { topics := insert (nodeIndex, tag.getD default) ∅ } := by
  simp only [HktEventBus.step]
  rw [subscription_getEvent, h.subscription_eq hnew]
  have htopics : {topic : HktId × Tag | if topic = (nodeIndex, tag.getD default) then
      bound ∈ (BehaviorEvent.addLambda bound ⟨bus.bound nodeIndex (tag.getD default)⟩).bound
      else topic ∈ ({} : Subscription (HktId × Tag) Payload).topics} =
      insert (nodeIndex, tag.getD default) ∅ := by
    ext topic
    simp [BehaviorEvent.addLambda]
  rw [htopics]

theorem subscription_addLambda_of_ne (bus : HktEventBus Tag Handle Payload) (nodeIndex : HktId)
    (tag : Option Tag) {bound handle : Handle} (hne : bound ≠ handle) :
    (bus.step order (.addLambda nodeIndex tag bound)).subscription handle =
      bus.subscription handle :=
  subscription_getEvent_of_iff (by simp [BehaviorEvent.addLambda, hne.symm])

/-- A handle is bound to a delegate once, so that removing it unbinds it. -/
theorem subscription_remove_self {handles : List Handle} {bus : HktEventBus Tag Handle Payload}
    (h : Knows handles bus) (nodeIndex : HktId) (tag : Option Tag) (bound : Handle) :
    (bus.step order (.remove nodeIndex tag bound)).subscription bound =
      { bus.subscription bound with
        topics := (bus.subscription bound).topics \ {(nodeIndex, tag.getD default)} } := by
  simp only [HktEventBus.step]
  rw [subscription_getEvent]
  have htopics : {topic : HktId × Tag | if topic = (nodeIndex, tag.getD default) then
      bound ∈ (BehaviorEvent.remove bound ⟨bus.bound nodeIndex (tag.getD default)⟩).bound
      else topic ∈ (bus.subscription bound).topics} =
      (bus.subscription bound).topics \ {(nodeIndex, tag.getD default)} := by
    ext topic
    simp [BehaviorEvent.remove, (h.nodup _ _).mem_erase_iff, and_comm]
  rw [htopics]

theorem subscription_remove_of_ne (bus : HktEventBus Tag Handle Payload) (nodeIndex : HktId)
    (tag : Option Tag) {bound handle : Handle} (hne : bound ≠ handle) :
    (bus.step order (.remove nodeIndex tag bound)).subscription handle =
      bus.subscription handle :=
  subscription_getEvent_of_iff (List.mem_erase_of_ne hne.symm)

/-- `Broadcast` calls what is bound and changes no binding. -/
theorem subscription_broadcast {handles : List Handle} {bus : HktEventBus Tag Handle Payload}
    (h : Knows handles bus) (nodeIndex : HktId) (tag : Tag) (payload : Payload)
    (handle : Handle) :
    (bus.step order (.broadcast nodeIndex tag payload)).subscription handle =
      { bus.subscription handle with
        published := bus.payloads handle ++
          if handle ∈ bus.bound nodeIndex tag then [payload] else [] } := by
  have hbound : (bus.broadcast order nodeIndex tag payload).bound = bus.bound := by
    rw [broadcast_eq]
    rfl
  simp only [HktEventBus.step]
  rw [subscription, hbound, payloads_broadcast (h.nodup nodeIndex tag)]
  rfl

/-- What a use of the bus makes of a handle is what its commands make of it. -/
theorem performAll_commands {handles : List Handle} {bus : HktEventBus Tag Handle Payload}
    (h : Knows handles bus) {event : BusEvent Tag Handle Payload}
    (hfresh : (handles ++ event.returned.toList).Nodup) (handle : Handle) :
    performAll handle (if handle ∈ handles then some (bus.subscription handle) else none)
        event.commands =
      if handle ∈ handles ++ event.returned.toList then
        some ((bus.step order event).subscription handle)
      else none := by
  cases event with
  | getEvent nodeIndex tag =>
      have hsame : (bus.step order (.getEvent nodeIndex tag)).subscription handle =
          bus.subscription handle :=
        subscription_getEvent_of_iff Iff.rfl
      rw [hsame, returned_eq_none (fun _ _ _ => by simp)]
      rfl
  | addLambda nodeIndex tag bound =>
      -- a handle that has just been returned was bound to nothing before
      by_cases hsame : bound = handle
      · subst hsame
        have hnew : bound ∉ handles := fun hmem =>
          (List.nodup_append.mp hfresh).2.2 bound hmem bound (by simp [BusEvent.returned]) rfl
        rw [if_neg hnew, if_pos (by simp [BusEvent.returned]),
          subscription_addLambda_self h nodeIndex tag hnew]
        simp [BusEvent.commands, performAll, run, perform]
      · have hmem : handle ∈ handles ++ (BusEvent.addLambda nodeIndex tag bound :
            BusEvent Tag Handle Payload).returned.toList ↔ handle ∈ handles := by
          simp [BusEvent.returned, Ne.symm hsame]
        rw [subscription_addLambda_of_ne bus nodeIndex tag hsame, if_congr hmem rfl rfl]
        simp [BusEvent.commands, performAll, run, perform, hsame]
  | remove nodeIndex tag bound =>
      rw [returned_eq_none (fun _ _ _ => by simp), BusEvent.commands, performAll_singleton]
      by_cases hsame : bound = handle
      · subst hsame
        rw [subscription_remove_self h]
        split <;> simp [perform]
      · rw [subscription_remove_of_ne bus nodeIndex tag hsame]
        simp [perform, hsame]
  | broadcast nodeIndex tag payload =>
      rw [returned_eq_none (fun _ _ _ => by simp), BusEvent.commands, performAll_singleton,
        subscription_broadcast h]
      by_cases hmem : handle ∈ bus.bound nodeIndex tag
      · rw [if_pos hmem]
        split <;> simp [perform, hmem, Subscription.receive, subscription]
      · rw [if_neg hmem, List.append_nil]
        split <;> simp [perform, hmem, subscription]

end HktEventBus

/-! ## Runs -/

variable [DecidableEq Tag] [DecidableEq Handle] [Inhabited Tag] {order : CallOrder Handle}

open HktEventBus

theorem knows_run {events : List (BusEvent Tag Handle Payload)}
    (hfresh : (handlesOf events).Nodup) :
    Knows (handlesOf events) (run (HktEventBus.step order) {} events) := by
  induction events using List.reverseRecOn with
  | nil => exact ⟨fun _ _ => List.nodup_nil, by simp [HktEventBus.bound], by simp⟩
  | append_singleton before event ih =>
      rw [handlesOf_concat] at hfresh ⊢
      rw [run_concat]
      exact (ih (List.nodup_append.mp hfresh).1).step hfresh

/-- `GetEvent` makes the delegate that it is asked for, and nothing else makes one. -/
theorem delegates_step (bus : HktEventBus Tag Handle Payload)
    (event : BusEvent Tag Handle Payload) :
    (bus.step order event).delegates = bus.delegates ∪ {topic | event.got = some topic} := by
  have hgot : ∀ (nodeIndex : HktId) (tag : Tag)
      (use : BehaviorEvent Handle → BehaviorEvent Handle),
      (bus.getEvent nodeIndex tag use).delegates =
        bus.delegates ∪ {topic | some (nodeIndex, tag) = some topic} := by
    intro nodeIndex tag use
    rw [delegates_getEvent]
    ext topic
    simp [eq_comm]
  cases event with
  | getEvent nodeIndex tag => exact hgot nodeIndex _ _
  | addLambda nodeIndex tag handle => exact hgot nodeIndex _ _
  | remove nodeIndex tag handle => exact hgot nodeIndex _ _
  | broadcast nodeIndex tag payload =>
      simp only [HktEventBus.step]
      rw [delegates_broadcast]
      simp [BusEvent.got]

theorem delegates_run (events : List (BusEvent Tag Handle Payload)) :
    (run (HktEventBus.step order) {} events).delegates =
      {topic | ∃ event ∈ events, event.got = some topic} := by
  induction events using List.reverseRecOn with
  | nil => simp [delegates]
  | append_singleton before event ih =>
      rw [run_concat, delegates_step, ih]
      ext topic
      simp [or_and_right, exists_or]

/-- **The event bus is a broker.**  As long as no handle is returned twice: in whatever order the
bus is used, a handle that has been returned is bound to the nodes and tags that it has been
bound to and not removed from, and has been called once with each payload that was broadcast to
one of them, in this order; any other handle is bound to nothing and has not been called.  The bus
has a delegate for exactly the nodes and tags that `GetEvent` has been asked for: a broadcast
leaves its maps as they are, also where it finds no delegate. -/
theorem event_bus_is_broker (order : CallOrder Handle)
    (events : List (BusEvent Tag Handle Payload)) (hfresh : (handlesOf events).Nodup)
    (handle : Handle) :
    let bus := run (HktEventBus.step order) {} events
    performAll handle none (events.flatMap BusEvent.commands) =
        (if handle ∈ handlesOf events then some (bus.subscription handle) else none) ∧
      (handle ∉ handlesOf events → bus.subscription handle = {}) ∧
      bus.delegates = {topic | ∃ event ∈ events, event.got = some topic} ∧
      ∀ nodeIndex tag payload,
        (bus.step order (.broadcast nodeIndex tag payload)).eventRouterMap =
          bus.eventRouterMap := by
  intro bus
  refine ⟨?_, (knows_run hfresh).subscription_eq, delegates_run events, fun nodeIndex tag payload =>
    eventRouterMap_broadcast order nodeIndex tag payload bus⟩
  induction events using List.reverseRecOn with
  | nil => rfl
  | append_singleton before event ih =>
      rw [handlesOf_concat] at hfresh
      have hbefore := (List.nodup_append.mp hfresh).1
      have hafter : bus = (run (HktEventBus.step order) {} before).step order event :=
        run_concat before event
      rw [hafter, List.flatMap_append, performAll_append, ih hbefore, handlesOf_concat,
        List.flatMap_singleton]
      exact performAll_commands (knows_run hbefore) hfresh handle

/-- A bus calls what is bound in the order in which it was bound. -/
def inOrder : CallOrder ℕ := ⟨id, List.Perm.refl⟩

/-- Two functions are bound to the empty tag of a node and one to another tag, and one of the two
is removed between two broadcasts. -/
def removedBetween : List (BusEvent String ℕ String) :=
  [.addLambda 1 none 1, .addLambda 1 none 2, .addLambda 1 (some "Move") 3,
    .broadcast 1 "" "first", .remove 1 none 1, .broadcast 1 "" "second", .broadcast 2 "" "third"]

theorem event_bus_is_broker_removedBetween :
    (run (HktEventBus.step inOrder) {} removedBetween).payloads 2 = ["first", "second"] ∧
      (run (HktEventBus.step inOrder) {} removedBetween).subscription 4 = {} ∧
      ((2, "") : HktId × String) ∉ (run (HktEventBus.step inOrder) {} removedBetween).delegates := by
  have hfresh : (handlesOf removedBetween).Nodup := by decide
  obtain ⟨hbroker, -⟩ := event_bus_is_broker inOrder removedBetween hfresh 2
  obtain ⟨-, hunknown, hdelegates, -⟩ := event_bus_is_broker inOrder removedBetween hfresh 4
  refine ⟨?_, hunknown (by decide), ?_⟩
  swap
  · rw [hdelegates]
    simp [removedBetween, BusEvent.got]
  rw [if_pos (by decide)] at hbroker
  have hcommands : removedBetween.flatMap BusEvent.commands =
      [.connect 1, .subscribe 1 (1, ""), .connect 2, .subscribe 2 (1, ""), .connect 3,
        .subscribe 3 (1, "Move"), .publish (1, "") "first" none, .unsubscribe 1 (1, ""),
        .publish (1, "") "second" none, .publish (2, "") "third" none] := by
    decide
  have hperformed : performAll 2 none (removedBetween.flatMap BusEvent.commands) =
      some { topics := {(1, "")}, published := ["first", "second"] } := by
    rw [hcommands]
    simp [performAll, run, perform, Subscription.receive]
  rw [hperformed] at hbroker
  exact congrArg Subscription.published (Option.some.inj hbroker.symm)

end HktBase.Base
