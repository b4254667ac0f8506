import Mathlib.Data.Set.Insert
import HktBase.Library.Run

/-!
# A publish–subscribe broker

A broker knows who is connected, the topics each of them has subscribed to, and what it has
passed on to each since it connected.  A message is sent to one subscriber, or published on a
topic for all but one of those who have subscribed to it.  `perform` is one command as one
client sees it: what happens to it depends on nobody else, so a broker is a family of these
machines, and a whole run is read off one client at a time.

A client that is not connected is not heard: it can neither subscribe nor be sent anything.
-/

namespace Broker

variable {α τ μ : Type*}

/-- What a broker keeps of a connected client. -/
structure Subscription (τ μ : Type*) where
  topics : Set τ := ∅
  published : List μ := []

inductive Command (α τ μ : Type*)
  | connect (client : α)
  | disconnect (client : α)
  | subscribe (client : α) (topic : τ)
  | unsubscribe (client : α) (topic : τ)
  | send (client : α) (message : μ)
  /-- To the subscribers of the topic, except one. -/
  | publish (topic : τ) (message : μ) (excluded : Option α)
  deriving DecidableEq

def Subscription.receive (subscription : Subscription τ μ) (message : μ) : Subscription τ μ :=
  { subscription with published := subscription.published ++ [message] }

open Classical in
/-- A command as one client sees it; `none` while it is not connected. -/
noncomputable def perform (client : α) (state : Option (Subscription τ μ)) :
    Command α τ μ → Option (Subscription τ μ)
  | .connect other => if other = client then some (state.getD {}) else state
  | .disconnect other => if other = client then none else state
  | .subscribe other topic =>
      if other = client then
        state.map fun subscription =>
          { subscription with topics := insert topic subscription.topics }
      else state
  | .unsubscribe other topic =>
      if other = client then
        state.map fun subscription =>
          { subscription with topics := subscription.topics \ {topic} }
      else state
  | .send other message =>
      if other = client then state.map fun subscription => subscription.receive message else state
  | .publish topic message excluded =>
      state.map fun subscription =>
        if topic ∈ subscription.topics ∧ excluded ≠ some client then subscription.receive message
        else subscription

/-- What some commands make of a client. -/
noncomputable def performAll (client : α) (state : Option (Subscription τ μ))
    (commands : List (Command α τ μ)) : Option (Subscription τ μ) :=
  Transition.run (perform client) state commands

@[simp] theorem performAll_nil (client : α) (state : Option (Subscription τ μ)) :
    performAll client state [] = state := rfl

@[simp] theorem performAll_singleton (client : α) (state : Option (Subscription τ μ))
    (command : Command α τ μ) : performAll client state [command] = perform client state command :=
  rfl

theorem performAll_append (client : α) (state : Option (Subscription τ μ))
    (first second : List (Command α τ μ)) :
    performAll client state (first ++ second) =
      performAll client (performAll client state first) second :=
  Transition.run_append first second

end Broker
