import Mathlib.Algebra.Group.Nat.Defs
import Mathlib.Data.List.Infix
import Mathlib.Data.List.TakeDrop

/-!
# Topics of a log

A log of messages, each on a topic.  Who follows a topic from some position on has been
given a slice of the messages of the topic, and two slices of one list agree on the order
of what they share.
-/

namespace TopicLog

variable {τ μ : Type*} [DecidableEq τ]

/-- The messages of a topic, in order. -/
def ofTopic (topic : τ) (log : List (τ × μ)) : List μ :=
  log.filterMap fun entry => if entry.1 = topic then some entry.2 else none

theorem ofTopic_concat (topic : τ) (log : List (τ × μ)) (entry : τ × μ) :
    ofTopic topic (log ++ [entry]) =
      ofTopic topic log ++ if entry.1 = topic then [entry.2] else [] := by
  unfold ofTopic
  rw [List.filterMap_append]
  by_cases h : entry.1 = topic
  · simp [h]
  · simp [h]

/-- The messages from one position to another. -/
def slice (first last : ℕ) (messages : List μ) : List μ := (messages.take last).drop first

theorem slice_self (position : ℕ) (messages : List μ) : slice position position messages = [] := by
  unfold slice
  exact List.drop_eq_nil_of_le (List.length_take_le ..)

theorem slice_append {last : ℕ} {messages : List μ} (h : last ≤ messages.length) (first : ℕ)
    (more : List μ) : slice first last (messages ++ more) = slice first last messages := by
  unfold slice
  rw [List.take_append_of_le_length h]

theorem slice_concat {first : ℕ} {messages : List μ} (h : first ≤ messages.length) (message : μ) :
    slice first (messages.length + 1) (messages ++ [message]) =
      slice first messages.length messages ++ [message] := by
  unfold slice
  rw [List.take_of_length_le (by simp), List.take_length, List.drop_append_of_le_length h]

theorem length_slice {last : ℕ} {messages : List μ} (h : last ≤ messages.length) (first : ℕ) :
    (slice first last messages).length = last - first := by
  unfold slice
  rw [List.length_drop, List.length_take, Nat.min_eq_left h]

theorem take_slice (first last count : ℕ) (messages : List μ) :
    (slice first last messages).take count = slice first (min (first + count) last) messages := by
  unfold slice
  rw [List.take_drop, List.take_take]

/-- Of two beginnings of one list, the first is extended by what the second has next. -/
theorem prefix_of_next {front sent whole : List μ} (hfront : front <+: whole)
    (hsent : sent <+: whole) {message : μ} (hnext : sent[front.length]? = some message) :
    front ++ [message] <+: whole := by
  obtain ⟨later, rfl⟩ := hsent
  obtain ⟨hlt, hget⟩ := List.getElem?_eq_some_iff.mp hnext
  have hfirst : front <+: sent :=
    List.prefix_of_prefix_length_le hfront (List.prefix_append ..) hlt.le
  obtain ⟨rest, rfl⟩ := hfirst
  rw [List.getElem?_append_right le_rfl, Nat.sub_self] at hnext
  cases rest with
  | nil => simp at hnext
  | cons first after =>
      obtain rfl : first = message := by simpa using hnext
      exact ⟨after ++ later, by simp⟩

end TopicLog
