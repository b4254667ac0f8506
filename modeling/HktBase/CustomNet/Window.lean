import HktBase.CustomNet.Client
import HktBase.CustomNet.Server

/-!
# What a receive window acknowledges

A window is written by `UpdateReceivedState` on one endpoint and read by
`ProcessAck` on the other.  Read back, it acknowledges the set `acked`; this file
follows that set through the three branches of `UpdateReceivedState`.

* `acked_updateReceivedState_subset`: beyond the arrival itself, an update
  acknowledges at most the numbers in `marks`.
* `marks_subset_acked`: and it does acknowledge those.

`marks` is not empty in two cases.  A new head `x` always sets bit 0, which stands
for `x - 1` whatever the gap was.  And a repeated head shifts by `0 - 1`, which is
undefined, so it sets whatever bits the machine sets.
-/

namespace HktBase.CustomNet

variable {undefinedShift : UInt32 → UInt32}

namespace ReceiveWindow

/-- The numbers other than the arrival that `UpdateReceivedState` marks as received. -/
def marks (undefinedShift : UInt32 → UInt32) (window : ReceiveWindow) (x : UInt32) : Set UInt32 :=
  {s | ¬ window.Stale x ∧
    ((window.receivedSequence < x ∧ s = x - 1) ∨
      (x = window.receivedSequence ∧ s ∈ lookback x (undefinedShift (0 - 1))))}

/-- Every number that the window acknowledges lies in `received`. -/
def SoundFor (window : ReceiveWindow) (received : Set UInt32) : Prop :=
  window.acked ⊆ received

/-! ## The three branches -/

theorem updateReceivedState_of_stale {window : ReceiveWindow} {x : UInt32}
    (h : window.Stale x) : window.updateReceivedState undefinedShift x = window := by
  rw [updateReceivedState, if_pos h]

/-- A new head is acknowledged, and so is its predecessor; older numbers are
acknowledged only if they were before. -/
theorem acked_updateReceivedState_of_lt {window : ReceiveWindow} {x : UInt32}
    (hstale : ¬ window.Stale x) (hlt : window.receivedSequence < x) :
    (window.updateReceivedState undefinedShift x).acked ⊆
        insert x (insert (x - 1) window.acked) ∧
      x - 1 ∈ (window.updateReceivedState undefinedShift x).acked := by
  rw [updateReceivedState, if_neg hstale, if_pos hlt]
  unfold acked ackedBy
  -- a jump of 32 or more forgets the old bits, a smaller one shifts them
  by_cases hfar : x - window.receivedSequence ≥ 32
  · simp only [if_pos hfar, lookback_one]
    refine ⟨?_, by simp⟩
    rintro s (rfl | hs)
    · exact Set.mem_insert _ _
    · exact Set.mem_insert_of_mem _ (Or.inl hs)
  · simp only [if_neg hfar, lookback_or, lookback_one]
    refine ⟨?_, by simp⟩
    have hdiff : (x - window.receivedSequence).toNat < 32 := by
      simpa [UInt32.le_iff_toNat_le] using hfar
    have hhead : window.receivedSequence + (x - window.receivedSequence) = x := by grind
    have hold := lookback_shiftLeft_subset window.receivedSequence
      window.receivedAckBitfield hdiff
    rw [hhead] at hold
    rintro s (rfl | hs | hs)
    · exact Set.mem_insert _ _
    · exact Set.mem_insert_of_mem _ (Set.mem_insert_of_mem _
        (Set.mem_insert_of_mem _ (hold hs)))
    · exact Set.mem_insert_of_mem _ (Or.inl hs)

theorem sub_toNat_lt_of_not_stale {window : ReceiveWindow} {x : UInt32}
    (hstale : ¬ window.Stale x) (hle : x ≤ window.receivedSequence) :
    (window.receivedSequence - x).toNat < 32 := by
  unfold Stale at hstale
  simp only [UInt32.le_iff_toNat_le, UInt32.toNat_sub] at *
  have hx := x.toNat_lt
  have hhead := window.receivedSequence.toNat_lt
  have hwidth : (32 : UInt32).toNat = 32 := rfl
  omega

theorem acked_updateReceivedState_of_ge {window : ReceiveWindow} {x : UInt32}
    (hstale : ¬ window.Stale x) (hge : ¬ window.receivedSequence < x) :
    (window.updateReceivedState undefinedShift x).acked =
      window.acked ∪ lookback window.receivedSequence
        (shiftOne undefinedShift (window.receivedSequence - x - 1)) := by
  rw [updateReceivedState, if_neg hstale, if_neg hge]
  simp only [acked, ackedBy, lookback_or, Set.insert_union]

theorem shiftAmount_lt {window : ReceiveWindow} {x : UInt32} (hstale : ¬ window.Stale x)
    (hgt : x < window.receivedSequence) : window.receivedSequence - x - 1 < 32 := by
  have hdiff := sub_toNat_lt_of_not_stale hstale (by grind)
  have hpos : window.receivedSequence - x ≠ 0 := by grind
  have hne : (window.receivedSequence - x).toNat ≠ 0 := fun h => hpos (UInt32.toNat_inj.mp h)
  have hone : (1 : UInt32).toNat = 1 := rfl
  have hwidth : (32 : UInt32).toNat = 32 := rfl
  rw [UInt32.lt_iff_toNat_lt, UInt32.toNat_sub, hone, hwidth]
  omega

/-- A reordered arrival sets its own bit and no other. -/
theorem acked_updateReceivedState_of_gt {window : ReceiveWindow} {x : UInt32}
    (hstale : ¬ window.Stale x) (hgt : x < window.receivedSequence) :
    (window.updateReceivedState undefinedShift x).acked = insert x window.acked := by
  have hge : ¬ window.receivedSequence < x := by grind
  have hsmall := shiftAmount_lt hstale hgt
  have hamount : (window.receivedSequence - x - 1).toNat < 32 := UInt32.lt_iff_toNat_lt.mp hsmall
  have harrival : window.receivedSequence - (window.receivedSequence - x - 1 + 1) = x := by
    grind
  rw [acked_updateReceivedState_of_ge hstale hge, shiftOne, if_pos hsmall,
    lookback_one_shiftLeft hamount, harrival, Set.union_singleton]

/-- A repeated head sets the bits of an undefined shift. -/
theorem acked_updateReceivedState_self {window : ReceiveWindow}
    (hstale : ¬ window.Stale window.receivedSequence) :
    (window.updateReceivedState undefinedShift window.receivedSequence).acked =
      window.acked ∪ lookback window.receivedSequence (undefinedShift (0 - 1)) := by
  rw [acked_updateReceivedState_of_ge hstale (by grind)]
  have hamount : window.receivedSequence - window.receivedSequence - 1 = 0 - 1 := by grind
  rw [hamount, shiftOne, if_neg (by decide)]

/-! ## One arrival -/

theorem notMem_marks_self (window : ReceiveWindow) (x : UInt32) :
    x ∉ window.marks undefinedShift x := by
  rintro ⟨-, ⟨-, hx⟩ | ⟨-, hx⟩⟩
  · grind
  · exact head_notMem_lookback _ _ hx

/-- An update acknowledges no more than the arrival, what was acknowledged before and `marks`:
one case for each branch of `UpdateReceivedState`. -/
theorem acked_updateReceivedState_subset (window : ReceiveWindow) (x : UInt32) :
    (window.updateReceivedState undefinedShift x).acked ⊆
      insert x (window.acked ∪ window.marks undefinedShift x) := by
  intro s hs
  by_cases hstale : window.Stale x
  · rw [updateReceivedState_of_stale hstale] at hs
    exact Or.inr (Or.inl hs)
  have hcases : window.receivedSequence < x ∨ window.receivedSequence = x ∨
      x < window.receivedSequence := by grind
  rcases hcases with hlt | heq | hgt
  · rcases (acked_updateReceivedState_of_lt hstale hlt).1 hs with rfl | rfl | hs
    · exact Or.inl rfl
    · exact Or.inr (Or.inr ⟨hstale, Or.inl ⟨hlt, rfl⟩⟩)
    · exact Or.inr (Or.inl hs)
  · subst heq
    rw [acked_updateReceivedState_self hstale] at hs
    rcases hs with hs | hs
    · exact Or.inr (Or.inl hs)
    · exact Or.inr (Or.inr ⟨hstale, Or.inr ⟨rfl, hs⟩⟩)
  · rw [acked_updateReceivedState_of_gt hstale hgt] at hs
    exact hs.imp id Or.inl

theorem marks_subset_acked (window : ReceiveWindow) (x : UInt32) :
    window.marks undefinedShift x ⊆ (window.updateReceivedState undefinedShift x).acked := by
  rintro s ⟨hstale, ⟨hlt, rfl⟩ | ⟨rfl, hs⟩⟩
  · exact (acked_updateReceivedState_of_lt hstale hlt).2
  · rw [acked_updateReceivedState_self hstale]
    exact Or.inr hs

/-- An arrival keeps the window sound exactly when what it marks has been received. -/
theorem soundFor_updateReceivedState_iff {window : ReceiveWindow} {received : Set UInt32}
    (hsound : window.SoundFor received) (x : UInt32) :
    (window.updateReceivedState undefinedShift x).SoundFor (insert x received) ↔
      window.marks undefinedShift x ⊆ received := by
  constructor
  · intro h s hs
    rcases h (marks_subset_acked window x hs) with rfl | hmem
    · exact absurd hs (notMem_marks_self window s)
    · exact hmem
  · intro h s hs
    rcases acked_updateReceivedState_subset window x hs with rfl | hs | hs
    · exact Or.inl rfl
    · exact Or.inr (hsound hs)
    · exact Or.inr (h hs)

/-! ## Lists of arrivals -/

/-- The window after a list of arrivals. -/
def feed (undefinedShift : UInt32 → UInt32) (window : ReceiveWindow) (arrivals : List UInt32) :
    ReceiveWindow :=
  arrivals.foldl (updateReceivedState undefinedShift) window

theorem feed_concat (window : ReceiveWindow) (arrivals : List UInt32) (x : UInt32) :
    window.feed undefinedShift (arrivals ++ [x]) =
      (window.feed undefinedShift arrivals).updateReceivedState undefinedShift x := by
  rw [feed, List.foldl_concat]
  rfl

/-- The numbers received so far. -/
def receivedBy (received : Set UInt32) (arrivals : List UInt32) : Set UInt32 :=
  {s | s ∈ received ∨ s ∈ arrivals}

theorem receivedBy_concat (received : Set UInt32) (arrivals : List UInt32) (x : UInt32) :
    receivedBy received (arrivals ++ [x]) = insert x (receivedBy received arrivals) := by
  ext s
  simp only [receivedBy, List.mem_append, List.mem_singleton, Set.mem_ofPred_eq, Set.mem_insert_iff]
  tauto

/-- Whatever an arrival marks has been received before it, at every arrival of the list. -/
def MarksOnlyReceived (undefinedShift : UInt32 → UInt32) (window : ReceiveWindow)
    (received : Set UInt32) (arrivals : List UInt32) : Prop :=
  ∀ before x after, arrivals = before ++ x :: after →
    (window.feed undefinedShift before).marks undefinedShift x ⊆ receivedBy received before

/-- A whole list of arrivals: the windows are sound all along exactly when each arrival marks
only what has been received when it arrives. -/
theorem soundFor_feed_iff {window : ReceiveWindow} {received : Set UInt32}
    (hsound : window.SoundFor received) (arrivals : List UInt32) :
    (∀ before, before <+: arrivals →
        (window.feed undefinedShift before).SoundFor (receivedBy received before)) ↔
      window.MarksOnlyReceived undefinedShift received arrivals := by
  constructor
  · intro h before x after hsplit
    have hbefore := h before ⟨x :: after, hsplit.symm⟩
    have hnext := h (before ++ [x]) ⟨after, by simp [hsplit]⟩
    rw [feed_concat, receivedBy_concat] at hnext
    exact (soundFor_updateReceivedState_iff hbefore x).mp hnext
  · -- induction on the prefix: each arrival keeps the window sound by its own condition
    intro h before
    induction before using List.reverseRecOn with
    | nil =>
        intro _ s hs
        exact Or.inl (hsound hs)
    | append_singleton before x ih =>
        rintro ⟨after, hsplit⟩
        have hbefore := ih ⟨x :: after, by simp [← hsplit]⟩
        rw [feed_concat, receivedBy_concat]
        exact (soundFor_updateReceivedState_iff hbefore x).mpr
          (h before x after (by simp [← hsplit]))

end ReceiveWindow

/-! ## No false acknowledgement -/

theorem toReceiveWindow_foldl_server {Addr : Type} [Platform Addr]
    (connection : ClientConnection Addr) (arrivals : List UInt32) :
    (arrivals.foldl ClientConnection.updateReceivedState connection).toReceiveWindow =
      connection.toReceiveWindow.feed (Platform.undefinedShift Addr) arrivals := by
  induction arrivals generalizing connection with
  | nil => rfl
  | cons x rest ih => exact ih (connection.updateReceivedState x)

theorem toReceiveWindow_foldl_client {Addr : Type} [Platform Addr]
    (client : HktReliableUdpClient Addr) (arrivals : List UInt32) :
    (arrivals.foldl HktReliableUdpClient.updateReceivedState client).toReceiveWindow =
      client.toReceiveWindow.feed (Platform.undefinedShift Addr) arrivals := by
  induction arrivals generalizing client with
  | nil => rfl
  | cons x rest ih => exact ih (client.updateReceivedState x)

/-- A window acknowledges no number outside `received`, and `ProcessAck` on a header
that carries the window leaves every pending packet outside `received` in place. -/
def NoFalseAck (window : ReceiveWindow) (received : Set UInt32) : Prop :=
  window.SoundFor received ∧
    ∀ (header : PacketHeader) (pending : TMap UInt32 PendingPacket) (s : UInt32),
      header.lastAckedSequence = window.receivedSequence →
      header.ackBitfield = window.receivedAckBitfield → s ∉ received →
      (processAck header pending).find s = pending.find s

theorem noFalseAck_iff (window : ReceiveWindow) (received : Set UInt32) :
    NoFalseAck window received ↔ window.SoundFor received := by
  refine ⟨And.left, fun hsound => ⟨hsound, ?_⟩⟩
  intro header pending s hlast hbits hs
  have hacks : header.acks = window.acked := by
    rw [PacketHeader.acks, hlast, hbits, ReceiveWindow.acked]
  rw [find_processAck, if_neg]
  rw [hacks]
  exact fun hmem => hs (hsound hmem)

/-- **When acknowledgements are true.**  From a window sound for `received`, feeding
arrivals to the server's or the client's `UpdateReceivedState` gives windows without
false acknowledgement all along exactly when no arrival marks a number that has not
been received: the predecessor of a new head, or whatever an undefined shift marks
when the head is repeated. -/
theorem noFalseAck_updateReceivedState_iff {Addr : Type} [Platform Addr] (received : Set UInt32)
    (connection : ClientConnection Addr) (client : HktReliableUdpClient Addr)
    (arrivals : List UInt32) :
    (connection.toReceiveWindow.SoundFor received →
      ((∀ before, before <+: arrivals →
          NoFalseAck (before.foldl ClientConnection.updateReceivedState connection).toReceiveWindow
            (ReceiveWindow.receivedBy received before)) ↔
        connection.toReceiveWindow.MarksOnlyReceived (Platform.undefinedShift Addr) received
          arrivals)) ∧
    (client.toReceiveWindow.SoundFor received →
      ((∀ before, before <+: arrivals →
          NoFalseAck (before.foldl HktReliableUdpClient.updateReceivedState client).toReceiveWindow
            (ReceiveWindow.receivedBy received before)) ↔
        client.toReceiveWindow.MarksOnlyReceived (Platform.undefinedShift Addr) received
          arrivals)) := by
  constructor
  · intro hsound
    simp only [noFalseAck_iff, toReceiveWindow_foldl_server]
    exact ReceiveWindow.soundFor_feed_iff hsound arrivals
  · intro hsound
    simp only [noFalseAck_iff, toReceiveWindow_foldl_client]
    exact ReceiveWindow.soundFor_feed_iff hsound arrivals

/-- An arrival in order marks nothing but its received predecessor. -/
theorem noFalseAck_updateReceivedState_inOrder :
    (∀ before, before <+: [41] →
      NoFalseAck (before.foldl ClientConnection.updateReceivedState
          ({ address := ⟨7778⟩, receivedSequence := 40 } :
            ClientConnection LoopbackAddr)).toReceiveWindow
        (ReceiveWindow.receivedBy {40} before)) ∧
    (∀ before, before <+: [41] →
      NoFalseAck (before.foldl HktReliableUdpClient.updateReceivedState
          ({ receivedSequence := 40 } : HktReliableUdpClient LoopbackAddr)).toReceiveWindow
        (ReceiveWindow.receivedBy {40} before)) := by
  have hsound : ({ receivedSequence := 40 } : ReceiveWindow).SoundFor {40} := by
    rintro s (rfl | hs)
    · rfl
    · simp at hs
  have hmarks : ({ receivedSequence := 40 } : ReceiveWindow).MarksOnlyReceived
      (Platform.undefinedShift LoopbackAddr) {40} [41] := by
    intro before x after hsplit
    cases before with
    | cons y rest => simp at hsplit
    | nil =>
        obtain ⟨rfl, -⟩ : 41 = x ∧ [] = after := by simpa using hsplit
        rintro s ⟨-, ⟨-, rfl⟩ | ⟨hx, -⟩⟩
        · exact Or.inl (by decide)
        · exact absurd hx (by decide)
  have h := noFalseAck_updateReceivedState_iff {40}
    ({ address := ⟨7778⟩, receivedSequence := 40 } : ClientConnection LoopbackAddr)
    { receivedSequence := 40 } [41]
  exact ⟨(h.1 hsound).mpr hmarks, (h.2 hsound).mpr hmarks⟩

/-- After 40, the arrival of 42 makes the window acknowledge 41 as well. -/
theorem updateReceivedState_false_ack :
    ¬ ∀ (connection : ClientConnection LoopbackAddr) (received : Set UInt32),
      connection.toReceiveWindow.SoundFor received → ∀ arrivals : List UInt32,
        (arrivals.foldl ClientConnection.updateReceivedState
          connection).toReceiveWindow.SoundFor (ReceiveWindow.receivedBy received arrivals) := by
  intro h
  have hsound : ({ receivedSequence := 40 } : ReceiveWindow).SoundFor {40} := by
    rintro s (rfl | hs)
    · rfl
    · simp at hs
  have hacked : (41 : UInt32) ∈ ackedBy 42 1 := by decide
  rcases h { address := ⟨7778⟩, receivedSequence := 40 } {40} hsound [42] hacked with h40 | h42
  · exact absurd h40 (by decide)
  · exact absurd h42 (by decide)

end HktBase.CustomNet
