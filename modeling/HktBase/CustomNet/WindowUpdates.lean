import HktBase.CustomNet.Window

/-!
# What an arrival does to the evidence in a window

`Window.lean` bounds what a window may acknowledge.  This file asks the opposite
questions of `UpdateReceivedState`.

* `keepsEvidence_iff`: which arrivals keep what the window has acknowledged so far.  The
  old head has no bit of its own; the new field must get one for it, at a place that
  depends on the gap, and the code sets bit 0 instead.
* `harmlessTwice_iff` and `harmless_head_iff`: when a repeated arrival changes nothing.
  For a repeated head the shift amount wraps to 2^32 - 1.
* `becomesHead_iff`: when a packet that is ahead of the head, modulo 2^32, becomes the
  new head.  The numbers are compared without regard to a wrap-around.

All three read the new field through `acked_of_lt`, the exact set that is acknowledged after a
new head.  The arithmetic of the cut-off is in `not_stale_of_lt` and `stale_head_iff`: from 32
on the head is not stale, and what lies above it is not either.
-/

namespace HktBase.CustomNet

variable {undefinedShift : UInt32 → UInt32}

namespace ReceiveWindow

/-! ## The head after an arrival -/

theorem receivedSequence_of_lt {window : ReceiveWindow} {x : UInt32} (hstale : ¬ window.Stale x)
    (hlt : window.receivedSequence < x) :
    (window.updateReceivedState undefinedShift x).receivedSequence = x := by
  rw [updateReceivedState, if_neg hstale, if_pos hlt]

theorem receivedSequence_of_not_lt {window : ReceiveWindow} {x : UInt32}
    (hle : ¬ window.receivedSequence < x) :
    (window.updateReceivedState undefinedShift x).receivedSequence = window.receivedSequence := by
  unfold updateReceivedState
  split
  · rfl
  · rfl

/-- A head of 32 or more leaves the cut-off unwrapped, so that no larger number is stale. -/
theorem not_stale_of_lt {window : ReceiveWindow} {x : UInt32}
    (hhead : 32 ≤ window.receivedSequence.toNat) (hlt : window.receivedSequence < x) :
    ¬ window.Stale x := by
  unfold Stale
  rw [UInt32.lt_iff_toNat_lt] at hlt
  have hwidth : (32 : UInt32).toNat = 32 := rfl
  have hbound := window.receivedSequence.toNat_lt
  rw [UInt32.le_iff_toNat_le, UInt32.toNat_sub, hwidth]
  omega

/-- What a window acknowledges after a new head, whatever the gap: the head, its
predecessor, and what the shift leaves of the old field. -/
theorem acked_of_lt {window : ReceiveWindow} {x : UInt32} (hstale : ¬ window.Stale x)
    (hlt : window.receivedSequence < x) :
    (window.updateReceivedState undefinedShift x).acked =
      insert x (insert (x - 1) {s | ∃ i, i + (x - window.receivedSequence).toNat < 32 ∧
        window.receivedAckBitfield.toNat.testBit i = true ∧
        s = window.receivedSequence - UInt32.ofNat (i + 1)}) := by
  rw [updateReceivedState, if_neg hstale, if_pos hlt]
  unfold acked ackedBy
  by_cases hfar : x - window.receivedSequence ≥ 32
  · simp only [if_pos hfar, lookback_one]
    have hwidth : 32 ≤ (x - window.receivedSequence).toNat := UInt32.le_iff_toNat_le.mp hfar
    -- nothing of the old field is left after 32 numbers
    have hnone : {s | ∃ i, i + (x - window.receivedSequence).toNat < 32 ∧
        window.receivedAckBitfield.toNat.testBit i = true ∧
        s = window.receivedSequence - UInt32.ofNat (i + 1)} = ∅ := by
      ext s
      simp only [Set.mem_ofPred_eq, Set.mem_empty_iff_false, iff_false]
      rintro ⟨i, hi, -⟩
      omega
    rw [hnone, insert_empty_eq]
  · simp only [if_neg hfar, lookback_or, lookback_one]
    have hdiff : (x - window.receivedSequence).toNat < 32 := by
      simpa [UInt32.le_iff_toNat_le] using hfar
    have hhead : window.receivedSequence + (x - window.receivedSequence) = x := by grind
    -- the shift moves each bit by the gap, and so keeps the number it stands for
    have hold : lookback x (window.receivedAckBitfield <<< (x - window.receivedSequence)) =
        {s | ∃ i, i + (x - window.receivedSequence).toNat < 32 ∧
          window.receivedAckBitfield.toNat.testBit i = true ∧
          s = window.receivedSequence - UInt32.ofNat (i + 1)} := by
      ext s
      rw [Set.mem_ofPred_eq, ← mem_lookback_shiftLeft hdiff, hhead]
    rw [hold, Set.union_comm, Set.singleton_union]

/-! ## Evidence -/

/-- What a window acknowledges, number 0 apart, the next one acknowledges as well, as
far as its field reaches. -/
def KeepsEvidence (before after : ReceiveWindow) : Prop :=
  ∀ s ∈ before.acked, 1 ≤ s.toNat → s.toNat ≤ after.receivedSequence.toNat →
    after.receivedSequence.toNat - s.toNat ≤ 32 → s ∈ after.acked

/-- Old bits move with the head until they fall out at the far end. -/
theorem mem_acked_of_bit {window : ReceiveWindow} {x : UInt32} (hstale : ¬ window.Stale x)
    (hlt : window.receivedSequence < x) {s : UInt32} {i : ℕ} (hi : i < 32)
    (hhead : 32 ≤ window.receivedSequence.toNat)
    (hbit : window.receivedAckBitfield.toNat.testBit i = true)
    (hs : s = window.receivedSequence - UInt32.ofNat (i + 1))
    (hreach : x.toNat - s.toNat ≤ 32) :
    s ∈ (window.updateReceivedState undefinedShift x).acked := by
  rw [acked_of_lt hstale hlt]
  refine Set.mem_insert_of_mem _ (Set.mem_insert_of_mem _ ⟨i, ?_, hbit, hs⟩)
  have hoffset : (UInt32.ofNat (i + 1)).toNat = i + 1 := by
    rw [UInt32.toNat_ofNat']
    omega
  have hsnat : s.toNat = window.receivedSequence.toNat - (i + 1) := by
    have hbound := window.receivedSequence.toNat_lt
    rw [hs, UInt32.toNat_sub, hoffset]
    omega
  -- neither subtraction wraps: the number is below the head, and the head below the arrival
  have hgap : (x - window.receivedSequence).toNat =
      x.toNat - window.receivedSequence.toNat := by
    have hbound := x.toNat_lt
    rw [UInt32.lt_iff_toNat_lt] at hlt
    rw [UInt32.toNat_sub]
    omega
  rw [UInt32.lt_iff_toNat_lt] at hlt
  omega

/-- A gap of 2 to 32 forgets the old head: the bit that is set belongs to the
predecessor of the new one. -/
theorem head_notMem_acked {window : ReceiveWindow} {x : UInt32}
    (hhead : 32 ≤ window.receivedSequence.toNat)
    (hgap : window.receivedSequence.toNat + 2 ≤ x.toNat) :
    window.receivedSequence ∉ (window.updateReceivedState undefinedShift x).acked := by
  have hlt : window.receivedSequence < x := by
    rw [UInt32.lt_iff_toNat_lt]
    omega
  rw [acked_of_lt (not_stale_of_lt hhead hlt) hlt]
  -- the old head would have to be the new one, its predecessor, or have had a bit of its own
  rintro (hsame | hsame | ⟨i, hi, hbit, hsame⟩)
  · rw [hsame] at hlt
    grind
  · have hone : (1 : UInt32).toNat = 1 := rfl
    have hbound := x.toNat_lt
    have hnat := congrArg UInt32.toNat hsame
    rw [UInt32.toNat_sub, hone] at hnat
    omega
  · have hbits : window.receivedSequence ∈
        lookback window.receivedSequence window.receivedAckBitfield :=
      ⟨i, by omega, hbit, hsame⟩
    exact head_notMem_lookback _ _ hbits

/-- An arrival keeps the evidence exactly when it does not leave a gap of 2 to 32. -/
theorem keepsEvidence_iff {window : ReceiveWindow} (hhead : 32 ≤ window.receivedSequence.toNat)
    (x : UInt32) :
    KeepsEvidence window (window.updateReceivedState undefinedShift x) ↔
      ¬ (window.receivedSequence.toNat + 2 ≤ x.toNat ∧
        x.toNat ≤ window.receivedSequence.toNat + 32) := by
  constructor
  · rintro hkeeps ⟨hgap, hnear⟩
    have hlt : window.receivedSequence < x := by
      rw [UInt32.lt_iff_toNat_lt]
      omega
    have hnext : (window.updateReceivedState undefinedShift x).receivedSequence = x :=
      receivedSequence_of_lt (not_stale_of_lt hhead hlt) hlt
    apply head_notMem_acked hhead hgap
    apply hkeeps window.receivedSequence (Set.mem_insert _ _)
    · omega
    · rw [hnext]
      omega
    · rw [hnext]
      omega
  · intro hgap s hs hpos hle hreach
    by_cases hlt : window.receivedSequence < x
    · have hstale := not_stale_of_lt hhead hlt
      rw [receivedSequence_of_lt hstale hlt] at hle hreach
      rcases hs with rfl | ⟨i, hi, hbit, hs⟩
      · -- the old head is acknowledged by bit 0, and only an arrival in order gives it that
        rw [UInt32.lt_iff_toNat_lt] at hlt
        have hnext : x = window.receivedSequence + 1 := by
          have hsucc : x.toNat = window.receivedSequence.toNat + 1 := by omega
          have hone : (1 : UInt32).toNat = 1 := rfl
          have hbound := x.toNat_lt
          apply UInt32.toNat_inj.mp
          rw [UInt32.toNat_add, hone]
          omega
        rw [acked_of_lt hstale (UInt32.lt_iff_toNat_lt.mpr hlt), hnext]
        refine Set.mem_insert_of_mem _ (Or.inl ?_)
        grind
      · exact mem_acked_of_bit hstale hlt hi hhead hbit hs hreach
    · by_cases hstale : window.Stale x
      · rwa [updateReceivedState_of_stale hstale]
      · rw [acked_updateReceivedState_of_ge hstale hlt]
        exact Or.inl hs

/-! ## Repeated arrivals -/

/-- The amounts of the shifts that `UpdateReceivedState` carries out. -/
def shiftAmounts (window : ReceiveWindow) (incomingSequence : UInt32) : List UInt32 :=
  if window.Stale incomingSequence then []
  else if incomingSequence > window.receivedSequence then
    let diff := incomingSequence - window.receivedSequence
    if diff ≥ 32 then [] else [diff]
  else [window.receivedSequence - incomingSequence - 1]

/-- Every shift is by 0 to 31 bits, so that C++ defines its result. -/
def ShiftsInRange (window : ReceiveWindow) (incomingSequence : UInt32) : Prop :=
  ∀ amount ∈ window.shiftAmounts incomingSequence, amount < 32

/-- The arrival is processed without an undefined shift and changes nothing. -/
def Harmless (undefinedShift : UInt32 → UInt32) (window : ReceiveWindow) (x : UInt32) : Prop :=
  window.ShiftsInRange x ∧ window.updateReceivedState undefinedShift x = window

/-- Processing the arrival twice in a row is defined and the same as processing it once. -/
def HarmlessTwice (undefinedShift : UInt32 → UInt32) (window : ReceiveWindow) (x : UInt32) :
    Prop :=
  window.ShiftsInRange x ∧
    (window.updateReceivedState undefinedShift x).Harmless undefinedShift x

theorem stale_head_iff {window : ReceiveWindow} :
    window.Stale window.receivedSequence ↔ window.receivedSequence.toNat < 32 := by
  have hwidth : (32 : UInt32).toNat = 32 := rfl
  have hbound := window.receivedSequence.toNat_lt
  unfold Stale
  rw [UInt32.le_iff_toNat_le, UInt32.toNat_sub, hwidth]
  omega

/-- Only a repeated head of 32 or more is shifted out of range: by 0 - 1. -/
theorem shiftsInRange_iff {window : ReceiveWindow} {x : UInt32} :
    window.ShiftsInRange x ↔
      ¬ (x = window.receivedSequence ∧ 32 ≤ window.receivedSequence.toNat) := by
  unfold ShiftsInRange shiftAmounts
  by_cases hstale : window.Stale x
  · rw [if_pos hstale]
    refine iff_of_true (by simp) ?_
    rintro ⟨rfl, hhead⟩
    have hsmall := stale_head_iff.mp hstale
    omega
  rw [if_neg hstale]
  by_cases hlt : x > window.receivedSequence
  · have hne : x ≠ window.receivedSequence := by grind
    rw [if_pos hlt]
    refine iff_of_true (fun amount hamount => ?_) fun h => hne h.1
    dsimp only at hamount
    split at hamount
    · simp at hamount
    · next hnear =>
        obtain rfl := List.mem_singleton.mp hamount
        grind
  rw [if_neg hlt]
  simp only [List.mem_singleton, forall_eq]
  by_cases hsame : x = window.receivedSequence
  · subst hsame
    have hhead : 32 ≤ window.receivedSequence.toNat := by
      apply not_lt.mp
      exact fun hsmall => hstale (stale_head_iff.mpr hsmall)
    -- the distance of a head to itself, less one
    have hwrapped : ¬ window.receivedSequence - window.receivedSequence - 1 < 32 := by
      rw [show window.receivedSequence - window.receivedSequence - 1 = 0 - 1 by grind]
      decide
    exact iff_of_false hwrapped fun h => h ⟨rfl, hhead⟩
  · refine iff_of_true ?_ fun h => hsame h.1
    exact shiftAmount_lt hstale (by grind)

/-- Repeating the head is harmless only while the cut-off has wrapped and drops it. -/
theorem harmless_head_iff (window : ReceiveWindow) :
    window.Harmless undefinedShift window.receivedSequence ↔
      window.receivedSequence.toNat < 32 := by
  unfold Harmless
  rw [shiftsInRange_iff]
  constructor
  · rintro ⟨hrange, -⟩
    apply not_le.mp
    exact fun hhead => hrange ⟨rfl, hhead⟩
  · intro hsmall
    refine ⟨fun h => ?_, updateReceivedState_of_stale (stale_head_iff.mpr hsmall)⟩
    omega

/-- An arrival that becomes the head lies above the cut-off, wrapped or not. -/
theorem le_toNat_of_lt {window : ReceiveWindow} {x : UInt32} (hstale : ¬ window.Stale x)
    (hlt : window.receivedSequence < x) : 32 ≤ x.toNat := by
  have hwidth : (32 : UInt32).toNat = 32 := rfl
  have hbound := window.receivedSequence.toNat_lt
  unfold Stale at hstale
  rw [UInt32.le_iff_toNat_le, UInt32.toNat_sub, hwidth] at hstale
  rw [UInt32.lt_iff_toNat_lt] at hlt
  omega

/-- A reordered arrival leaves the head and sets a bit, which it finds set the next time. -/
theorem harmless_of_gt {window : ReceiveWindow} {x : UInt32} (hstale : ¬ window.Stale x)
    (hgt : x < window.receivedSequence) :
    (window.updateReceivedState undefinedShift x).Harmless undefinedShift x := by
  have hle : ¬ window.receivedSequence < x := by grind
  have hhead : (window.updateReceivedState undefinedShift x).receivedSequence =
      window.receivedSequence := receivedSequence_of_not_lt hle
  constructor
  · rw [shiftsInRange_iff, hhead]
    rintro ⟨rfl, -⟩
    grind
  · have hstaleNext : ¬ (window.updateReceivedState undefinedShift x).Stale x := by
      unfold Stale
      rwa [hhead]
    rw [updateReceivedState, if_neg hstaleNext, hhead, if_neg hle]
    rw [updateReceivedState, if_neg hstale, if_neg hle]
    simp only [UInt32.or_assoc, UInt32.or_self]

/-- A repeated arrival is harmless exactly when it was dropped the first time, or was out of
order: an arrival that became the head is the head when it is repeated, and is shifted out of
range. -/
theorem harmlessTwice_iff (window : ReceiveWindow) (x : UInt32) :
    window.HarmlessTwice undefinedShift x ↔ window.Stale x ∨ x < window.receivedSequence := by
  constructor
  · rintro ⟨hfirst, hsecond, -⟩
    by_contra hnot
    obtain ⟨hstale, hge⟩ := not_or.mp hnot
    by_cases hlt : window.receivedSequence < x
    · -- the arrival has become the head
      rw [shiftsInRange_iff, receivedSequence_of_lt hstale hlt] at hsecond
      exact hsecond ⟨rfl, le_toNat_of_lt hstale hlt⟩
    · obtain rfl : x = window.receivedSequence := by grind
      have hhead : ¬ window.receivedSequence.toNat < 32 := fun hsmall =>
        hstale (stale_head_iff.mpr hsmall)
      exact shiftsInRange_iff.mp hfirst ⟨rfl, not_lt.mp hhead⟩
  · intro hcases
    by_cases hstale : window.Stale x
    · have hsame : window.updateReceivedState undefinedShift x = window :=
        updateReceivedState_of_stale hstale
      have hrange : window.ShiftsInRange x := by simp [ShiftsInRange, shiftAmounts, hstale]
      exact ⟨hrange, by rw [hsame]; exact ⟨hrange, hsame⟩⟩
    · have hgt := hcases.resolve_left hstale
      refine ⟨shiftsInRange_iff.mpr ?_, harmless_of_gt hstale hgt⟩
      rintro ⟨rfl, -⟩
      grind

/-! ## Wrap-around -/

/-- The packet `d` numbers ahead of the head becomes the new one exactly when the number
has not wrapped around. -/
theorem becomesHead_iff {window : ReceiveWindow} (hhead : 32 ≤ window.receivedSequence.toNat)
    {d : ℕ} (hpos : 1 ≤ d) (hlt : d < 2 ^ 31) :
    (window.updateReceivedState undefinedShift
        (window.receivedSequence + UInt32.ofNat d)).receivedSequence =
      window.receivedSequence + UInt32.ofNat d ↔
    window.receivedSequence.toNat + d < 2 ^ 32 := by
  have hbound := window.receivedSequence.toNat_lt
  have hoffset : (UInt32.ofNat d).toNat = d := by
    rw [UInt32.toNat_ofNat']
    omega
  have hnumber : (window.receivedSequence + UInt32.ofNat d).toNat =
      (window.receivedSequence.toNat + d) % 2 ^ 32 := by
    rw [UInt32.toNat_add, hoffset]
  by_cases hwrap : window.receivedSequence.toNat + d < 2 ^ 32
  · rw [Nat.mod_eq_of_lt hwrap] at hnumber
    have hahead : window.receivedSequence < window.receivedSequence + UInt32.ofNat d := by
      rw [UInt32.lt_iff_toNat_lt]
      omega
    exact iff_of_true (receivedSequence_of_lt (not_stale_of_lt hhead hahead) hahead) hwrap
  -- a number that has wrapped lies below the head, by less than 2^31 numbers
  · have hbehind : ¬ window.receivedSequence < window.receivedSequence + UInt32.ofNat d := by
      rw [UInt32.lt_iff_toNat_lt]
      omega
    refine iff_of_false (fun hsame => ?_) hwrap
    rw [receivedSequence_of_not_lt hbehind] at hsame
    have hnat := congrArg UInt32.toNat hsame
    omega

end ReceiveWindow

/-! ## Both endpoints -/

section

open ReceiveWindow

variable {Addr : Type} [Platform Addr]

/-- **When acknowledgements are not forgotten.**  From a head of 32 or more, the server's
and the client's `UpdateReceivedState` keep whatever the window acknowledges within reach
of the new head exactly when the arrival does not leave a gap of 2 to 32. -/
theorem evidence_kept_iff (connection : ClientConnection Addr) (client : HktReliableUdpClient Addr)
    (x : UInt32) :
    (32 ≤ connection.receivedSequence.toNat →
      (KeepsEvidence connection.toReceiveWindow (connection.updateReceivedState x).toReceiveWindow ↔
        ¬ (connection.receivedSequence.toNat + 2 ≤ x.toNat ∧
          x.toNat ≤ connection.receivedSequence.toNat + 32))) ∧
    (32 ≤ client.receivedSequence.toNat →
      (KeepsEvidence client.toReceiveWindow (client.updateReceivedState x).toReceiveWindow ↔
        ¬ (client.receivedSequence.toNat + 2 ≤ x.toNat ∧
          x.toNat ≤ client.receivedSequence.toNat + 32))) :=
  ⟨fun hhead => keepsEvidence_iff hhead x, fun hhead => keepsEvidence_iff hhead x⟩

/-- An arrival in order keeps the evidence. -/
theorem evidence_kept_iff_inOrder :
    KeepsEvidence { receivedSequence := 40, receivedAckBitfield := 5 }
        (({ address := ⟨7778⟩, receivedSequence := 40, receivedAckBitfield := 5 } :
          ClientConnection LoopbackAddr).updateReceivedState 41).toReceiveWindow ∧
      KeepsEvidence { receivedSequence := 40, receivedAckBitfield := 5 }
        (({ receivedSequence := 40, receivedAckBitfield := 5 } :
          HktReliableUdpClient LoopbackAddr).updateReceivedState 41).toReceiveWindow := by
  have h := evidence_kept_iff
    ({ address := ⟨7778⟩, receivedSequence := 40, receivedAckBitfield := 5 } :
      ClientConnection LoopbackAddr)
    { receivedSequence := 40, receivedAckBitfield := 5 } 41
  exact ⟨(h.1 (by decide)).mpr (by decide), (h.2 (by decide)).mpr (by decide)⟩

/-- After 40, the arrival of 42 takes the acknowledgement of 40 back. -/
theorem updateReceivedState_forgets :
    ¬ ∀ (connection : ClientConnection LoopbackAddr) (x : UInt32),
      32 ≤ connection.receivedSequence.toNat →
        KeepsEvidence connection.toReceiveWindow
          (connection.updateReceivedState x).toReceiveWindow := by
  intro h
  have hkeeps := h { address := ⟨7778⟩, receivedSequence := 40 } 42 (by decide)
  have hacked : (40 : UInt32) ∈ ackedBy 42 1 :=
    hkeeps 40 (Set.mem_insert _ _) (by decide) (by decide) (by decide)
  exact absurd hacked (by decide)

/-- **When duplicates are harmless.**  The server and the client alike process an arrival
twice without an undefined shift, and to the same effect as once, exactly when the window
drops it as stale or it lies below the head; and after any arrivals they process the
current head again so exactly when it is below 32, where the window is stuck. -/
theorem duplicates_harmless_iff (connection : ClientConnection Addr)
    (client : HktReliableUdpClient Addr) :
    ((∀ x, (connection.ShiftsInRange x ∧ (connection.updateReceivedState x).ShiftsInRange x ∧
          ((connection.updateReceivedState x).updateReceivedState x).toReceiveWindow =
            (connection.updateReceivedState x).toReceiveWindow) ↔
        connection.Stale x ∨ x < connection.receivedSequence) ∧
      ∀ arrivals : List UInt32,
        let after := arrivals.foldl ClientConnection.updateReceivedState connection
        (after.ShiftsInRange after.receivedSequence ∧
          (after.updateReceivedState after.receivedSequence).toReceiveWindow =
            after.toReceiveWindow) ↔ after.receivedSequence.toNat < 32) ∧
    ((∀ x, (client.ShiftsInRange x ∧ (client.updateReceivedState x).ShiftsInRange x ∧
          ((client.updateReceivedState x).updateReceivedState x).toReceiveWindow =
            (client.updateReceivedState x).toReceiveWindow) ↔
        client.Stale x ∨ x < client.receivedSequence) ∧
      ∀ arrivals : List UInt32,
        let after := arrivals.foldl HktReliableUdpClient.updateReceivedState client
        (after.ShiftsInRange after.receivedSequence ∧
          (after.updateReceivedState after.receivedSequence).toReceiveWindow =
            after.toReceiveWindow) ↔ after.receivedSequence.toNat < 32) := by
  constructor
  · constructor
    · exact fun x => harmlessTwice_iff connection.toReceiveWindow x
    · intro arrivals after
      exact harmless_head_iff after.toReceiveWindow
  · constructor
    · exact fun x => harmlessTwice_iff client.toReceiveWindow x
    · intro arrivals after
      exact harmless_head_iff after.toReceiveWindow

/-- After 40 and 41, a second 41 shifts by 2^32 - 1. -/
theorem repeated_head_shifts_out_of_range :
    (({ address := ⟨7778⟩, receivedSequence := 40 } :
        ClientConnection LoopbackAddr).updateReceivedState 41).shiftAmounts 41 = [4294967295] ∧
      ¬ ∀ (connection : ClientConnection LoopbackAddr) (x : UInt32), connection.ShiftsInRange x := by
  have hamounts : (({ address := ⟨7778⟩, receivedSequence := 40 } :
      ClientConnection LoopbackAddr).updateReceivedState 41).shiftAmounts 41 = [4294967295] := by
    decide +kernel
  refine ⟨hamounts, fun h => ?_⟩
  have hrange := h (({ address := ⟨7778⟩, receivedSequence := 40 } :
    ClientConnection LoopbackAddr).updateReceivedState 41) 41 4294967295
  rw [hamounts] at hrange
  exact absurd (hrange (List.mem_singleton_self _)) (by decide)

/-- **When the newest packet becomes the head.**  From a head of 32 or more, the packet
that the sender numbers `d` sends later, for any `d` below 2^31, becomes the new head of
the server's and the client's window exactly when the number has not wrapped around. -/
theorem newest_becomes_head_iff (connection : ClientConnection Addr)
    (client : HktReliableUdpClient Addr) {d : ℕ} (hpos : 1 ≤ d) (hlt : d < 2 ^ 31) :
    (32 ≤ connection.receivedSequence.toNat →
      ((connection.updateReceivedState
          (connection.receivedSequence + UInt32.ofNat d)).receivedSequence =
            connection.receivedSequence + UInt32.ofNat d ↔
        connection.receivedSequence.toNat + d < 2 ^ 32)) ∧
    (32 ≤ client.receivedSequence.toNat →
      ((client.updateReceivedState
          (client.receivedSequence + UInt32.ofNat d)).receivedSequence =
            client.receivedSequence + UInt32.ofNat d ↔
        client.receivedSequence.toNat + d < 2 ^ 32)) :=
  ⟨fun hhead => becomesHead_iff hhead hpos hlt, fun hhead => becomesHead_iff hhead hpos hlt⟩

theorem newest_becomes_head_iff_inRange :
    (({ address := ⟨7778⟩, receivedSequence := 40 } :
        ClientConnection LoopbackAddr).updateReceivedState (40 + UInt32.ofNat 3)).receivedSequence =
        40 + UInt32.ofNat 3 ∧
      (({ receivedSequence := 40 } :
        HktReliableUdpClient LoopbackAddr).updateReceivedState
          (40 + UInt32.ofNat 3)).receivedSequence = 40 + UInt32.ofNat 3 := by
  have h := newest_becomes_head_iff
    ({ address := ⟨7778⟩, receivedSequence := 40 } : ClientConnection LoopbackAddr)
    { receivedSequence := 40 } (d := 3) (by decide) (by decide)
  exact ⟨(h.1 (by decide)).mpr (by decide), (h.2 (by decide)).mpr (by decide)⟩

/-- After number 2^32 - 1 the sender gives out 0, which the receiver drops as too old. -/
theorem wrapped_number_dropped :
    ¬ ∀ (connection : ClientConnection LoopbackAddr) (d : ℕ), 1 ≤ d → d < 2 ^ 31 →
      32 ≤ connection.receivedSequence.toNat →
        (connection.updateReceivedState
          (connection.receivedSequence + UInt32.ofNat d)).receivedSequence =
            connection.receivedSequence + UInt32.ofNat d := by
  intro h
  have hnext := h { address := ⟨7778⟩, receivedSequence := 4294967295 } 1 (by decide) (by decide)
    (by decide)
  exact absurd hnext (by decide +kernel)

end

end HktBase.CustomNet
