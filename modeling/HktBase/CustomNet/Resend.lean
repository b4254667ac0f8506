import Mathlib.Algebra.Order.Ring.Rat
import Mathlib.Data.List.Infix
import HktBase.CustomNet.Reliability

/-!
# One pass of the resend loop

What `CheckForResends` does to one pending map.  The loop visits every entry once,
in the order of the map.  It either reaches the end, and then every overdue entry
was sent again, or it stops at an overdue entry that is out of retries, and then
some of the overdue entries were.  Whether it stops does not depend on the order:
`limitExceeded_resendPending_iff`.

`visit_cases` is the step, and each `foldl_visit` lemma an induction over the keys with one case
for each of its three outcomes.  Since a key comes up once, what a visit leaves under its key
is what the pass leaves there.
-/

namespace HktBase.CustomNet

/-! ## Entries -/

namespace PendingPacket

/-- The entry after another transmission. -/
def resend (packet : PendingPacket) (currentTime : Time) : PendingPacket :=
  { packet with sentTime := currentTime, retries := packet.retries + 1 }

/-- An overdue entry without retries left. -/
def Exhausted (packet : PendingPacket) (currentTime : Time) : Prop :=
  packet.Overdue currentTime ∧ maxRetries ≤ packet.retries

/-- What a pass that does not stop makes of an entry. -/
def afterPass (packet : PendingPacket) (currentTime : Time) : PendingPacket :=
  if packet.Overdue currentTime then packet.resend currentTime else packet

end PendingPacket

/-! ## The loop -/

namespace ResendSweep

variable {currentTime : Time} {sweep : ResendSweep} {sequence : UInt32}

theorem visit_of_limitExceeded (h : sweep.limitExceeded = true) :
    sweep.visit currentTime sequence = sweep := by
  rw [visit, if_pos h]

/-- The three things a visit can do before the loop has stopped. -/
theorem visit_cases (currentTime : Time) (sequence : UInt32) (h : sweep.limitExceeded = false) :
    (sweep.visit currentTime sequence = sweep ∧
        ∀ packet, sweep.pending.find sequence = some packet → ¬ packet.Overdue currentTime) ∨
      (sweep.visit currentTime sequence = { sweep with limitExceeded := true } ∧
        ∃ packet, sweep.pending.find sequence = some packet ∧ packet.Exhausted currentTime) ∨
      ∃ packet, sweep.pending.find sequence = some packet ∧ packet.Overdue currentTime ∧
        packet.retries < maxRetries ∧
        sweep.visit currentTime sequence =
          { sweep with
            pending := sweep.pending.add sequence (packet.resend currentTime)
            resent := sweep.resent ++ [(sequence, packet.packetData)] } := by
  rw [visit, if_neg (by simp [h])]
  cases hfind : sweep.pending.find sequence with
  | none => exact Or.inl ⟨rfl, by simp⟩
  | some packet =>
      dsimp only
      by_cases hoverdue : packet.Overdue currentTime
      · rw [if_pos hoverdue]
        by_cases hretries : packet.retries ≥ maxRetries
        · rw [if_pos hretries]
          exact Or.inr (Or.inl ⟨rfl, packet, rfl, hoverdue, hretries⟩)
        · rw [if_neg hretries]
          exact Or.inr (Or.inr ⟨packet, rfl, hoverdue, not_le.mp hretries, rfl⟩)
      · rw [if_neg hoverdue]
        exact Or.inl ⟨rfl, by simpa using hoverdue⟩

theorem foldl_visit_of_limitExceeded (h : sweep.limitExceeded = true) (keys : List UInt32) :
    keys.foldl (visit currentTime) sweep = sweep := by
  induction keys with
  | nil => rfl
  | cons sequence rest ih => rw [List.foldl_cons, visit_of_limitExceeded h, ih]

/-- A pass over a list of keys stops exactly at an exhausted entry, and otherwise treats each of
the keys.  It is stated for any sweep that has not stopped, since a visit hands a changed one to
the rest of the list. -/
theorem foldl_visit_spec (keys : List UInt32) (hnodup : keys.Nodup)
    (h : sweep.limitExceeded = false) :
    ((keys.foldl (visit currentTime) sweep).limitExceeded = true ↔
      ∃ s ∈ keys, ∃ packet, sweep.pending.find s = some packet ∧
        packet.Exhausted currentTime) ∧
    ((keys.foldl (visit currentTime) sweep).limitExceeded = false → ∀ s,
      (keys.foldl (visit currentTime) sweep).pending.find s =
        if s ∈ keys then (sweep.pending.find s).map fun packet => packet.afterPass currentTime
        else sweep.pending.find s) := by
  induction keys generalizing sweep with
  | nil => simp [h]
  | cons sequence rest ih =>
      obtain ⟨hfresh, hrest⟩ := List.nodup_cons.mp hnodup
      rw [List.foldl_cons]
      rcases visit_cases currentTime sequence h with
        ⟨hvisit, hkeep⟩ | ⟨hvisit, packet, hfind, hexhausted⟩ |
        ⟨packet, hfind, hoverdue, hretries, hvisit⟩
      · -- the entry is absent or not overdue
        rw [hvisit]
        obtain ⟨hlimit, hfinal⟩ := ih hrest h
        have hhead : ¬ ∃ packet, sweep.pending.find sequence = some packet ∧
            packet.Exhausted currentTime := by
          rintro ⟨packet, hfind, hoverdue, -⟩
          exact hkeep packet hfind hoverdue
        refine ⟨by rw [hlimit, List.exists_mem_cons_iff, or_iff_right hhead], ?_⟩
        intro hdone s
        rw [hfinal hdone s]
        by_cases hs : s = sequence
        · subst hs
          rw [if_neg hfresh, if_pos (List.mem_cons_self ..)]
          cases hfind : sweep.pending.find s with
          | none => rfl
          | some packet =>
              rw [Option.map_some, PendingPacket.afterPass, if_neg (hkeep packet hfind)]
        · simp [hs]
      · -- the loop stops here
        rw [hvisit, foldl_visit_of_limitExceeded rfl]
        refine ⟨⟨fun _ => ⟨sequence, List.mem_cons_self .., packet, hfind, hexhausted⟩,
          fun _ => rfl⟩, ?_⟩
        intro hdone
        simp at hdone
      · -- the entry is sent again
        rw [hvisit]
        obtain ⟨hlimit, hfinal⟩ := @ih
          { sweep with
            pending := sweep.pending.add sequence (packet.resend currentTime)
            resent := sweep.resent ++ [(sequence, packet.packetData)] } hrest h
        have hother : ∀ s ∈ rest, (sweep.pending.add sequence (packet.resend currentTime)).find s =
            sweep.pending.find s := by
          intro s hs
          exact SparseMap.find_add_of_ne _ _ fun hsame => hfresh (hsame ▸ hs)
        have hhead : ¬ ∃ packet, sweep.pending.find sequence = some packet ∧
            packet.Exhausted currentTime := by
          rintro ⟨other, hother, -, hge⟩
          obtain rfl := Option.some.inj (hfind.symm.trans hother)
          omega
        refine ⟨?_, ?_⟩
        · rw [hlimit, List.exists_mem_cons_iff, or_iff_right hhead]
          refine exists_congr fun s => and_congr_right fun hs => ?_
          rw [hother s hs]
        · intro hdone s
          rw [hfinal hdone s]
          by_cases hs : s = sequence
          · subst hs
            rw [if_neg hfresh, if_pos (List.mem_cons_self ..), SparseMap.find_add_self, hfind,
              Option.map_some, PendingPacket.afterPass, if_pos hoverdue]
          · rw [SparseMap.find_add_of_ne _ _ hs]
            simp [hs]

/-- However far a pass gets, each entry is as before or was sent once more. -/
theorem foldl_visit_find (keys : List UInt32) (hnodup : keys.Nodup) (sweep : ResendSweep)
    (s : UInt32) :
    (keys.foldl (visit currentTime) sweep).pending.find s = sweep.pending.find s ∨
      (s ∈ keys ∧ ∃ packet, sweep.pending.find s = some packet ∧ packet.Overdue currentTime ∧
        packet.retries < maxRetries ∧
        (keys.foldl (visit currentTime) sweep).pending.find s =
          some (packet.resend currentTime)) := by
  induction keys generalizing sweep with
  | nil => exact Or.inl rfl
  | cons sequence rest ih =>
      obtain ⟨hfresh, hrest⟩ := List.nodup_cons.mp hnodup
      rw [List.foldl_cons]
      cases hlimit : sweep.limitExceeded with
      | true =>
          rw [visit_of_limitExceeded hlimit, foldl_visit_of_limitExceeded hlimit]
          exact Or.inl rfl
      | false =>
          rcases visit_cases currentTime sequence hlimit with
            ⟨hvisit, -⟩ | ⟨hvisit, -⟩ | ⟨packet, hfind, hoverdue, hretries, hvisit⟩
          · rw [hvisit]
            exact (ih hrest sweep).imp id fun h => ⟨List.mem_cons_of_mem _ h.1, h.2⟩
          · rw [hvisit, foldl_visit_of_limitExceeded rfl]
            exact Or.inl rfl
          · rw [hvisit]
            have hstep := ih hrest
              { sweep with
                pending := sweep.pending.add sequence (packet.resend currentTime)
                resent := sweep.resent ++ [(sequence, packet.packetData)] }
            -- the number comes up once, so what this visit leaves is final
            by_cases hs : s = sequence
            · subst hs
              refine Or.inr ⟨List.mem_cons_self .., packet, hfind, hoverdue, hretries, ?_⟩
              rcases hstep with hsame | ⟨hmem, -⟩
              · rw [hsame, SparseMap.find_add_self]
              · exact absurd hmem hfresh
            · simp only [SparseMap.find_add_of_ne _ _ hs] at hstep
              exact hstep.imp id fun h => ⟨List.mem_cons_of_mem _ h.1, h.2⟩

/-- A pass that does not stop sends the overdue entries, in the order of the list. -/
theorem foldl_visit_resent (entries : List (UInt32 × PendingPacket))
    (hnodup : (entries.map Prod.fst).Nodup) (h : sweep.limitExceeded = false)
    (hfind : ∀ entry ∈ entries, sweep.pending.find entry.1 = some entry.2)
    (hdone : ((entries.map Prod.fst).foldl (visit currentTime) sweep).limitExceeded = false) :
    ((entries.map Prod.fst).foldl (visit currentTime) sweep).resent = sweep.resent ++
      (entries.filter fun entry => entry.2.Overdue currentTime).map fun entry =>
        (entry.1, entry.2.packetData) := by
  induction entries generalizing sweep with
  | nil => simp
  | cons entry rest ih =>
      obtain ⟨hfresh, hrest⟩ := List.nodup_cons.mp hnodup
      have hentry := hfind entry (List.mem_cons_self ..)
      have hlater : ∀ other ∈ rest, sweep.pending.find other.1 = some other.2 :=
        fun other hother => hfind other (List.mem_cons_of_mem _ hother)
      rw [List.map_cons, List.foldl_cons] at hdone ⊢
      rcases visit_cases currentTime entry.1 h with
        ⟨hvisit, hkeep⟩ | ⟨hvisit, -⟩ | ⟨packet, hpacket, hoverdue, -, hvisit⟩
      · rw [hvisit] at hdone ⊢
        rw [ih hrest h hlater hdone,
          List.filter_cons_of_neg (by simpa using hkeep entry.2 hentry)]
      · -- the loop would have stopped here
        rw [hvisit, foldl_visit_of_limitExceeded rfl] at hdone
        simp at hdone
      · obtain rfl := Option.some.inj (hentry.symm.trans hpacket)
        rw [hvisit] at hdone ⊢
        -- sending the entry again leaves the entries that are still to be visited
        have hagree : ∀ other ∈ rest,
            (sweep.pending.add entry.1 (entry.2.resend currentTime)).find other.1 =
              some other.2 := by
          intro other hother
          rw [SparseMap.find_add_of_ne, hlater other hother]
          exact fun hsame => hfresh (List.mem_map.mpr ⟨other, hother, hsame⟩)
        have hpass := @ih
          { sweep with
            pending := sweep.pending.add entry.1 (entry.2.resend currentTime)
            resent := sweep.resent ++ [(entry.1, entry.2.packetData)] } hrest h hagree hdone
        rw [hpass, List.filter_cons_of_pos (by simpa using hoverdue), List.map_cons,
          List.append_assoc, List.singleton_append]

/-- What a pass sends are packets of the map it started from. -/
theorem mem_foldl_visit_resent {pending : TMap UInt32 PendingPacket} (sweep : ResendSweep)
    (keys : List UInt32)
    (hpending : ∀ s packet, sweep.pending.find s = some packet →
      ∃ original, pending.find s = some original ∧ original.packetData = packet.packetData)
    (hresent : ∀ sent ∈ sweep.resent,
      ∃ original, pending.find sent.1 = some original ∧ original.packetData = sent.2) :
    ∀ sent ∈ (keys.foldl (visit currentTime) sweep).resent,
      ∃ original, pending.find sent.1 = some original ∧ original.packetData = sent.2 := by
  induction keys generalizing sweep with
  | nil => exact hresent
  | cons sequence rest ih =>
      rw [List.foldl_cons]
      cases hlimit : sweep.limitExceeded with
      | true =>
          rw [visit_of_limitExceeded hlimit]
          exact ih _ hpending hresent
      | false =>
          rcases visit_cases currentTime sequence hlimit with
            ⟨hvisit, -⟩ | ⟨hvisit, -⟩ | ⟨packet, hfind, -, -, hvisit⟩
          · rw [hvisit]
            exact ih _ hpending hresent
          · rw [hvisit]
            exact ih { sweep with limitExceeded := true } hpending hresent
          · rw [hvisit]
            -- the copy has the bytes of the entry, and the entry those of the original
            obtain ⟨original, horiginal, hdata⟩ := hpending sequence packet hfind
            refine ih _ ?_ ?_
            · intro s other hother
              dsimp only at hother
              rw [SparseMap.find_add] at hother
              split at hother
              · next hsame =>
                  obtain rfl := Option.some.inj hother
                  exact ⟨original, hsame ▸ horiginal, hdata⟩
              · exact hpending s other hother
            · intro sent hsent
              rcases List.mem_append.mp hsent with hsent | hsent
              · exact hresent sent hsent
              · obtain rfl := List.mem_singleton.mp hsent
                exact ⟨original, horiginal, hdata⟩

/-- What a loop has sent stays sent. -/
theorem resent_prefix_foldl_visit (keys : List UInt32) (sweep : ResendSweep) :
    sweep.resent <+: (keys.foldl (visit currentTime) sweep).resent := by
  induction keys generalizing sweep with
  | nil => exact List.prefix_refl _
  | cons sequence rest ih =>
      rw [List.foldl_cons]
      apply List.IsPrefix.trans _ (ih _)
      cases hlimit : sweep.limitExceeded with
      | true => rw [visit_of_limitExceeded hlimit]
      | false =>
          rcases visit_cases currentTime sequence hlimit with
            ⟨hvisit, -⟩ | ⟨hvisit, -⟩ | ⟨packet, -, -, -, hvisit⟩
          · rw [hvisit]
          · rw [hvisit]
          · rw [hvisit]
            exact List.prefix_append _ _

/-- The first overdue entry decides whether a pass sends anything: it is sent again, or
the loop stops at it. -/
theorem foldl_visit_resent_eq_nil_iff (entries : List (UInt32 × PendingPacket))
    (h : sweep.limitExceeded = false)
    (hfind : ∀ entry ∈ entries, sweep.pending.find entry.1 = some entry.2) :
    ((entries.map Prod.fst).foldl (visit currentTime) sweep).resent = [] ↔
      sweep.resent = [] ∧
        ∀ entry, entries.find? (fun entry => entry.2.Overdue currentTime) = some entry →
          maxRetries ≤ entry.2.retries := by
  induction entries with
  | nil => simp
  | cons entry rest ih =>
      have hentry := hfind entry (List.mem_cons_self ..)
      rw [List.map_cons, List.foldl_cons]
      rcases visit_cases currentTime entry.1 h with
        ⟨hvisit, hkeep⟩ | ⟨hvisit, packet, hpacket, hoverdue, hretries⟩ |
        ⟨packet, hpacket, hoverdue, hretries, hvisit⟩
      · rw [hvisit, List.find?_cons_of_neg (by simpa using hkeep entry.2 hentry)]
        exact ih fun other hother => hfind other (List.mem_cons_of_mem _ hother)
      · -- the loop stops at its first overdue entry
        obtain rfl := Option.some.inj (hentry.symm.trans hpacket)
        rw [hvisit, foldl_visit_of_limitExceeded rfl,
          List.find?_cons_of_pos (by simpa using hoverdue)]
        simpa using fun _ => hretries
      · obtain rfl := Option.some.inj (hentry.symm.trans hpacket)
        rw [hvisit, List.find?_cons_of_pos (by simpa using hoverdue)]
        apply iff_of_false
        · intro hnil
          have hsent := @resent_prefix_foldl_visit currentTime (rest.map Prod.fst)
            { sweep with
              pending := sweep.pending.add entry.1 (entry.2.resend currentTime)
              resent := sweep.resent ++ [(entry.1, entry.2.packetData)] }
          rw [hnil, List.prefix_nil] at hsent
          simp at hsent
        · intro hnone
          have hge := hnone.2 entry rfl
          omega

end ResendSweep

/-! ## The pass over a pending map -/

variable (currentTime : Time) (pending : TMap UInt32 PendingPacket)

/-- The pass stops exactly when some entry is overdue and out of retries. -/
theorem limitExceeded_resendPending_iff :
    (resendPending currentTime pending).limitExceeded = true ↔
      ∃ s packet, pending.find s = some packet ∧ packet.Exhausted currentTime := by
  unfold resendPending
  rw [(ResendSweep.foldl_visit_spec pending.keys pending.nodup_keys rfl).1]
  constructor
  · rintro ⟨s, -, packet, hfind, hexhausted⟩
    exact ⟨s, packet, hfind, hexhausted⟩
  · rintro ⟨s, packet, hfind, hexhausted⟩
    exact ⟨s, SparseMap.mem_keys.mpr ⟨packet, hfind⟩, packet, hfind, hexhausted⟩

/-- A pass that does not stop sends every overdue entry once more. -/
theorem find_resendPending_of_not_limitExceeded
    (h : (resendPending currentTime pending).limitExceeded = false) (s : UInt32) :
    (resendPending currentTime pending).pending.find s =
      (pending.find s).map fun packet => packet.afterPass currentTime := by
  unfold resendPending at h ⊢
  rw [(ResendSweep.foldl_visit_spec pending.keys pending.nodup_keys rfl).2 h s]
  split
  · rfl
  · next hmem =>
      have hnone : pending.find s = none :=
        Option.eq_none_iff_forall_ne_some.mpr fun packet hfind =>
          hmem (SparseMap.mem_keys.mpr ⟨packet, hfind⟩)
      simp [hnone]

/-- A pass that does not stop sends each overdue entry once, and no other one. -/
theorem resent_resendPending_of_not_limitExceeded
    (h : (resendPending currentTime pending).limitExceeded = false) :
    (resendPending currentTime pending).resent =
      (pending.entries.filter fun entry => entry.2.Overdue currentTime).map fun entry =>
        (entry.1, entry.2.packetData) := by
  have hresent := @ResendSweep.foldl_visit_resent currentTime { pending := pending } pending.entries
    pending.nodup_keys rfl (fun entry hentry => SparseMap.find_eq_some_iff.mpr hentry) h
  rwa [List.nil_append] at hresent

/-- A pass sends nothing exactly when the first overdue entry is out of retries, or there
is none. -/
theorem resent_resendPending_eq_nil_iff :
    (resendPending currentTime pending).resent = [] ↔
      ∀ entry, pending.entries.find? (fun entry => entry.2.Overdue currentTime) = some entry →
        maxRetries ≤ entry.2.retries := by
  have hpass := @ResendSweep.foldl_visit_resent_eq_nil_iff currentTime { pending := pending }
    pending.entries rfl fun entry hentry => SparseMap.find_eq_some_iff.mpr hentry
  rwa [and_iff_right rfl] at hpass

/-- However far the pass gets, an entry is as before or was sent once more. -/
theorem find_resendPending (s : UInt32) :
    (resendPending currentTime pending).pending.find s = pending.find s ∨
      ∃ packet, pending.find s = some packet ∧ packet.Overdue currentTime ∧
        packet.retries < maxRetries ∧
        (resendPending currentTime pending).pending.find s = some (packet.resend currentTime) :=
  (ResendSweep.foldl_visit_find pending.keys pending.nodup_keys { pending := pending } s).imp id
    And.right

theorem mem_resent_resendPending {sent : UInt32 × Bytes}
    (hsent : sent ∈ (resendPending currentTime pending).resent) :
    ∃ packet, pending.find sent.1 = some packet ∧ packet.packetData = sent.2 :=
  ResendSweep.mem_foldl_visit_resent { pending := pending } pending.keys
    (fun _ packet hfind => ⟨packet, hfind, rfl⟩) (by simp) sent hsent

theorem packetData_of_find_resendPending {s : UInt32} {packet : PendingPacket}
    (hfind : (resendPending currentTime pending).pending.find s = some packet) :
    ∃ original, pending.find s = some original ∧ original.packetData = packet.packetData := by
  rcases find_resendPending currentTime pending s with hsame | ⟨original, horiginal, -, -, hresent⟩
  · exact ⟨packet, hsame ▸ hfind, rfl⟩
  · obtain rfl := Option.some.inj (hresent.symm.trans hfind)
    exact ⟨original, horiginal, rfl⟩

theorem contains_resendPending (s : UInt32) :
    (resendPending currentTime pending).pending.contains s = pending.contains s := by
  unfold SparseMap.contains
  rcases find_resendPending currentTime pending s with hsame | ⟨packet, hfind, -, -, hresent⟩
  · rw [hsame]
  · rw [hfind, hresent]
    rfl

end HktBase.CustomNet
