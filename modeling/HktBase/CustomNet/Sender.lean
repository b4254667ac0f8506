import Mathlib.Data.List.Chain
import HktBase.CustomNet.Pending
import HktBase.CustomNet.Resend

/-!
# The sender of data packets

Both endpoints number, keep and resend data packets in the same way, each on its own
fields.  A `Sender` is what they have in common: the counter, the pending packets and a
log of the datagrams with the lines that name them.  `SenderStep` lists what it does.

`Retransmits s` collects what holds of one sequence number in every state of a sender.
Its invariant `TracksNumber` relates the transmissions in the log to the entry of the
number: while the entry is there, it holds the bytes of every transmission, its clock is
not behind the last one and its retries count all but the first.

The lemmas follow the five kinds of step: `TracksNumber.send`, `TracksNumber.resend`,
`TracksNumber.processAck`, `TracksNumber.append` for lines about other numbers, and a removal
that has no line.  `SenderTracks` adds the counter, and with it the assumption of fewer than
2^32 sends: a number that is given out is fresh, which `TracksNumber.send` needs.
-/

namespace HktBase.CustomNet

open Relation Transition

/-! ## Logs of a sender -/

/-- A line of the log of a sender. -/
inductive Note
  | datagram (packetData : Bytes)
  | sentData (sequence : UInt32) (sentTime : Time)
  | resent (sequence : UInt32) (sentTime : Time)
  | processAck (header : PacketHeader)
  /-- Anything that does not concern the sender. -/
  | unrelated
  deriving DecidableEq

/-- The line is no Data datagram and names no packet. -/
def Note.IsQuiet : Note → Prop
  | .datagram packetData => ∀ s, ¬ IsDataPacket s packetData
  | .unrelated => True
  | _ => False

/-- The sequence numbers given out, in order. -/
def sentNumbers (log : List Note) : List UInt32 :=
  log.filterMap fun
    | .sentData sequence _ => some sequence
    | _ => none

/-- The Data datagrams with the number `s`. -/
def dataDatagrams (s : UInt32) (log : List Note) : List Bytes :=
  log.filterMap fun
    | .datagram packetData => if IsDataPacket s packetData then some packetData else none
    | _ => none

/-- One line of the log, after a datagram that waits for the line that names it. -/
def transmit (s : UInt32) (found : Option Bytes × List (Time × Bytes)) :
    Note → Option Bytes × List (Time × Bytes)
  | .datagram packetData => (some packetData, found.2)
  | .sentData sequence sentTime | .resent sequence sentTime =>
      (none, found.2 ++
        if sequence = s then found.1.toList.map fun packetData => (sentTime, packetData) else [])
  | _ => (none, found.2)

/-- The transmissions of the packet `s`: the datagrams that the next line names as its
own, with the clock reading of that line. -/
def transmissions (s : UInt32) (log : List Note) : List (Time × Bytes) :=
  (log.foldl (transmit s) (none, [])).2

/-- The number `s` was given out, and a header that acknowledges it was processed since. -/
def AckedSinceSent (s : UInt32) (log : List Note) : Prop :=
  s ∈ sentNumbers log ∧
    Outstanding (fun note => ∃ header, note = .processAck header ∧ s ∈ header.acks)
      (fun note => ∃ sentTime, note = .sentData s sentTime) log

/-- No Data datagram with the number follows an acknowledgement of it. -/
def SilentOnceAcked (s : UInt32) (before : List Note) (note : Note) : Prop :=
  ∀ packetData, note = .datagram packetData → IsDataPacket s packetData → ¬ AckedSinceSent s before

/-- What holds of the transmissions of one packet. -/
structure Retransmits (s : UInt32) (log : List Note) : Prop where
  /-- Every Data datagram with the number is a transmission of the packet. -/
  timed : dataDatagrams s log = (transmissions s log).map Prod.snd
  identical : ∃ packetData, ∀ datagram ∈ dataDatagrams s log, datagram = packetData
  one_call : dataDatagrams s log ≠ [] → (sentNumbers log).count s = 1
  length_le : (dataDatagrams s log).length ≤ 1 + maxRetries
  spaced : (transmissions s log).IsChain fun first second =>
    second.1 - first.1 > resendTimeout
  acked : Historically (SilentOnceAcked s) log

/-! ## Steps -/

structure Sender where
  sentSequence : UInt32 := 0
  pendingAckPackets : TMap UInt32 PendingPacket := ∅
  log : List Note := []

/-- What a sender does. -/
inductive SenderStep : Sender → Sender → Prop
  | quiet {sender : Sender} (note : Note) : note.IsQuiet →
      SenderStep sender { sender with log := sender.log ++ [note] }
  | processAck {sender : Sender} (header : PacketHeader) :
      SenderStep sender
        { sender with
          pendingAckPackets := processAck header sender.pendingAckPackets
          log := sender.log ++ [.processAck header] }
  | send {sender : Sender} (packetData : Bytes) (now : Time) :
      IsDataPacket (sender.sentSequence + 1) packetData →
      SenderStep sender
        { sentSequence := sender.sentSequence + 1
          pendingAckPackets := sender.pendingAckPackets.add (sender.sentSequence + 1)
            { packetData := packetData, sentTime := now }
          log := sender.log ++ [.datagram packetData, .sentData (sender.sentSequence + 1) now] }
  /-- `toSocket` is whether the socket is there to send the packet. -/
  | resend {sender : Sender} {s : UInt32} {packet : PendingPacket} (now : Time)
      (toSocket : Bool) :
      sender.pendingAckPackets.find s = some packet → packet.Overdue now →
      packet.retries < maxRetries →
      SenderStep sender
        { sender with
          pendingAckPackets := sender.pendingAckPackets.add s (packet.resend now)
          log := sender.log ++
            [if toSocket then .datagram packet.packetData else .unrelated, .resent s now] }

/-- A chain of steps. -/
abbrev SenderSteps : Sender → Sender → Prop :=
  ReflTransGen SenderStep

/-- Any number of lines that do not concern the sender. -/
theorem senderSteps_quiet (sender : Sender) {notes : List Note}
    (hnotes : ∀ note ∈ notes, note.IsQuiet) :
    SenderSteps sender { sender with log := sender.log ++ notes } := by
  induction notes using List.reverseRecOn with
  | nil => rw [List.append_nil]
  | append_singleton before note ih =>
      have hbefore := ih fun other hother => hnotes other (by simp [hother])
      have hlast : SenderStep { sender with log := sender.log ++ before } _ :=
        .quiet note (hnotes note (by simp))
      rw [← List.append_assoc]
      exact hbefore.tail hlast

/-- The lines that the loop of `CheckForResends` leaves. -/
def resendNotes (now : Time) (toSocket : Bool) (resent : List (UInt32 × Bytes)) : List Note :=
  resent.flatMap fun packet =>
    [if toSocket then .datagram packet.2 else .unrelated, .resent packet.1 now]

/-- The loop of `CheckForResends` is a chain of steps.  The chain is for any list of keys and
any state of the sweep, so that the induction can start behind an overwritten packet. -/
theorem senderSteps_resendPending (sender : Sender) (now : Time) (toSocket : Bool) :
    SenderSteps sender
      { sender with
        pendingAckPackets := (resendPending now sender.pendingAckPackets).pending
        log := sender.log ++
          resendNotes now toSocket (resendPending now sender.pendingAckPackets).resent } := by
  suffices hloop : ∀ (keys : List UInt32) (sweep : ResendSweep),
      SenderSteps
        { sender with
          pendingAckPackets := sweep.pending
          log := sender.log ++ resendNotes now toSocket sweep.resent }
        { sender with
          pendingAckPackets := (keys.foldl (ResendSweep.visit now) sweep).pending
          log := sender.log ++
            resendNotes now toSocket (keys.foldl (ResendSweep.visit now) sweep).resent } by
    have hstart := hloop sender.pendingAckPackets.keys { pending := sender.pendingAckPackets }
    simp only [resendNotes, List.flatMap_nil, List.append_nil] at hstart
    exact hstart
  intro keys
  induction keys with
  | nil => exact fun sweep => .refl
  | cons s rest ih =>
      intro sweep
      rw [List.foldl_cons]
      refine ReflTransGen.trans ?_ (ih (sweep.visit now s))
      cases hlimit : sweep.limitExceeded with
      | true => rw [ResendSweep.visit_of_limitExceeded hlimit]
      | false =>
          rcases ResendSweep.visit_cases now s hlimit with
            ⟨hvisit, -⟩ | ⟨hvisit, -⟩ | ⟨packet, hfind, hoverdue, hretries, hvisit⟩
          · rw [hvisit]
          · rw [hvisit]
          · rw [hvisit]
            have hstep : SenderStep
                { sender with
                  pendingAckPackets := sweep.pending
                  log := sender.log ++ resendNotes now toSocket sweep.resent } _ :=
              .resend now toSocket hfind hoverdue hretries
            convert ReflTransGen.single hstep using 1
            simp [resendNotes]

/-! ## One line more -/

section

variable {s : UInt32} {log : List Note}

theorem transmissions_append (s : UInt32) (log notes : List Note) :
    transmissions s (log ++ notes) =
      (notes.foldl (transmit s) (log.foldl (transmit s) (none, []))).2 := by
  rw [transmissions, List.foldl_append]

/-- A line that names no packet adds no transmission. -/
theorem transmissions_concat_of_isQuiet {note : Note}
    (hnote : note.IsQuiet ∨ ∃ header, note = .processAck header) :
    transmissions s (log ++ [note]) = transmissions s log := by
  rw [transmissions_append]
  rcases hnote with hquiet | ⟨header, rfl⟩
  · cases note with
    | datagram _ => rfl
    | unrelated => rfl
    | _ => exact absurd hquiet id
  · rfl

theorem transmissions_sentData (s : UInt32) (log : List Note) (packetData : Bytes)
    (sequence : UInt32) (sentTime : Time) :
    transmissions s (log ++ [.datagram packetData, .sentData sequence sentTime]) =
      transmissions s log ++ if sequence = s then [(sentTime, packetData)] else [] := by
  rw [transmissions_append]
  rfl

theorem transmissions_resent (s : UInt32) (log : List Note) (toSocket : Bool)
    (packetData : Bytes) (sequence : UInt32) (sentTime : Time) :
    transmissions s (log ++
        [if toSocket then .datagram packetData else .unrelated, .resent sequence sentTime]) =
      transmissions s log ++
        if toSocket = true ∧ sequence = s then [(sentTime, packetData)] else [] := by
  rw [transmissions_append]
  cases toSocket with
  | true =>
      simp only [true_and]
      rfl
  | false =>
      simp only [Bool.false_eq_true, false_and, if_false, List.foldl_cons, List.foldl_nil, transmit,
        Option.toList_none, List.map_nil, ite_self, List.append_nil]
      rfl

theorem dataDatagrams_append (s : UInt32) (log notes : List Note) :
    dataDatagrams s (log ++ notes) = dataDatagrams s log ++ dataDatagrams s notes :=
  List.filterMap_append

theorem dataDatagrams_eq_nil {notes : List Note}
    (hnotes : ∀ packetData, .datagram packetData ∈ notes → ¬ IsDataPacket s packetData) :
    dataDatagrams s notes = [] := by
  refine List.filterMap_eq_nil_iff.mpr fun note hnote => ?_
  cases note with
  | datagram packetData => exact if_neg (hnotes packetData hnote)
  | _ => rfl

theorem sentNumbers_append (log notes : List Note) :
    sentNumbers (log ++ notes) = sentNumbers log ++ sentNumbers notes :=
  List.filterMap_append

/-- Lines that neither give out the number nor acknowledge it do not change whether it has been
acknowledged since it was last sent. -/
theorem ackedSinceSent_append {notes : List Note}
    (hsent : ∀ sentTime, .sentData s sentTime ∉ notes)
    (hacks : ∀ header, .processAck header ∈ notes → s ∉ header.acks) :
    AckedSinceSent s (log ++ notes) ↔ AckedSinceSent s log := by
  induction notes using List.reverseRecOn with
  | nil => rw [List.append_nil]
  | append_singleton before note ih =>
      have hbefore := ih (fun sentTime hmem => hsent sentTime (by simp [hmem]))
        fun header hmem => hacks header (by simp [hmem])
      have hnumbers : s ∈ sentNumbers (log ++ (before ++ [note])) ↔
          s ∈ sentNumbers (log ++ before) := by
        rw [← List.append_assoc, sentNumbers_append, List.mem_append]
        refine or_iff_left fun hmem => ?_
        -- a line that gives out the number would be one of those added
        obtain ⟨line, hline, hnumber⟩ := List.mem_filterMap.mp hmem
        obtain rfl := List.mem_singleton.mp hline
        cases line with
        | sentData sequence sentTime =>
            obtain rfl := Option.some.inj hnumber
            exact hsent sentTime (by simp)
        | _ => simp at hnumber
      rw [← hbefore, AckedSinceSent, AckedSinceSent, hnumbers, ← List.append_assoc,
        outstanding_concat]
      refine and_congr_right fun _ => ?_
      have hnotack : ¬ ∃ header, note = .processAck header ∧ s ∈ header.acks := by
        rintro ⟨header, rfl, hmem⟩
        exact hacks header (by simp) hmem
      have hnotsent : ¬ ∃ sentTime, note = .sentData s sentTime := by
        rintro ⟨sentTime, rfl⟩
        exact hsent sentTime (by simp)
      rw [or_iff_right hnotack, and_iff_left hnotsent]

theorem not_ackedSinceSent_sentData (s : UInt32) (log : List Note) (sentTime : Time) :
    ¬ AckedSinceSent s (log ++ [.sentData s sentTime]) := by
  rintro ⟨-, houtstanding⟩
  rcases outstanding_concat.mp houtstanding with ⟨header, hnote, -⟩ | ⟨-, hclosed⟩
  · simp at hnote
  · exact hclosed ⟨sentTime, rfl⟩

end

/-! ## The invariant of one number -/

/-- A pending packet accounts for the transmissions of its number. -/
structure Accounts (s : UInt32) (log : List Note) (packet : PendingPacket) : Prop where
  isDataPacket : IsDataPacket s packet.packetData
  retries_le : packet.retries ≤ maxRetries
  identical : ∀ transmission ∈ transmissions s log, transmission.2 = packet.packetData
  length_le : (transmissions s log).length ≤ 1 + packet.retries
  not_behind : ∀ transmission ∈ transmissions s log, transmission.1 ≤ packet.sentTime
  notAcked : ¬ AckedSinceSent s log

theorem PendingPacket.sentTime_le_of_overdue {packet : PendingPacket} {now : Time}
    (hoverdue : packet.Overdue now) : packet.sentTime ≤ now := by
  have htimeout : (0 : Time) ≤ resendTimeout := by decide +kernel
  exact sub_nonneg.mp (htimeout.trans hoverdue.le)

/-- A packet that is sent again, or that would be if there were a socket, accounts for it: one
more retry, at most one more transmission, and a clock that is not behind any of them. -/
theorem Accounts.resend {s : UInt32} {log : List Note} {packet : PendingPacket}
    (h : Accounts s log packet) {now : Time} (toSocket : Bool) (hoverdue : packet.Overdue now)
    (hretries : packet.retries < maxRetries) :
    Accounts s
      (log ++ [if toSocket then .datagram packet.packetData else .unrelated, .resent s now])
      (packet.resend now) := by
  have htransmissions := transmissions_resent s log toSocket packet.packetData s now
  have hcases : ∀ transmission ∈ transmissions s
      (log ++ [if toSocket then .datagram packet.packetData else .unrelated, .resent s now]),
      transmission ∈ transmissions s log ∨ transmission = (now, packet.packetData) := by
    intro transmission hmem
    rw [htransmissions] at hmem
    rcases List.mem_append.mp hmem with hold | hnew
    · exact Or.inl hold
    · split at hnew
      · exact Or.inr (List.mem_singleton.mp hnew)
      · simp at hnew
  refine ⟨h.isDataPacket, hretries, fun transmission hmem => ?_, ?_, fun transmission hmem => ?_, ?_⟩
  · rcases hcases transmission hmem with hold | rfl
    · exact h.identical transmission hold
    · rfl
  · have hone : (if toSocket = true ∧ s = s then [(now, packet.packetData)] else []).length ≤ 1 := by
      split <;> simp
    have hle := h.length_le
    have hcount : (packet.resend now).retries = packet.retries + 1 := rfl
    rw [htransmissions, List.length_append, hcount]
    omega
  · rcases hcases transmission hmem with hold | rfl
    · exact (h.not_behind transmission hold).trans (PendingPacket.sentTime_le_of_overdue hoverdue)
    · exact le_refl now
  · rw [ackedSinceSent_append]
    · exact h.notAcked
    · cases toSocket <;> simp
    · cases toSocket <;> simp

theorem silentOnceAcked_concat {s : UInt32} {log : List Note}
    (h : Historically (SilentOnceAcked s) log) (hacked : ¬ AckedSinceSent s log)
    (packetData : Bytes) {note : Note} (hnote : ∀ other, note ≠ .datagram other) :
    Historically (SilentOnceAcked s) (log ++ [.datagram packetData, note]) := by
  rw [List.append_cons]
  refine historically_concat.mpr ⟨historically_concat.mpr ⟨h, ?_⟩, ?_⟩
  · exact fun _ _ _ => hacked
  · exact fun other hother => absurd hother (hnote other)

/-- The log of a number and its entry among the pending packets. -/
structure TracksNumber (s : UInt32) (log : List Note) (entry : Option PendingPacket) : Prop where
  timed : dataDatagrams s log = (transmissions s log).map Prod.snd
  numbered : transmissions s log ≠ [] ∨ entry.isSome → s ∈ sentNumbers log
  identical : ∃ packetData, ∀ transmission ∈ transmissions s log, transmission.2 = packetData
  length_le : (transmissions s log).length ≤ 1 + maxRetries
  spaced : (transmissions s log).IsChain fun first second =>
    second.1 - first.1 > resendTimeout
  acked : Historically (SilentOnceAcked s) log
  accounts : ∀ packet, entry = some packet → Accounts s log packet

namespace TracksNumber

variable {s : UInt32} {log : List Note} {entry : Option PendingPacket}

theorem nil (s : UInt32) : TracksNumber s [] none where
  timed := rfl
  numbered := by simp [transmissions]
  identical := ⟨[], by simp [transmissions]⟩
  length_le := by simp [transmissions]
  spaced := .nil
  acked := historically_nil _
  accounts := by simp

/-- Lines that are no transmission of the number and do not acknowledge it. -/
theorem append (h : TracksNumber s log entry) {notes : List Note}
    (htransmissions : transmissions s (log ++ notes) = transmissions s log)
    (hdatagrams : ∀ packetData, .datagram packetData ∈ notes → ¬ IsDataPacket s packetData)
    (hsent : ∀ sentTime, .sentData s sentTime ∉ notes)
    (hacks : ∀ header, .processAck header ∈ notes → s ∉ header.acks) :
    TracksNumber s (log ++ notes) entry where
  timed := by
    rw [htransmissions, dataDatagrams_append, dataDatagrams_eq_nil hdatagrams, List.append_nil]
    exact h.timed
  numbered := by
    rw [htransmissions, sentNumbers_append]
    exact fun hsome => List.mem_append_left _ (h.numbered hsome)
  identical := by rw [htransmissions]; exact h.identical
  length_le := by rw [htransmissions]; exact h.length_le
  spaced := by rw [htransmissions]; exact h.spaced
  acked := by
    refine historically_append.mpr ⟨h.acked, fun before note later hnotes packetData hnote => ?_⟩
    exact fun hdata => absurd hdata (hdatagrams packetData (by simp [hnotes, hnote]))
  accounts := by
    intro packet hentry
    have hpacket := h.accounts packet hentry
    refine ⟨hpacket.isDataPacket, hpacket.retries_le, ?_, ?_, ?_, ?_⟩
    · rw [htransmissions]; exact hpacket.identical
    · rw [htransmissions]; exact hpacket.length_le
    · rw [htransmissions]; exact hpacket.not_behind
    · rw [ackedSinceSent_append hsent hacks]; exact hpacket.notAcked

theorem quiet (h : TracksNumber s log entry) {note : Note} (hnote : note.IsQuiet) :
    TracksNumber s (log ++ [note]) entry := by
  apply h.append (transmissions_concat_of_isQuiet (Or.inl hnote))
  · intro packetData hmem
    obtain rfl := List.mem_singleton.mp hmem
    exact hnote s
  · intro sentTime hmem
    obtain rfl := List.mem_singleton.mp hmem
    exact hnote
  · intro header hmem
    obtain rfl := List.mem_singleton.mp hmem
    exact hnote.elim

/-- A header that acknowledges the number takes its entry, any other one leaves it. -/
theorem processAck (h : TracksNumber s log entry) (header : PacketHeader) :
    TracksNumber s (log ++ [.processAck header]) (if s ∈ header.acks then none else entry) := by
  have hsame : transmissions s (log ++ [.processAck header]) = transmissions s log :=
    transmissions_concat_of_isQuiet (Or.inr ⟨header, rfl⟩)
  split
  · refine ⟨?_, ?_, ?_, ?_, ?_, ?_, by simp⟩
    · rw [hsame, dataDatagrams_append, show dataDatagrams s [.processAck header] = [] from rfl,
        List.append_nil]
      exact h.timed
    · rw [hsame, sentNumbers_append]
      intro hsome
      exact List.mem_append_left _ (h.numbered (hsome.imp id (by simp)))
    · rw [hsame]; exact h.identical
    · rw [hsame]; exact h.length_le
    · rw [hsame]; exact h.spaced
    · exact historically_concat.mpr ⟨h.acked, fun packetData hnote => by simp at hnote⟩
  · next hacks =>
      apply h.append hsame
      · simp
      · simp
      · intro other hmem
        obtain rfl : other = header := by simpa using hmem
        exact hacks

/-- `SendTo` or `SendPacket` gives out the number. -/
theorem send (h : TracksNumber s log entry) (hfresh : s ∉ sentNumbers log) {packetData : Bytes}
    (hdata : IsDataPacket s packetData) (now : Time) :
    TracksNumber s (log ++ [.datagram packetData, .sentData s now])
      (some { packetData := packetData, sentTime := now }) := by
  have hnone : transmissions s log = [] := by
    by_contra hsome
    exact hfresh (h.numbered (Or.inl hsome))
  have hfirst : transmissions s (log ++ [.datagram packetData, .sentData s now]) =
      [(now, packetData)] := by
    rw [transmissions_sentData, hnone, if_pos rfl, List.nil_append]
  refine ⟨?_, ?_, ?_, ?_, ?_, ?_, ?_⟩
  · rw [hfirst, dataDatagrams_append, h.timed, hnone]
    simp [dataDatagrams, hdata]
  · intro _
    simp [sentNumbers]
  · rw [hfirst]
    exact ⟨packetData, by simp⟩
  · rw [hfirst]
    exact Nat.le_add_right 1 maxRetries
  · rw [hfirst]
    exact .singleton _
  · exact silentOnceAcked_concat h.acked (fun hacked => hfresh hacked.1) _ (by simp)
  · intro packet hpacket
    obtain rfl := Option.some.inj hpacket
    refine ⟨hdata, Nat.zero_le _, ?_, ?_, ?_, ?_⟩
    · rw [hfirst]; simp
    · rw [hfirst]; simp
    · rw [hfirst]; simp
    · rw [List.append_cons]
      exact not_ackedSinceSent_sentData s _ now

/-- The loop of `CheckForResends` sends the packet of the number again. -/
theorem resend {packet : PendingPacket} (h : TracksNumber s log (some packet)) {now : Time}
    (toSocket : Bool) (hoverdue : packet.Overdue now) (hretries : packet.retries < maxRetries) :
    TracksNumber s
      (log ++ [if toSocket then .datagram packet.packetData else .unrelated, .resent s now])
      (some (packet.resend now)) := by
  have hpacket := h.accounts packet rfl
  have hafter := hpacket.resend toSocket hoverdue hretries
  cases toSocket with
  -- without a socket nothing is transmitted: the retry is counted all the same
  | false =>
      have hsame := transmissions_resent s log false packet.packetData s now
      simp only [Bool.false_eq_true, false_and, if_false, List.append_nil] at hsame hafter ⊢
      have hkept := h.append hsame (by simp) (by simp) (by simp)
      refine ⟨hkept.timed, hkept.numbered, hkept.identical, hkept.length_le, hkept.spaced,
        hkept.acked, fun other hother => ?_⟩
      obtain rfl := Option.some.inj hother
      exact hafter
  | true =>
      have hmore := transmissions_resent s log true packet.packetData s now
      simp only [if_true, and_self] at hmore hafter ⊢
      refine ⟨?_, ?_, ?_, ?_, ?_, ?_, ?_⟩
      · rw [hmore, dataDatagrams_append, h.timed, List.map_append]
        simp [dataDatagrams, hpacket.isDataPacket]
      · intro _
        rw [sentNumbers_append]
        exact List.mem_append_left _ (h.numbered (Or.inr rfl))
      · exact ⟨packet.packetData, hafter.identical⟩
      · calc (transmissions s (log ++ [.datagram packet.packetData, .resent s now])).length
            ≤ 1 + (packet.retries + 1) := hafter.length_le
          _ ≤ 1 + maxRetries := by omega
      -- the last transmission is not after the clock, which is overdue
      · rw [hmore]
        refine List.isChain_append.mpr ⟨h.spaced, .singleton _, ?_⟩
        intro last hlast next hnext
        obtain rfl : (now, packet.packetData) = next := by simpa using hnext
        have hbehind := hpacket.not_behind last (List.mem_of_getLast? hlast)
        calc resendTimeout < now - packet.sentTime := hoverdue
          _ ≤ now - last.1 := sub_le_sub_left hbehind now
      · exact silentOnceAcked_concat h.acked hpacket.notAcked _ (by simp)
      · intro other hother
        obtain rfl := Option.some.inj hother
        exact hafter

end TracksNumber

/-! ## The invariant of a sender -/

/-- The numbers are given out in order, and each of them is accounted for. -/
structure SenderTracks (sender : Sender) : Prop where
  numbers : sentNumbers sender.log = sequencesUpTo (sentNumbers sender.log).length
  sentSequence_eq : sender.sentSequence = UInt32.ofNat (sentNumbers sender.log).length
  tracks : ∀ s, TracksNumber s sender.log (sender.pendingAckPackets.find s)

namespace SenderTracks

variable {sender : Sender}

theorem init : SenderTracks {} where
  numbers := rfl
  sentSequence_eq := rfl
  tracks s := .nil s

/-- Lines that give out no number leave the numbering as it is. -/
theorem of_tracks (h : SenderTracks sender) {pending : TMap UInt32 PendingPacket}
    {notes : List Note} (hnumbers : sentNumbers notes = [])
    (htracks : ∀ s, TracksNumber s (sender.log ++ notes) (pending.find s)) :
    SenderTracks { sender with pendingAckPackets := pending, log := sender.log ++ notes } where
  numbers := by
    rw [sentNumbers_append, hnumbers, List.append_nil]
    exact h.numbers
  sentSequence_eq := by
    rw [sentNumbers_append, hnumbers, List.append_nil]
    exact h.sentSequence_eq
  tracks := htracks

theorem send (h : SenderTracks sender) {packetData : Bytes}
    (hcount : (sentNumbers sender.log).length + 1 < 2 ^ 32)
    (hdata : IsDataPacket (sender.sentSequence + 1) packetData) (now : Time) :
    SenderTracks
      { sentSequence := sender.sentSequence + 1
        pendingAckPackets := sender.pendingAckPackets.add (sender.sentSequence + 1)
          { packetData := packetData, sentTime := now }
        log := sender.log ++ [.datagram packetData, .sentData (sender.sentSequence + 1) now] } := by
  have hnumber : sender.sentSequence + 1 =
      UInt32.ofNat ((sentNumbers sender.log).length + 1) := by
    rw [h.sentSequence_eq, UInt32.ofNat_add]
    rfl
  have hnumbers : sentNumbers
      (sender.log ++ [.datagram packetData, .sentData (sender.sentSequence + 1) now]) =
      sentNumbers sender.log ++ [sender.sentSequence + 1] := by
    rw [sentNumbers_append]
    rfl
  have hall : sentNumbers sender.log ++ [sender.sentSequence + 1] =
      sequencesUpTo ((sentNumbers sender.log).length + 1) := by
    rw [sequencesUpTo_succ, hnumber, ← h.numbers]
  -- fewer than 2^32 numbers do not repeat
  have hfresh : sender.sentSequence + 1 ∉ sentNumbers sender.log := by
    have hnodup := nodup_sequencesUpTo hcount
    rw [← hall] at hnodup
    exact fun hmem => List.disjoint_of_nodup_append hnodup hmem (List.mem_singleton_self _)
  refine ⟨?_, ?_, fun s => ?_⟩
  · rw [hnumbers, List.length_append, List.length_singleton]
    exact hall
  · rw [hnumbers, List.length_append, List.length_singleton]
    exact hnumber
  · by_cases hs : s = sender.sentSequence + 1
    · subst hs
      rw [SparseMap.find_add_self]
      exact (h.tracks _).send hfresh hdata now
    · rw [SparseMap.find_add_of_ne _ _ hs]
      apply (h.tracks s).append
      · rw [transmissions_sentData, if_neg (Ne.symm hs), List.append_nil]
      · intro other hmem hother
        obtain rfl : other = packetData := by simpa using hmem
        exact hs (hother.2.2.symm.trans hdata.2.2)
      · simp [hs]
      · simp

theorem resend (h : SenderTracks sender) {sequence : UInt32} {packet : PendingPacket}
    (hfind : sender.pendingAckPackets.find sequence = some packet) {now : Time} (toSocket : Bool)
    (hoverdue : packet.Overdue now) (hretries : packet.retries < maxRetries) :
    SenderTracks
      { sender with
        pendingAckPackets := sender.pendingAckPackets.add sequence (packet.resend now)
        log := sender.log ++
          [if toSocket then .datagram packet.packetData else .unrelated,
            .resent sequence now] } := by
  have hdata := ((h.tracks sequence).accounts packet hfind).isDataPacket
  refine h.of_tracks (by cases toSocket <;> rfl) fun s => ?_
  by_cases hs : s = sequence
  · subst hs
    rw [SparseMap.find_add_self]
    have htracks := h.tracks s
    rw [hfind] at htracks
    exact htracks.resend toSocket hoverdue hretries
  · rw [SparseMap.find_add_of_ne _ _ hs]
    apply (h.tracks s).append
    · rw [transmissions_resent, if_neg (fun hboth => hs hboth.2.symm), List.append_nil]
    · intro other hmem hother
      have hbytes : other = packet.packetData := by cases toSocket <;> simp_all
      exact hs (hother.2.2.symm.trans (hbytes ▸ hdata.2.2))
    · cases toSocket <;> simp
    · cases toSocket <;> simp

end SenderTracks

/-- Each step of a sender keeps its numbers accounted for, as long as they do not repeat. -/
theorem SenderTracks.step {sender next : Sender} (hstep : SenderStep sender next)
    (h : (sentNumbers sender.log).length < 2 ^ 32 → SenderTracks sender)
    (hcount : (sentNumbers next.log).length < 2 ^ 32) : SenderTracks next := by
  have hbefore : ∀ notes, next.log = sender.log ++ notes → SenderTracks sender := by
    intro notes hlog
    apply h
    rw [hlog, sentNumbers_append, List.length_append] at hcount
    omega
  cases hstep with
  | quiet note hnote =>
      have hsender := hbefore _ rfl
      refine hsender.of_tracks ?_ fun s => (hsender.tracks s).quiet hnote
      cases note with
      | sentData _ _ => exact absurd hnote id
      | _ => rfl
  | processAck header =>
      have hsender := hbefore _ rfl
      refine hsender.of_tracks rfl fun s => ?_
      rw [find_processAck]
      exact (hsender.tracks s).processAck header
  | send packetData now hdata =>
      have hsender := hbefore _ rfl
      rw [sentNumbers_append, List.length_append] at hcount
      exact hsender.send hcount hdata now
  | resend now toSocket hfind hoverdue hretries =>
      exact (hbefore _ rfl).resend hfind toSocket hoverdue hretries

theorem SenderTracks.of_steps {sender : Sender} (hsteps : SenderSteps {} sender)
    (hcount : (sentNumbers sender.log).length < 2 ^ 32) : SenderTracks sender :=
  preserved_of_moves
    (P := fun sender => (sentNumbers sender.log).length < 2 ^ 32 → SenderTracks sender)
    (fun _ _ hstep h => SenderTracks.step hstep h) hsteps (fun _ => .init) hcount

/-- What holds of a sender: each packet is sent a bounded number of times, in the same
bytes, and each entry among the pending packets is the packet that its key names. -/
structure SendsWithinLimits (log : List Note) (pending : TMap UInt32 PendingPacket) : Prop where
  retransmits : ∀ s, Retransmits s log
  entries : ∀ s packet, pending.find s = some packet →
    IsDataPacket s packet.packetData ∧ packet.retries ≤ maxRetries

theorem sendsWithinLimits_of_steps {sender : Sender} (hsteps : SenderSteps {} sender)
    (hcount : (sentNumbers sender.log).length < 2 ^ 32) :
    SendsWithinLimits sender.log sender.pendingAckPackets := by
  have h := SenderTracks.of_steps hsteps hcount
  refine ⟨fun s => ?_, fun s packet hfind => ?_⟩
  · have htracks := h.tracks s
    refine ⟨htracks.timed, ?_, ?_, ?_, htracks.spaced, htracks.acked⟩
    · obtain ⟨packetData, hidentical⟩ := htracks.identical
      refine ⟨packetData, fun datagram hdatagram => ?_⟩
      rw [htracks.timed] at hdatagram
      obtain ⟨transmission, hmem, rfl⟩ := List.mem_map.mp hdatagram
      exact hidentical transmission hmem
    · intro hsome
      rw [htracks.timed, ne_eq, List.map_eq_nil_iff] at hsome
      have hmem := htracks.numbered (Or.inl hsome)
      have hnodup := nodup_sequencesUpTo hcount
      rw [← h.numbers] at hnodup
      exact List.count_eq_one_of_mem hnodup hmem
    · rw [htracks.timed, List.length_map]
      exact htracks.length_le
  · have haccounts := (h.tracks s).accounts packet hfind
    exact ⟨haccounts.isDataPacket, haccounts.retries_le⟩

end HktBase.CustomNet
