import Mathlib.Data.List.Nodup
import HktBase.CustomNet.Life

/-!
# The pending set of a connection

`PendingAckPackets` against the history of the connection: the sequence numbers sent
are 1, 2, 3, ... and a number is pending exactly when no packet processed since it was
sent acknowledges it.  `TracksAcks` states this for any number of sends, and
`mem_pendingAckPackets_iff` reads it for fewer than 2^32.

`TracksAcks.step` has one case for each thing a step can do to a connection, and
`connectionInvariant_tracksAcks` hands it with `TracksAcks.resend` to the induction over
lives.  Only the reading of the result needs the bound on the number of sends: up to it
`mem_sequencesUpTo` is an interval, and no number is given twice.
-/

namespace HktBase.CustomNet

open Transition HktReliableUdpServer

variable {Addr : Type}

/-! ## What is pending -/

/-- The entry numbers a packet `s` on the connection. -/
def Sends (addrStr : String) (s : UInt32) (action : ServerAction Addr) : Prop :=
  ∃ now, action = .sentData addrStr s now

/-- The entry processes a packet on the connection that acknowledges `s`. -/
def Acks (addrStr : String) (s : UInt32) (action : ServerAction Addr) : Prop :=
  ∃ header, action = .processAck addrStr header ∧ s ∈ header.acks

/-- The sequence numbers that `SendTo` has given out on a connection. -/
def sentSequences (addrStr : String) (life : List (ServerAction Addr)) : List UInt32 :=
  life.filterMap fun
    | .sentData other sequence _ => if other = addrStr then some sequence else none
    | _ => none

/-- The sequence numbers 1, ..., `n`. -/
def sequencesUpTo (n : ℕ) : List UInt32 :=
  (List.range n).map fun i => UInt32.ofNat (i + 1)

theorem sequencesUpTo_succ (n : ℕ) :
    sequencesUpTo (n + 1) = sequencesUpTo n ++ [UInt32.ofNat (n + 1)] := by
  simp [sequencesUpTo, List.range_succ]

theorem mem_sequencesUpTo {n : ℕ} (hn : n < 2 ^ 32) {s : UInt32} :
    s ∈ sequencesUpTo n ↔ 1 ≤ s ∧ s ≤ UInt32.ofNat n := by
  simp only [sequencesUpTo, List.mem_map, List.mem_range, UInt32.le_iff_toNat_le,
    UInt32.toNat_ofNat', Nat.mod_eq_of_lt hn]
  constructor
  · rintro ⟨i, hi, rfl⟩
    simp only [UInt32.toNat_ofNat', Nat.mod_eq_of_lt (show i + 1 < 2 ^ 32 by omega)]
    exact ⟨by simp, hi⟩
  · rintro ⟨hpos, hle⟩
    have hone : (1 : UInt32).toNat = 1 := rfl
    exact ⟨s.toNat - 1, by omega, by
      rw [Nat.sub_add_cancel (by omega), UInt32.ofNat_toNat]⟩

theorem nodup_sequencesUpTo {n : ℕ} (hn : n < 2 ^ 32) : (sequencesUpTo n).Nodup := by
  refine List.Nodup.map_on (fun i hi j hj hsame => ?_) List.nodup_range
  rw [List.mem_range] at hi hj
  have htoNat := congrArg UInt32.toNat hsame
  simp only [UInt32.toNat_ofNat'] at htoNat
  omega

theorem sentSequences_append (addrStr : String) (life more : List (ServerAction Addr)) :
    sentSequences addrStr (life ++ more) =
      sentSequences addrStr life ++ sentSequences addrStr more :=
  List.filterMap_append

theorem mem_sentSequences {addrStr : String} {life : List (ServerAction Addr)} {s : UInt32} :
    s ∈ sentSequences addrStr life ↔ ∃ action ∈ life, Sends addrStr s action := by
  simp only [sentSequences, List.mem_filterMap, Sends]
  refine exists_congr fun action => and_congr_right fun _ => ?_
  cases action <;> simp

/-- The history of a connection accounts for what it has sent and for what is pending. -/
structure TracksAcks (addrStr : String) (life : List (ServerAction Addr))
    (connection : ClientConnection Addr) : Prop where
  sequences : sentSequences addrStr life = sequencesUpTo (sentSequences addrStr life).length
  sentSequence_eq : connection.sentSequence = UInt32.ofNat (sentSequences addrStr life).length
  contains_iff : ∀ s, connection.pendingAckPackets.contains s = true ↔
    Outstanding (Sends addrStr s) (Acks addrStr s) life

namespace TracksAcks

variable {addrStr : String} {life : List (ServerAction Addr)} {connection : ClientConnection Addr}

theorem sends_once (h : TracksAcks addrStr life connection)
    (hcount : (sentSequences addrStr life).length < 2 ^ 32) {s : UInt32} :
    ∀ before entry after, life = before ++ entry :: after → Sends addrStr s entry →
      ∀ later ∈ after, ¬ Sends addrStr s later := by
  intro before entry after hlife hsends later hlater hagain
  have hnodup := nodup_sequencesUpTo hcount
  rw [← h.sequences, hlife, List.append_cons, sentSequences_append, sentSequences_append] at hnodup
  refine List.disjoint_of_nodup_append hnodup ?_ (mem_sentSequences.mpr ⟨later, hlater, hagain⟩)
  exact List.mem_append_right _ (mem_sentSequences.mpr ⟨entry, by simp, hsends⟩)

/-- An entry that neither sends nor acknowledges on the connection. -/
theorem concat (h : TracksAcks addrStr life connection) {action : ServerAction Addr}
    (hsends : ∀ s, ¬ Sends addrStr s action) (hacks : ∀ s, ¬ Acks addrStr s action) :
    TracksAcks addrStr (life ++ [action]) connection := by
  have hsequences : sentSequences addrStr (life ++ [action]) = sentSequences addrStr life := by
    rw [sentSequences_append]
    refine List.append_right_eq_self.mpr (List.eq_nil_iff_forall_not_mem.mpr fun s hs => ?_)
    obtain ⟨other, hother, hsend⟩ := mem_sentSequences.mp hs
    exact hsends s (List.mem_singleton.mp hother ▸ hsend)
  constructor
  · rw [hsequences]
    exact h.sequences
  · rw [hsequences]
    exact h.sentSequence_eq
  · intro s
    rw [outstanding_concat, h.contains_iff]
    simp [hsends s, hacks s]

theorem append (h : TracksAcks addrStr life connection) {actions : List (ServerAction Addr)}
    (hactions : ∀ action ∈ actions, ∀ s, ¬ Sends addrStr s action ∧ ¬ Acks addrStr s action) :
    TracksAcks addrStr (life ++ actions) connection := by
  induction actions using List.reverseRecOn with
  | nil => simpa using h
  | append_singleton before action ih =>
      rw [← List.append_assoc]
      refine (ih fun other hother => hactions other (by simp [hother])).concat ?_ ?_
      · exact fun s => (hactions action (by simp) s).1
      · exact fun s => (hactions action (by simp) s).2

/-- Each step of a connection keeps its history and its pending set in agreement: an Ack ends
what it acknowledges on both sides, and a send begins the number after the last. -/
theorem step [Platform Addr] {hears : String → PacketHeader → Prop} {listenSocket : Bool}
    {after : ClientConnection Addr} {actions : List (ServerAction Addr)}
    (hstep : ConnectionStep hears listenSocket addrStr connection actions after)
    (h : TracksAcks addrStr life connection) : TracksAcks addrStr (life ++ actions) after := by
  cases hstep with
  | processAck now header _ =>
      have hsends : ∀ s, ¬ Sends addrStr s (.processAck addrStr header : ServerAction Addr) :=
        fun s hs => by simp [Sends] at hs
      have hsequences : sentSequences addrStr
          (life ++ [ServerAction.processAck addrStr header]) = sentSequences addrStr life := by
        simp [sentSequences]
      constructor
      · rw [hsequences]
        exact h.sequences
      · rw [hsequences]
        exact h.sentSequence_eq
      · intro s
        have hacks : Acks addrStr s (.processAck addrStr header : ServerAction Addr) ↔
            s ∈ header.acks := by
          simp [Acks]
        rw [outstanding_concat, or_iff_right (hsends s), hacks, ← h.contains_iff]
        simp only [ClientConnection.processAck, SparseMap.contains, find_processAck]
        split <;> simp_all
  | updateReceivedState sequence =>
      rw [List.append_nil]
      exact ⟨h.sequences, h.sentSequence_eq, h.contains_iff⟩
  | sendTo dstAddr now data =>
      -- the next number is the count of the sends so far and one, modulo 2^32
      have hnumber : connection.sentSequence + 1 =
          UInt32.ofNat ((sentSequences addrStr life).length + 1) := by
        rw [h.sentSequence_eq, UInt32.ofNat_add]
        rfl
      have hsequences : sentSequences addrStr (life ++
          [ServerAction.socketSendTo dstAddr (connection.packetData data),
            .sentData addrStr (connection.sentSequence + 1) now]) =
          sentSequences addrStr life ++ [connection.sentSequence + 1] := by
        simp [sentSequences]
      constructor
      · rw [hsequences, List.length_append, List.length_singleton, sequencesUpTo_succ, hnumber,
          ← h.sequences]
      · rw [hsequences, List.length_append, List.length_singleton, ← hnumber]
        rfl
      · intro s
        have hsends : Sends addrStr s (.sentData addrStr
            (connection.sentSequence + 1) now : ServerAction Addr) ↔ s = connection.sentSequence + 1 := by
          simp [Sends, eq_comm]
        have hacks : ¬ Acks addrStr s (.sentData addrStr
            (connection.sentSequence + 1) now : ServerAction Addr) := by
          simp [Acks]
        rw [List.append_cons, outstanding_concat, outstanding_concat, hsends,
          ← h.contains_iff, ClientConnection.afterSendTo, SparseMap.contains_add]
        simp [Sends, Acks]

/-- So does the loop of `CheckForResends`, which replaces packets under the keys they have and
whose actions are neither a first transmission nor an acknowledgement. -/
theorem resend (h : TracksAcks addrStr life connection) {currentTime : Time}
    {actions : List (ServerAction Addr)} (hactions : ∀ action ∈ actions, action.IsResend) :
    TracksAcks addrStr (life ++ .checkForResends currentTime :: actions)
      (connection.afterResend currentTime) := by
  have hresend : TracksAcks addrStr life (connection.afterResend currentTime) := by
    refine ⟨h.sequences, h.sentSequence_eq, fun s => ?_⟩
    rw [ClientConnection.afterResend, contains_resendPending]
    exact h.contains_iff s
  refine hresend.append fun action haction s => ?_
  rcases List.mem_cons.mp haction with rfl | haction
  · simp [Sends, Acks]
  · have hkind := hactions action haction
    cases action <;> simp_all [ServerAction.IsResend, Sends, Acks]

end TracksAcks

theorem connectionInvariant_tracksAcks [Platform Addr] {hears : String → PacketHeader → Prop} :
    ConnectionInvariant hears (@TracksAcks Addr) where
  fresh now newAddr := ⟨rfl, rfl, fun s => by simp [not_outstanding_nil]⟩
  step hstep h := h.step hstep
  resend hactions _ h := h.resend hactions
  groups _ h := ⟨h.sequences, h.sentSequence_eq, h.contains_iff⟩
  irrelevant hirrelevant h := by
    refine h.concat (fun s hs => hirrelevant.1 ?_) (fun s hs => hirrelevant.1 ?_)
    · obtain ⟨now, rfl⟩ := hs
      rfl
    · obtain ⟨header, rfl, -⟩ := hs
      rfl

/-- **Nothing leaves the pending set without an acknowledgement.**  At every moment of
the life of a connection, `SendTo` has numbered its packets 1, ..., `SentSequence`, and
the keys of `PendingAckPackets` are those of these numbers that no packet handed to
`ProcessAck` since has acknowledged. -/
theorem mem_pendingAckPackets_iff [Platform Addr] {events : List (ServerEvent Addr)}
    {server : HktReliableUdpServer Addr}
    (hmoves : Moves anyHeader (run step {} events) server)
    {addrStr : String} {connection : ClientConnection Addr}
    (hfind : server.connections.find addrStr = some connection)
    (hcount : (sentSequences addrStr (server.life addrStr)).length < 2 ^ 32) :
    sentSequences addrStr (server.life addrStr) = sequencesUpTo connection.sentSequence.toNat ∧
      ∀ s, s ∈ connection.pendingAckPackets.keys ↔
        1 ≤ s ∧ s ≤ connection.sentSequence ∧
          ∀ before now after,
            server.life addrStr = before ++ .sentData addrStr s now :: after →
            ∀ header, .processAck addrStr header ∈ after → s ∉ header.acks := by
  have h := connectionInvariant_tracksAcks.moves ((run_moves step_moves {} events).trans hmoves)
    addrStr connection hfind
  have hsequences := h.sequences
  have htoNat : connection.sentSequence.toNat =
      (sentSequences addrStr (server.life addrStr)).length := by
    rw [h.sentSequence_eq, UInt32.toNat_ofNat', Nat.mod_eq_of_lt hcount]
  refine ⟨by rw [htoNat, ← hsequences], fun s => ?_⟩
  -- below 2^32 sends the numbers given are those from 1 to `SentSequence`
  have hsent : (∃ action ∈ server.life addrStr, Sends addrStr s action) ↔
      1 ≤ s ∧ s ≤ connection.sentSequence := by
    rw [← mem_sentSequences, hsequences, mem_sequencesUpTo hcount, h.sentSequence_eq]
  rw [SparseMap.mem_keys, ← SparseMap.contains_iff, h.contains_iff, outstanding_iff_forall (h.sends_once hcount),
    hsent, and_assoc]
  refine and_congr_right fun _ => and_congr_right fun _ => ?_
  constructor
  · intro hall before now after hlife header hheader hacks
    exact hall before _ after hlife ⟨now, rfl⟩ _ hheader ⟨header, rfl, hacks⟩
  · rintro hall before entry after hlife ⟨now, rfl⟩ later hlater ⟨header, rfl, hacks⟩
    exact hall before now after hlife header hlater hacks

/-- A client connects and is sent two packets, of which it acknowledges the second. -/
def acknowledgeSecond : List (ServerEvent LoopbackAddr) :=
  [.start true,
    .receive ⟨7778⟩ (PacketHeader.toBytes { type := .connect }),
    .tick ⟨fun _ => 0, 0, 0⟩,
    .sendTo 0 (some ⟨7778⟩) [1],
    .sendTo 0 (some ⟨7778⟩) [2],
    .receive ⟨7778⟩ (PacketHeader.toBytes { type := .ack, lastAckedSequence := 2 }),
    .tick ⟨fun _ => 1, 1, 1⟩]

theorem mem_pendingAckPackets_iff_acknowledgeSecond :
    ∃ connection, (run step {} acknowledgeSecond).connections.find "127.0.0.1:7778" =
        some connection ∧ connection.sentSequence = 2 ∧
      ∀ s, s ∈ connection.pendingAckPackets.keys ↔ 1 ≤ s ∧ s ≤ connection.sentSequence ∧
        ∀ before now after, (run step {} acknowledgeSecond).life "127.0.0.1:7778" =
            before ++ .sentData "127.0.0.1:7778" s now :: after →
          ∀ header, .processAck "127.0.0.1:7778" header ∈ after → s ∉ header.acks := by
  have hsome : ((run step {} acknowledgeSecond).connections.find "127.0.0.1:7778").isSome := by
    decide +kernel
  obtain ⟨connection, hfind⟩ := Option.isSome_iff_exists.mp hsome
  have hsent : ((run step {} acknowledgeSecond).connections.find "127.0.0.1:7778").map
      (fun connection => connection.sentSequence) = some 2 := by
    decide +kernel
  rw [hfind] at hsent
  exact ⟨connection, hfind, Option.some.inj hsent,
    (mem_pendingAckPackets_iff .refl hfind (by decide +kernel)).2⟩

end HktBase.CustomNet
