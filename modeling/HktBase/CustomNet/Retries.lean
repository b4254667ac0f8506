import HktBase.CustomNet.Pending

/-!
# Retries and the clock

When the resend limit drops a client, told from the history of its connection.  A packet
that no header acknowledges is sent again by every pass of `CheckForResends` that reads
the clock more than `resendTimeout` after the last transmission.  `overdueSweeps` counts
these passes, and the limit is reached exactly when a packet that was not acknowledged
counts more than `maxRetries` of them.

`resendLimit_not_mem` needs no assumption on what is acknowledged;
`historically_retriesLeft` is the converse where nothing is.

Both go by induction over the moves, with `trace_of_move` to tell a pass from the rest.  At a
pass, `TracksClocks` has an entry for every packet that is counted, so that the limit and the
count are two readings of the same retries.
-/

namespace HktBase.CustomNet

open Transition HktReliableUdpServer

variable {Addr : Type}

/-! ## Passes over one packet -/

/-- A pass over a packet that was last sent at `clock.1`, with `clock.2` retries. -/
def sweepOnce (clock : Time × ℕ) (currentTime : Time) : Time × ℕ :=
  if currentTime - clock.1 > resendTimeout then (currentTime, clock.2 + 1) else clock

def sweepEntry (clock : Time × ℕ) : ServerAction Addr → Time × ℕ
  | .checkForResends currentTime => sweepOnce clock currentTime
  | _ => clock

/-- The last transmission and the retries of a packet sent at `sentTime`, after the passes
among `later`. -/
def sweeps (sentTime : Time) (later : List (ServerAction Addr)) : Time × ℕ :=
  later.foldl sweepEntry (sentTime, 0)

/-- The number of passes that come more than `resendTimeout` after the packet was sent or
after the previous one of them. -/
def overdueSweeps (sentTime : Time) (later : List (ServerAction Addr)) : ℕ :=
  (sweeps sentTime later).2

theorem sweeps_concat (sentTime : Time) (later : List (ServerAction Addr))
    (entry : ServerAction Addr) :
    sweeps sentTime (later ++ [entry]) = sweepEntry (sweeps sentTime later) entry := by
  simp [sweeps]

/-- `SentTime` and `Retries`. -/
def PendingPacket.clock (packet : PendingPacket) : Time × ℕ :=
  (packet.sentTime, packet.retries)

theorem PendingPacket.clock_afterPass (packet : PendingPacket) (currentTime : Time) :
    (packet.afterPass currentTime).clock = sweepOnce packet.clock currentTime := by
  unfold afterPass sweepOnce
  by_cases hoverdue : packet.Overdue currentTime
  · rw [if_pos hoverdue, if_pos (show currentTime - packet.clock.1 > resendTimeout from hoverdue)]
    rfl
  · rw [if_neg hoverdue, if_neg (show ¬ currentTime - packet.clock.1 > resendTimeout from hoverdue)]

/-! ## The clocks of a connection -/

/-- What an entry makes of the clock of the packet `s` on a connection. -/
def clockEntry (addrStr : String) (s : UInt32) (clock : Option (Time × ℕ)) :
    ServerAction Addr → Option (Time × ℕ)
  | .sentData other sequence now => if other = addrStr ∧ sequence = s then some (now, 0) else clock
  | .processAck other header => if other = addrStr ∧ s ∈ header.acks then none else clock
  | .checkForResends currentTime => clock.map fun clock => sweepOnce clock currentTime
  | _ => clock

/-- The clock of the packet `s` that a history leaves, unless it is acknowledged. -/
def clockOf (addrStr : String) (s : UInt32) (life : List (ServerAction Addr)) :
    Option (Time × ℕ) :=
  life.foldl (clockEntry addrStr s) none

theorem clockOf_concat (addrStr : String) (s : UInt32) (life : List (ServerAction Addr))
    (entry : ServerAction Addr) :
    clockOf addrStr s (life ++ [entry]) = clockEntry addrStr s (clockOf addrStr s life) entry := by
  simp [clockOf]

theorem clockEntry_of_isResend {addrStr : String} {s : UInt32} {clock : Option (Time × ℕ)}
    {action : ServerAction Addr} (haction : action.IsResend) :
    clockEntry addrStr s clock action = clock := by
  cases action <;> simp_all [clockEntry, ServerAction.IsResend]

theorem clockEntry_of_irrelevant {addrStr : String} {s : UInt32} {clock : Option (Time × ℕ)}
    {action : ServerAction Addr} (haction : action.Irrelevant addrStr) :
    clockEntry addrStr s clock action = clock := by
  obtain ⟨hkey, hcheck⟩ := haction
  cases action <;> simp_all [clockEntry, ServerAction.key]

theorem clockOf_append_of_isResend {addrStr : String} {s : UInt32}
    {actions : List (ServerAction Addr)} (hactions : ∀ action ∈ actions, action.IsResend)
    (life : List (ServerAction Addr)) :
    clockOf addrStr s (life ++ actions) = clockOf addrStr s life := by
  induction actions using List.reverseRecOn with
  | nil => simp
  | append_singleton before action ih =>
      rw [← List.append_assoc, clockOf_concat, clockEntry_of_isResend (hactions action (by simp))]
      exact ih fun other hother => hactions other (by simp [hother])

/-- An entry leaves a clock by sending the packet or by passing over it: where there is a clock
after an entry, the entry started it or there was one before. -/
theorem clockEntry_eq_some {addrStr : String} {s : UInt32} {before : Option (Time × ℕ)}
    {entry : ServerAction Addr} {clock : Time × ℕ}
    (h : clockEntry addrStr s before entry = some clock) :
    (∃ now, entry = .sentData addrStr s now ∧ clock = (now, 0)) ∨
      ∃ last, before = some last ∧ clock = sweepEntry last entry := by
  cases entry with
  | sentData other sequence now =>
      simp only [clockEntry] at h
      split at h
      · next hsame =>
          obtain ⟨rfl, rfl⟩ := hsame
          exact Or.inl ⟨now, rfl, (Option.some.inj h).symm⟩
      · exact Or.inr ⟨clock, h, rfl⟩
  | processAck other header =>
      simp only [clockEntry] at h
      split at h
      · simp at h
      · exact Or.inr ⟨clock, h, rfl⟩
  | checkForResends currentTime =>
      obtain ⟨last, hlast, rfl⟩ := Option.map_eq_some_iff.mp h
      exact Or.inr ⟨last, hlast, rfl⟩
  | _ => exact Or.inr ⟨clock, h, rfl⟩

/-- A clock stems from a transmission and the passes after it. -/
theorem exists_sentData_of_clockOf {addrStr : String} {s : UInt32}
    {life : List (ServerAction Addr)} {clock : Time × ℕ}
    (h : clockOf addrStr s life = some clock) :
    ∃ earlier sentTime later, life = earlier ++ .sentData addrStr s sentTime :: later ∧
      sweeps sentTime later = clock := by
  induction life using List.reverseRecOn generalizing clock with
  | nil => simp [clockOf] at h
  | append_singleton before entry ih =>
      rw [clockOf_concat] at h
      rcases clockEntry_eq_some h with ⟨now, rfl, rfl⟩ | ⟨last, hlast, rfl⟩
      · exact ⟨before, now, [], rfl, rfl⟩
      · obtain ⟨earlier, sentTime, later, rfl, rfl⟩ := ih hlast
        exact ⟨earlier, sentTime, later ++ [entry], by simp, sweeps_concat sentTime later entry⟩

theorem clockEntry_some {addrStr : String} {s : UInt32} {entry : ServerAction Addr}
    (hsends : ¬ Sends addrStr s entry) (hacks : ¬ Acks addrStr s entry) (clock : Time × ℕ) :
    clockEntry addrStr s (some clock) entry = some (sweepEntry clock entry) := by
  cases entry with
  | sentData other sequence now =>
      refine if_neg ?_
      rintro ⟨rfl, rfl⟩
      exact hsends ⟨now, rfl⟩
  | processAck other header =>
      refine if_neg ?_
      rintro ⟨rfl, hmem⟩
      exact hacks ⟨header, rfl, hmem⟩
  | _ => rfl

/-- A packet that is neither acknowledged nor numbered again keeps its clock. -/
theorem clockOf_eq_sweeps {addrStr : String} {s : UInt32}
    (earlier : List (ServerAction Addr)) (sentTime : Time) {later : List (ServerAction Addr)}
    (hlater : ∀ entry ∈ later, ¬ Sends addrStr s entry ∧ ¬ Acks addrStr s entry) :
    clockOf addrStr s (earlier ++ .sentData addrStr s sentTime :: later) =
      some (sweeps sentTime later) := by
  induction later using List.reverseRecOn with
  | nil =>
      rw [clockOf_concat]
      simp [clockEntry, sweeps]
  | append_singleton before entry ih =>
      obtain ⟨hsends, hacks⟩ := hlater entry (by simp)
      rw [← List.cons_append, ← List.append_assoc, clockOf_concat,
        ih fun other hother => hlater other (by simp [hother]), sweeps_concat]
      exact clockEntry_some hsends hacks _

/-- Until the resend limit is reached, the pending packets have the clocks that the
history of the connection gives them. -/
structure TracksClocks (addrStr : String) (life : List (ServerAction Addr))
    (connection : ClientConnection Addr) : Prop where
  clock_eq : .resendLimit addrStr ∉ life → ∀ s,
    (connection.pendingAckPackets.find s).map PendingPacket.clock = clockOf addrStr s life
  retries_le : ∀ s packet, connection.pendingAckPackets.find s = some packet →
    packet.retries ≤ maxRetries

namespace TracksClocks

variable {addrStr : String} {life : List (ServerAction Addr)} {connection : ClientConnection Addr}

/-- Each step of a connection keeps its history and its clocks in agreement. -/
theorem step [Platform Addr] {hears : String → PacketHeader → Prop} {listenSocket : Bool}
    {after : ClientConnection Addr} {actions : List (ServerAction Addr)}
    (hstep : ConnectionStep hears listenSocket addrStr connection actions after)
    (h : TracksClocks addrStr life connection) : TracksClocks addrStr (life ++ actions) after := by
  cases hstep with
  | processAck now header _ =>
      refine ⟨fun hlimit s => ?_, fun s packet hfind => ?_⟩
      · have hbefore := h.clock_eq (fun hmem => hlimit (List.mem_append_left _ hmem)) s
        rw [clockOf_concat, ← hbefore]
        simp only [ClientConnection.processAck, find_processAck, clockEntry, true_and]
        split <;> rfl
      · simp only [ClientConnection.processAck, find_processAck] at hfind
        split at hfind
        · simp at hfind
        · exact h.retries_le s packet hfind
  | updateReceivedState sequence =>
      rw [List.append_nil]
      exact ⟨h.clock_eq, h.retries_le⟩
  | sendTo dstAddr now data =>
      refine ⟨fun hlimit s => ?_, fun s packet hfind => ?_⟩
      -- the number that is given out starts its clock, every other clock goes on
      · have hbefore := h.clock_eq (fun hmem => hlimit (List.mem_append_left _ hmem)) s
        rw [List.append_cons, clockOf_concat, clockOf_concat, ← hbefore,
          ClientConnection.afterSendTo, SparseMap.find_add]
        simp only [clockEntry, true_and, eq_comm (a := connection.sentSequence + 1)]
        split <;> rfl
      · rw [ClientConnection.afterSendTo, SparseMap.find_add] at hfind
        split at hfind
        · obtain rfl := Option.some.inj hfind
          exact Nat.zero_le _
        · exact h.retries_le s packet hfind

/-- So does the loop of `CheckForResends`. -/
theorem resend (h : TracksClocks addrStr life connection) {currentTime : Time}
    {actions : List (ServerAction Addr)} (hactions : ∀ action ∈ actions, action.IsResend)
    (hlimit : .resendLimit addrStr ∈ actions ↔
      (resendPending currentTime connection.pendingAckPackets).limitExceeded = true) :
    TracksClocks addrStr (life ++ .checkForResends currentTime :: actions)
      (connection.afterResend currentTime) := by
  refine ⟨fun hnone s => ?_, fun s packet hfind => ?_⟩
  · have hbefore := h.clock_eq (fun hmem => hnone (List.mem_append_left _ hmem)) s
    have hcontinues : (resendPending currentTime connection.pendingAckPackets).limitExceeded =
        false := by
      rw [← Bool.not_eq_true, ← hlimit]
      exact fun hmem => hnone (by simp [hmem])
    rw [List.append_cons, clockOf_append_of_isResend hactions, clockOf_concat, ← hbefore,
      ClientConnection.afterResend,
      find_resendPending_of_not_limitExceeded _ _ hcontinues]
    simp only [clockEntry, Option.map_map]
    exact congrArg (fun f => (connection.pendingAckPackets.find s).map f)
      (funext fun packet => packet.clock_afterPass currentTime)
  · rcases find_resendPending currentTime connection.pendingAckPackets s with
      hsame | ⟨original, -, -, hretries, hresent⟩
    · exact h.retries_le s packet (hsame ▸ hfind)
    · obtain rfl := Option.some.inj (hresent.symm.trans hfind)
      exact hretries

/-- A pass that reaches the limit meets a packet that has counted too many passes. -/
theorem exists_overdueSweeps_gt (h : TracksClocks addrStr life connection)
    (hlimit : .resendLimit addrStr ∉ life) {currentTime : Time}
    (hexceeded : (resendPending currentTime connection.pendingAckPackets).limitExceeded = true) :
    ∃ earlier s sentTime later, life = earlier ++ .sentData addrStr s sentTime :: later ∧
      maxRetries < overdueSweeps sentTime (later ++ [.checkForResends currentTime]) := by
  obtain ⟨s, packet, hfind, hoverdue, hretries⟩ :=
    (limitExceeded_resendPending_iff currentTime connection.pendingAckPackets).mp hexceeded
  have hclock := h.clock_eq hlimit s
  rw [hfind, Option.map_some] at hclock
  obtain ⟨earlier, sentTime, later, hlife, hsweeps⟩ := exists_sentData_of_clockOf hclock.symm
  refine ⟨earlier, s, sentTime, later, hlife, ?_⟩
  rw [overdueSweeps, sweeps_concat, hsweeps]
  have hsweep : sweepEntry packet.clock (.checkForResends currentTime : ServerAction Addr) =
      (currentTime, packet.retries + 1) := if_pos hoverdue
  rw [hsweep]
  exact Nat.lt_succ_of_le hretries

/-- A pass that does not reach the limit leaves retries to every packet that is not
acknowledged. -/
theorem overdueSweeps_le (h : TracksClocks addrStr life connection)
    (hlimit : .resendLimit addrStr ∉ life) {currentTime : Time}
    (hcontinues : (resendPending currentTime connection.pendingAckPackets).limitExceeded ≠ true)
    {earlier later : List (ServerAction Addr)} {s : UInt32} {sentTime : Time}
    (hlife : life = earlier ++ .sentData addrStr s sentTime :: later)
    (hlater : ∀ entry ∈ later, ¬ Sends addrStr s entry ∧ ¬ Acks addrStr s entry) :
    overdueSweeps sentTime (later ++ [.checkForResends currentTime]) ≤ maxRetries := by
  have hclock := h.clock_eq hlimit s
  rw [hlife, clockOf_eq_sweeps earlier sentTime hlater] at hclock
  obtain ⟨packet, hfind, hsweeps⟩ := Option.map_eq_some_iff.mp hclock
  rw [overdueSweeps, sweeps_concat, ← hsweeps]
  change (sweepOnce packet.clock currentTime).2 ≤ maxRetries
  unfold sweepOnce
  split
  · next hoverdue =>
      refine Nat.lt_of_not_le fun hretries => hcontinues ?_
      exact (limitExceeded_resendPending_iff currentTime connection.pendingAckPackets).mpr
        ⟨s, packet, hfind, hoverdue, hretries⟩
  · exact h.retries_le s packet hfind

end TracksClocks

variable [Platform Addr] {hears : String → PacketHeader → Prop}

theorem connectionInvariant_tracksClocks :
    ConnectionInvariant hears (@TracksClocks Addr) where
  fresh now newAddr := ⟨fun _ s => by simp [clockOf], fun s packet hfind => by simp at hfind⟩
  step hstep h := h.step hstep
  resend hactions hlimit h := h.resend hactions hlimit
  groups _ h := ⟨h.clock_eq, h.retries_le⟩
  irrelevant hirrelevant h := by
    refine ⟨fun hlimit s => ?_, h.retries_le⟩
    rw [clockOf_concat, clockEntry_of_irrelevant hirrelevant]
    exact h.clock_eq (fun hmem => hlimit (List.mem_append_left _ hmem)) s

/-! ## Passes over a server -/

/-- A pass of `CheckForResends` leaves the entry. -/
def ServerAction.IsSweep : ServerAction Addr → Prop
  | .checkForResends _ => True
  | .resendLimit _ => True
  | _ => False

omit [Platform Addr] in
theorem ne_of_not_isSweep {actions : List (ServerAction Addr)}
    (hactions : ∀ action ∈ actions, ¬ action.IsSweep) :
    ∀ action ∈ actions, ∀ currentTime, action ≠ .checkForResends currentTime := by
  rintro action haction currentTime rfl
  exact hactions _ haction trivial

/-- A move is a pass of `CheckForResends`, or it adds only entries of other kinds: the two cases
of the inductions over runs below. -/
theorem trace_of_move {server next : HktReliableUdpServer Addr} (hmove : Move hears server next) :
    (∃ actions, next.trace = server.trace ++ actions ∧ ∀ action ∈ actions, ¬ action.IsSweep) ∨
      ∃ currentTime, next = (server.resendAll currentTime).1 := by
  cases hmove with
  | environment _ _ htrace _ => exact Or.inl ⟨[], by simpa using htrace, by simp⟩
  | report action hreport =>
      refine Or.inl ⟨[action], rfl, fun other hother => ?_⟩
      obtain rfl := List.mem_singleton.mp hother
      cases other <;> simp_all [ServerAction.IsReport, ServerAction.IsSweep]
  | accept now newAddr _ =>
      exact Or.inl ⟨[.newConnection (Platform.toString newAddr)], rfl,
        by simp [ServerAction.IsSweep]⟩
  | @connection addrStr before after actions _ hstep =>
      refine Or.inl ⟨actions, rfl, ?_⟩
      cases hstep with
      | processAck now header _ => simp [ServerAction.IsSweep]
      | updateReceivedState sequence => simp
      | sendTo dstAddr now data => simp [ServerAction.IsSweep]
  | resend currentTime => exact Or.inr ⟨currentTime, rfl⟩
  | disconnect addrStr =>
      refine Or.inl ⟨_, trace_disconnectClient addrStr server, ?_⟩
      split <;> simp [ServerAction.IsSweep]
  | joinGroup clientAddr groupId => exact Or.inl ⟨[], by simp, by simp⟩
  | leaveGroup clientAddr groupId => exact Or.inl ⟨[], by simp, by simp⟩

/-- At a pass of `CheckForResends`, no packet sent on the connection counts more than
`maxRetries` overdue passes, this one included. -/
def RetriesLeft (addrStr : String) (before : List (ServerAction Addr))
    (entry : ServerAction Addr) : Prop :=
  ∀ currentTime, entry = .checkForResends currentTime → ∀ earlier s sentTime later,
    lifeIn addrStr before = earlier ++ .sentData addrStr s sentTime :: later →
    overdueSweeps sentTime (later ++ [entry]) ≤ maxRetries

omit [Platform Addr] in
theorem historically_retriesLeft_append {addrStr : String}
    {trace actions : List (ServerAction Addr)}
    (hactions : ∀ action ∈ actions, ∀ currentTime, action ≠ .checkForResends currentTime) :
    Historically (RetriesLeft addrStr) (trace ++ actions) ↔
      Historically (RetriesLeft addrStr) trace := by
  induction actions using List.reverseRecOn with
  | nil => simp
  | append_singleton before action ih =>
      rw [← List.append_assoc, historically_concat,
        ih fun other hother => hactions other (by simp [hother])]
      refine and_iff_left ?_
      rintro currentTime rfl
      exact absurd rfl (hactions _ (by simp) currentTime)

/-- **Where retries are left, no client is dropped.**  Whatever the server is sent: a
connection whose packets never count more than `maxRetries` overdue passes does not reach
the resend limit. -/
theorem resendLimit_not_mem {server : HktReliableUdpServer Addr} (hmoves : Moves hears {} server)
    {addrStr : String} (hleft : Historically (RetriesLeft addrStr) server.trace) :
    .resendLimit addrStr ∉ server.trace := by
  induction hmoves with
  | refl => simp
  | @tail before next hbefore hmove ih =>
      rcases trace_of_move hmove with ⟨actions, htrace, hactions⟩ | ⟨currentTime, rfl⟩
      · rw [htrace] at hleft ⊢
        rw [historically_retriesLeft_append (ne_of_not_isSweep hactions)] at hleft
        rw [List.mem_append, not_or]
        exact ⟨ih hleft, fun hmem => hactions _ hmem trivial⟩
      · -- only a pass can reach the limit, and it would meet a packet without retries
        obtain ⟨actions, hresends⟩ := resends_resendAll currentTime before
        rw [hresends.trace, trace_emit] at hleft ⊢
        obtain ⟨hpass, -⟩ := historically_append.mp hleft
        obtain ⟨hbeforeleft, hnow⟩ := historically_concat.mp hpass
        have hnone := ih hbeforeleft
        rw [List.mem_append, List.mem_append, hresends.resendLimit, connections_emit]
        rintro ((hmem | hmem) | ⟨-, connection, hfind, hexceeded⟩)
        · exact hnone hmem
        · simp at hmem
        · obtain ⟨earlier, s, sentTime, later, hlife, hgt⟩ :=
            (connectionInvariant_tracksClocks.moves hbefore addrStr connection
              hfind).exists_overdueSweeps_gt (fun hmem => hnone (mem_of_mem_lifeIn hmem)) hexceeded
          exact absurd (hnow currentTime rfl earlier s sentTime later hlife) (not_le.mpr hgt)

/-! ## Where nothing is acknowledged -/

/-- A header from this connection acknowledges no number but 0, which is never sent. -/
def AcksNothing (addrStr other : String) (header : PacketHeader) : Prop :=
  other = addrStr → ∀ s ∈ header.acks, s = 0

/-- Only headers that may be processed are, in every life: what a run assumes of the headers
that it hears is there to be used at any later entry. -/
theorem connectionInvariant_hears : ConnectionInvariant hears
    fun addrStr (life : List (ServerAction Addr)) _ =>
      ∀ header, .processAck addrStr header ∈ life → hears addrStr header where
  fresh now newAddr := by simp
  step hstep h := by
    intro header hmem
    cases hstep with
    | processAck now processed hprocessed =>
        rcases List.mem_append.mp hmem with hmem | hmem
        · exact h header hmem
        · obtain rfl : header = processed := by simpa using hmem
          exact hprocessed
    | updateReceivedState sequence => exact h header (by simpa using hmem)
    | sendTo dstAddr now data => exact h header (by simpa using hmem)
  resend hactions _ h := by
    intro header hmem
    rcases List.mem_append.mp hmem with hmem | hmem
    · exact h header hmem
    · rcases List.mem_cons.mp hmem with hmem | hmem
      · simp at hmem
      · exact (hactions _ hmem).elim
  groups _ h := h
  irrelevant hirrelevant h := by
    intro header hmem
    rcases List.mem_append.mp hmem with hmem | hmem
    · exact h header hmem
    · obtain rfl := List.mem_singleton.mp hmem
      exact absurd rfl hirrelevant.1

theorem LifeStep.sentSequences_eq_nil {addrStr : String}
    {before after : Option (ClientConnection Addr)} {life later : List (ServerAction Addr)}
    (hstep : LifeStep hears addrStr before life after later)
    (hbefore : before = none → sentSequences addrStr life = []) (hafter : after = none) :
    sentSequences addrStr later = [] := by
  have hnone : ∀ actions : List (ServerAction Addr), before = none →
      (∀ action ∈ actions, ∀ s, ¬ Sends addrStr s action) →
      sentSequences addrStr (life ++ actions) = [] := by
    intro actions hnone hactions
    rw [sentSequences_append, hbefore hnone, List.nil_append]
    refine List.eq_nil_iff_forall_not_mem.mpr fun s hs => ?_
    obtain ⟨action, haction, hsends⟩ := mem_sentSequences.mp hs
    exact hactions action haction s hsends
  cases hstep with
  | irrelevant actions hactions =>
      refine hnone actions hafter ?_
      rintro action haction s ⟨now, rfl⟩
      exact (hactions _ haction).1 rfl
  | accept now newAddr _ => simp at hafter
  | disconnect => rfl
  | connection _ => simp at hafter
  | resend currentTime hactions _ =>
      refine hnone _ (Option.map_eq_none_iff.mp hafter) ?_
      rintro action haction s ⟨now, rfl⟩
      exact hactions _ (List.mem_of_ne_of_mem (by simp) haction)
  | groups groupIds => simp at hafter

theorem sentSequences_life_of_find_eq_none {server : HktReliableUdpServer Addr}
    (hmoves : Moves hears {} server) {addrStr : String} :
    server.connections.find addrStr = none → sentSequences addrStr (server.life addrStr) = [] := by
  induction hmoves with
  | refl => exact fun _ => rfl
  | tail _ hmove ih => exact (lifeStep_of_move hmove addrStr).sentSequences_eq_nil ih

omit [Platform Addr] in
theorem length_sentSequences_lifeIn_le (addrStr : String) (trace : List (ServerAction Addr)) :
    (sentSequences addrStr (lifeIn addrStr trace)).length ≤
      (sentSequences addrStr trace).length :=
  ((sinceLast_suffix (bounds addrStr) trace).sublist.filterMap _).length_le

/-- At a pass that does not reach the limit, retries are left.  A number given out in this life
is still pending, since only a header that acknowledges 0 has been processed. -/
theorem retriesLeft_of_not_limitExceeded {server : HktReliableUdpServer Addr} {addrStr : String}
    (hmoves : Moves (AcksNothing addrStr) {} server)
    (hcount : (sentSequences addrStr server.trace).length < 2 ^ 32)
    (hnone : .resendLimit addrStr ∉ server.trace) {currentTime : Time}
    (hcontinues : ∀ connection, server.connections.find addrStr = some connection →
      (resendPending currentTime connection.pendingAckPackets).limitExceeded ≠ true) :
    RetriesLeft addrStr server.trace (.checkForResends currentTime) := by
  rintro now ⟨rfl⟩ earlier s sentTime later hlife
  have hsent : s ∈ sentSequences addrStr (server.life addrStr) :=
    mem_sentSequences.mpr ⟨.sentData addrStr s sentTime, by simp [HktReliableUdpServer.life, hlife],
      sentTime, rfl⟩
  cases hfind : server.connections.find addrStr with
  | none =>
      -- a pass does not look at an address that is not registered
      rw [sentSequences_life_of_find_eq_none hmoves hfind] at hsent
      simp at hsent
  | some connection =>
      have hclocks := connectionInvariant_tracksClocks.moves hmoves addrStr connection hfind
      have hacks := connectionInvariant_tracksAcks.moves hmoves addrStr connection hfind
      have hheard := connectionInvariant_hears.moves hmoves addrStr connection hfind
      have hlifecount : (sentSequences addrStr (server.life addrStr)).length < 2 ^ 32 :=
        (length_sentSequences_lifeIn_le addrStr server.trace).trans_lt hcount
      refine hclocks.overdueSweeps_le (fun hmem => hnone (mem_of_mem_lifeIn hmem))
        (hcontinues connection hfind) hlife fun entry hentry => ⟨?_, ?_⟩
      · exact hacks.sends_once hlifecount earlier _ later hlife ⟨sentTime, rfl⟩ entry hentry
      · -- a header could acknowledge the packet only if its number were 0
        rintro ⟨header, rfl, hmem⟩
        have hzero := hheard header (by simp [HktReliableUdpServer.life, hlife, hentry]) rfl s hmem
        rw [hacks.sequences, mem_sequencesUpTo hlifecount, hzero] at hsent
        exact absurd hsent.1 (by decide)

/-- **Where nothing is acknowledged, retries run out.**  A connection on which no header
acknowledges a packet reaches the resend limit once a packet counts more than `maxRetries`
overdue passes. -/
theorem historically_retriesLeft {server : HktReliableUdpServer Addr} {addrStr : String}
    (hmoves : Moves (AcksNothing addrStr) {} server)
    (hcount : (sentSequences addrStr server.trace).length < 2 ^ 32)
    (hnone : .resendLimit addrStr ∉ server.trace) :
    Historically (RetriesLeft addrStr) server.trace := by
  induction hmoves with
  | refl => exact historically_nil _
  | @tail before next hbefore hmove ih =>
      rcases trace_of_move hmove with ⟨actions, htrace, hactions⟩ | ⟨currentTime, rfl⟩
      -- no pass: the retries that are left are those before
      · rw [htrace] at hcount hnone ⊢
        rw [sentSequences_append, List.length_append] at hcount
        rw [historically_retriesLeft_append (ne_of_not_isSweep hactions)]
        exact ih (by omega) fun hmem => hnone (List.mem_append_left _ hmem)
      · obtain ⟨actions, hresends⟩ := resends_resendAll currentTime before
        rw [hresends.trace, trace_emit] at hcount hnone ⊢
        rw [sentSequences_append, sentSequences_append, List.length_append,
          List.length_append] at hcount
        have hnonebefore : .resendLimit addrStr ∉ before.trace := fun hmem => hnone (by simp [hmem])
        rw [historically_retriesLeft_append, historically_concat]
        · refine ⟨ih (by omega) hnonebefore,
            retriesLeft_of_not_limitExceeded hbefore (by omega) hnonebefore ?_⟩
          intro connection hfind hexceeded
          refine hnone (List.mem_append_right _ ((hresends.resendLimit addrStr).mpr ⟨?_, ?_⟩))
          · exact SparseMap.mem_keys.mpr ⟨connection, hfind⟩
          · exact ⟨connection, hfind, hexceeded⟩
        · rintro action haction now rfl
          exact hresends.isResend _ haction

end HktBase.CustomNet
