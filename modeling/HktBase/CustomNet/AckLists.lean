import HktBase.CustomNet.Client
import HktBase.CustomNet.Server

/-!
# Lists of acknowledgements

What `ProcessAck` makes of a pending map over a list of headers.  One call removes the
numbers `ackedNumbers` one by one, so that the calls for a list remove the numbers of all
headers together: the result depends on which headers were processed, and neither on their
order nor on how often each of them was.  Packets that are sent again carry old
acknowledgements, which is why the callers rely on it.

`entries_processAcks` filters the entries by what the headers acknowledge, and
`entries_processAcks_congr` compares two lists of the same headers through it.  Both
endpoints call the one function, by `pendingAckPackets_foldl_server` and
`pendingAckPackets_foldl_client`.
-/

namespace HktBase.CustomNet

/-! ## One header -/

theorem removeAcked_eq (pending : TMap UInt32 PendingPacket) (sequence : UInt32) :
    removeAcked pending sequence = pending.remove sequence := by
  unfold removeAcked
  split
  · rfl
  · next habsent =>
      have hnone : pending.find sequence = none := by
        rwa [SparseMap.contains, Option.isSome_iff_ne_none, not_not] at habsent
      exact (SparseMap.remove_of_find_eq_none hnone).symm

/-- The numbers that `ProcessAck` removes, in the order in which it does. -/
def ackedNumbers (header : PacketHeader) : List UInt32 :=
  header.lastAckedSequence ::
    ((List.range 32).filter fun i => (header.ackBitfield >>> UInt32.ofNat i) &&& 1 ≠ 0).map
      fun i => header.lastAckedSequence - UInt32.ofNat (i + 1)

theorem mem_ackedNumbers {header : PacketHeader} {s : UInt32} :
    s ∈ ackedNumbers header ↔ s ∈ header.acks := by
  unfold ackedNumbers PacketHeader.acks ackedBy
  rw [List.mem_cons, Set.mem_insert_iff, mem_lookback]
  refine or_congr_right ?_
  simp only [List.mem_map, List.mem_filter, List.mem_range, decide_eq_true_eq]
  constructor
  · rintro ⟨i, ⟨hi, hbit⟩, rfl⟩
    exact ⟨i, hi, (UInt32.shiftRight_and_one_ne_zero_iff hi).mp hbit, rfl⟩
  · rintro ⟨i, hi, hbit, rfl⟩
    exact ⟨i, ⟨hi, (UInt32.shiftRight_and_one_ne_zero_iff hi).mpr hbit⟩, rfl⟩

theorem processAck_eq (header : PacketHeader) (pending : TMap UInt32 PendingPacket) :
    processAck header pending = (ackedNumbers header).foldl SparseMap.remove pending := by
  unfold processAck ackedNumbers
  rw [List.foldl_cons, List.foldl_map, List.foldl_filter]
  simp only [removeAcked_eq, decide_eq_true_eq]

/-! ## A list of headers -/

/-- `ProcessAck` for each of the headers. -/
def processAcks (headers : List PacketHeader) (pending : TMap UInt32 PendingPacket) :
    TMap UInt32 PendingPacket :=
  headers.foldl (fun pending header => processAck header pending) pending

theorem processAcks_eq (headers : List PacketHeader) (pending : TMap UInt32 PendingPacket) :
    processAcks headers pending = (headers.flatMap ackedNumbers).foldl SparseMap.remove pending := by
  unfold processAcks
  rw [List.foldl_flatMap]
  simp only [processAck_eq]

theorem processAcks_concat (headers : List PacketHeader) (header : PacketHeader)
    (pending : TMap UInt32 PendingPacket) :
    processAcks (headers ++ [header]) pending = processAck header (processAcks headers pending) := by
  rw [processAcks, List.foldl_concat]
  rfl

/-- What is left is what no header acknowledges, untouched and in its order. -/
theorem entries_processAcks (headers : List PacketHeader) (pending : TMap UInt32 PendingPacket) :
    (processAcks headers pending).entries =
      pending.entries.filter fun entry => ∀ header ∈ headers, entry.1 ∉ header.acks := by
  rw [processAcks_eq, SparseMap.entries_foldl_remove]
  refine List.filter_congr fun entry _ => ?_
  simp [List.mem_flatMap, mem_ackedNumbers]

theorem pendingAckPackets_foldl_server {Addr : Type} (headers : List PacketHeader)
    (connection : ClientConnection Addr) :
    headers.foldl (fun connection header => connection.processAck header) connection =
      { connection with pendingAckPackets := processAcks headers connection.pendingAckPackets } := by
  induction headers generalizing connection with
  | nil => rfl
  | cons header rest ih => rw [List.foldl_cons, ih]; rfl

theorem pendingAckPackets_foldl_client {Addr : Type} (headers : List PacketHeader)
    (client : HktReliableUdpClient Addr) :
    headers.foldl (fun client header => client.processAck header) client =
      { client with
        pendingAckPackets := processAcks headers client.pendingAckPackets
        trace := client.trace ++ headers.map ClientAction.processAck } := by
  induction headers generalizing client with
  | nil => simp [processAcks]
  | cons header rest ih =>
      rw [List.foldl_cons, ih]
      simp [HktReliableUdpClient.processAck, HktReliableUdpClient.emit, processAcks]

theorem entries_processAcks_congr {headers others : List PacketHeader}
    (hsame : ∀ header, header ∈ others ↔ header ∈ headers)
    (pending : TMap UInt32 PendingPacket) :
    (processAcks others pending).entries = (processAcks headers pending).entries := by
  rw [entries_processAcks, entries_processAcks]
  refine List.filter_congr fun entry _ => ?_
  simp only [hsame]

/-- **Acknowledgements are exact and order-free.**  For every pending map and every list of
headers, `ProcessAck` of the server and of the client over the list leaves exactly the
entries that no header of the list acknowledges, each of them untouched; and any other list
of the same headers, in whatever order and however often repeated, leaves the same. -/
theorem acks_exact {Addr : Type} (connection : ClientConnection Addr)
    (client : HktReliableUdpClient Addr) (headers : List PacketHeader) :
    let serverAcks := fun (headers : List PacketHeader) =>
      (headers.foldl (fun connection header => connection.processAck header)
        connection).pendingAckPackets
    let clientAcks := fun (headers : List PacketHeader) =>
      (headers.foldl (fun client header => client.processAck header) client).pendingAckPackets
    ((serverAcks headers).entries = connection.pendingAckPackets.entries.filter
        (fun entry => ∀ header ∈ headers, entry.1 ∉ header.acks) ∧
      ∀ others, (∀ header, header ∈ others ↔ header ∈ headers) →
        (serverAcks others).entries = (serverAcks headers).entries) ∧
    ((clientAcks headers).entries = client.pendingAckPackets.entries.filter
        (fun entry => ∀ header ∈ headers, entry.1 ∉ header.acks) ∧
      ∀ others, (∀ header, header ∈ others ↔ header ∈ headers) →
        (clientAcks others).entries = (clientAcks headers).entries) := by
  intro serverAcks clientAcks
  have hserver : ∀ list, serverAcks list = processAcks list connection.pendingAckPackets :=
    fun list => congrArg ClientConnection.pendingAckPackets
      (pendingAckPackets_foldl_server list connection)
  have hclient : ∀ list, clientAcks list = processAcks list client.pendingAckPackets :=
    fun list => congrArg HktReliableUdpClient.pendingAckPackets
      (pendingAckPackets_foldl_client list client)
  constructor
  · constructor
    · rw [hserver, entries_processAcks]
    · intro others hsame
      rw [hserver, hserver]
      exact entries_processAcks_congr hsame _
  · constructor
    · rw [hclient, entries_processAcks]
    · intro others hsame
      rw [hclient, hclient]
      exact entries_processAcks_congr hsame _

/-- A stale header between two others, and repeated after them, changes nothing. -/
theorem acks_exact_repeated :
    let client : HktReliableUdpClient LoopbackAddr :=
      { pendingAckPackets := ((∅ : TMap UInt32 PendingPacket).add 1 ⟨[1], 0, 0⟩).add 2 ⟨[2], 0, 0⟩ }
    let stale : PacketHeader := { type := .ack }
    let newer : PacketHeader := { type := .ack, lastAckedSequence := 1 }
    ([stale, newer, stale].foldl (fun client header => client.processAck header)
        client).pendingAckPackets.entries =
      ([newer, stale].foldl (fun client header => client.processAck header)
        client).pendingAckPackets.entries := by
  intro client stale newer
  have hsame : ∀ header, header ∈ [stale, newer, stale] ↔ header ∈ [newer, stale] := by
    intro header
    simp only [List.mem_cons, List.not_mem_nil, or_false]
    tauto
  have hexact := acks_exact ({ address := ⟨7778⟩ } : ClientConnection LoopbackAddr) client
    [newer, stale]
  exact hexact.2.2 [stale, newer, stale] hsame

end HktBase.CustomNet
