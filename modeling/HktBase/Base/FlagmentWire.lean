import HktBase.Base.BehaviorFactory
import HktBase.Library.LittleEndian

/-!
# Flagments between two processes

What a process makes of a header that another one has written.  The header says which
type it carries by the sender's id of the type, and the receiver takes it for one of its
own.  Both register the same types; what they also share, or do not, is the order in
which they came to use them.

## Strategy

A process is described by `Matches`, so that both results are about lists of types:

* `Matches.createBehavior_eq_find` reads a header with the types that are registered, and
  `headers_name_types` says that up to a full turn of the counter it names one of them;
* `survives_iff_decode` is one type between two processes: the sender's id of it, decoded by the
  receiver;
* `flagments_survive_iff` collects this over all registered types, and is `decode_eq_self_iff`
  of the library from there on.
-/

namespace HktBase.Base

open Transition Interning

variable {Flagment : Type} [DecidableEq Flagment] {Value : Flagment → Type}
  [∀ T, Inhabited (Value T)] {properties : TaggedProperties Value}

namespace Process

variable {used entered : List Flagment} {process : Process Value}

theorem Matches.createBehaviorRequest (h : Matches properties used entered process)
    {T : Flagment} (hT : T ∈ used) (subjectId syncGroupId : Int64) (flagment : Value T) :
    (process.createBehaviorRequest properties subjectId syncGroupId flagment).1 =
      { subjectId, syncGroupId
        flagmentTypeId := typeIdIn used T
        flagmentPayload := properties.write T flagment } := by
  rw [Process.createBehaviorRequest, ← typeIdIn_concat_of_mem hT T, ← (h.getBehaviorTypeId T).1]
  rfl

theorem Matches.createBehavior (h : Matches properties used entered process)
    (header : BehaviorResponseHeader) :
    process.createBehavior header =
      (decode (typeIdIn used) entered header.flagmentTypeId).map fun T =>
        ⟨T, header.behaviorInstanceId, header.subjectId,
          properties.read T header.flagmentPayload default⟩ := by
  rw [Process.createBehavior, h.creators]
  cases decode (typeIdIn used) entered header.flagmentTypeId <;> rfl

/-- The first registered type that has the id of a header says how the header is read. -/
theorem Matches.createBehavior_eq_find (h : Matches properties used entered process)
    (header : BehaviorResponseHeader) :
    process.createBehavior header =
      (entered.find? fun T => (process.getBehaviorTypeId T).1 = header.flagmentTypeId).map fun T =>
        ⟨T, header.behaviorInstanceId, header.subjectId,
          properties.read T header.flagmentPayload default⟩ := by
  have hids : decode (typeIdIn used) entered header.flagmentTypeId =
      entered.find? fun T => (process.getBehaviorTypeId T).1 = header.flagmentTypeId := by
    refine List.find?_congr fun T hT => ?_
    rw [(h.getBehaviorTypeId T).1, typeIdIn_concat_of_mem (h.entered_used T hT)]
  rw [h.createBehavior, hids]

/-- Until the counter has come all the way around, the id of a registered type is its number in
the order of first use. -/
theorem Matches.toBitVec_getBehaviorTypeId (h : Matches properties used entered process)
    (hlength : (firstUses used).length < 2 ^ 32) {T : Flagment} (hT : T ∈ entered) :
    (process.getBehaviorTypeId T).1.toBitVec.toNat = (firstUses used).idxOf T := by
  have hlt := position_lt (h.entered_used T hT)
  rw [(h.getBehaviorTypeId T).1, typeIdIn_concat_of_mem (h.entered_used T hT), typeIdIn,
    Int32.toBitVec_ofNat', BitVec.toNat_ofNat, Nat.mod_eq_of_lt (hlt.trans hlength)]

/-- **Headers name types.**  After every run of a process, as long as its counter has not come all
the way around: `CreateBehavior` makes of a header a behavior of the first registered type that
has the id in the header, and nothing if no type has it; no two registered types have one id; and
a destroy request has the id of none of them. -/
theorem headers_name_types (properties : TaggedProperties Value)
    (events : List (ProcessEvent Value))
    (hlength : (firstUses (uses events)).length < 2 ^ 32) :
    let process := run (step properties) {} events
    (∀ header, process.createBehavior header =
      ((registered events).find? fun T =>
          (process.getBehaviorTypeId T).1 = header.flagmentTypeId).map fun T =>
        ⟨T, header.behaviorInstanceId, header.subjectId,
          properties.read T header.flagmentPayload default⟩) ∧
      (∀ T ∈ registered events, ∀ U ∈ registered events,
        (process.getBehaviorTypeId T).1 = (process.getBehaviorTypeId U).1 → T = U) ∧
      ∀ subjectId syncGroupId response,
        BehaviorResponseHeader.Carries response (destroyBehaviorRequest subjectId syncGroupId) →
          process.createBehavior response = none := by
  intro process
  have h : Matches properties (uses events) (registered events) process :=
    matches_run properties events
  refine ⟨h.createBehavior_eq_find, fun T hT U hU hsame => ?_, ?_⟩
  · have hposition := congrArg (fun id : Int32 => id.toBitVec.toNat) hsame
    simp only [h.toBitVec_getBehaviorTypeId hlength hT,
      h.toBitVec_getBehaviorTypeId hlength hU] at hposition
    exact (position_inj (h.entered_used T hT)).mp hposition
  · intro subjectId syncGroupId response hcarries
    rw [h.createBehavior_eq_find, Option.map_eq_none_iff, List.find?_eq_none]
    intro T hT hid
    -- the id of a destroy request is the last number of the counter's range
    have hlast : (process.getBehaviorTypeId T).1 = destroyBehaviorTypeId :=
      (of_decide_eq_true hid).trans hcarries.2.1
    have hposition := h.toBitVec_getBehaviorTypeId hlength hT
    have hlt := position_lt (h.entered_used T hT)
    rw [hlast, show destroyBehaviorTypeId.toBitVec.toNat = 2 ^ 32 - 1 by decide] at hposition
    omega

end Process

/-! ## Survival -/

/-- Whatever flagment of the type goes into `CreateBehaviorRequest` of the sender comes out
of `CreateBehavior` of the receiver. -/
def Survives (properties : TaggedProperties Value) (sender receiver : Process Value)
    (T : Flagment) : Prop :=
  ∀ (subjectId syncGroupId : Int64) (flagment : Value T) (response : BehaviorResponseHeader),
    response.Carries (sender.createBehaviorRequest properties subjectId syncGroupId flagment).1 →
      receiver.createBehavior response =
        some ⟨T, response.behaviorInstanceId, subjectId, flagment⟩

/-- A type survives when the receiver reads the sender's id of the type as the type.  Any value
of it will do for the one direction; the other rests on the serialisation, which gives the value
back. -/
theorem survives_iff_decode (hround : properties.RoundTrips) {sender receiver : Process Value}
    {sent received sentTypes receivedTypes : List Flagment}
    (hsender : sender.Matches properties sent sentTypes)
    (hreceiver : receiver.Matches properties received receivedTypes) {T : Flagment}
    (hT : T ∈ sent) :
    Survives properties sender receiver T ↔
      decode (typeIdIn received) receivedTypes (typeIdIn sent T) = some T := by
  constructor
  · intro h
    -- the default value is sent, as a response with the id 0
    have hcreate := h 0 0 default
      { sender.createBehaviorRequest properties 0 0 (default : Value T) |>.1 with
        behaviorInstanceId := 0 } ⟨rfl, rfl, rfl⟩
    rw [hreceiver.createBehavior, hsender.createBehaviorRequest hT] at hcreate
    obtain ⟨U, hdecode, hbehavior⟩ := Option.map_eq_some_iff.mp hcreate
    rw [hdecode, show U = T from congrArg HktBehavior.flagmentType hbehavior]
  · intro hdecode subjectId syncGroupId flagment response hcarries
    rw [hsender.createBehaviorRequest hT] at hcarries
    obtain ⟨hsubject, htypeId, hpayload⟩ := hcarries
    rw [hreceiver.createBehavior, htypeId, hdecode, hpayload, hsubject, Option.map_some,
      hround T flagment]

/-- **When flagments survive the wire.**  Of two processes that register the same types,
one reads the flagments of all of them as the other wrote them exactly when every
registered type was first used in the same place in both, up to full turns of the
counter, and no two registered types share a place. -/
theorem flagments_survive_iff (hround : properties.RoundTrips)
    (sender receiver : List (ProcessEvent Value))
    (hsame : ∀ T, T ∈ registered sender ↔ T ∈ registered receiver) :
    (∀ T ∈ registered sender, Survives properties (run (Process.step properties) {} sender)
        (run (Process.step properties) {} receiver) T) ↔
      (∀ T ∈ registered sender,
        position sender T % 2 ^ 32 = position receiver T % 2 ^ 32) ∧
      ∀ T ∈ registered sender, ∀ U ∈ registered sender,
        position receiver T % 2 ^ 32 = position receiver U % 2 ^ 32 → T = U := by
  have hsender := Process.matches_run properties sender
  have hreceiver := Process.matches_run properties receiver
  have hsurvives : ∀ T ∈ registered sender,
      (Survives properties (run (Process.step properties) {} sender)
          (run (Process.step properties) {} receiver) T ↔
        decode (typeIdIn (uses receiver)) (registered receiver) (typeIdIn (uses sender) T) =
          some T) :=
    fun T hT => survives_iff_decode hround hsender hreceiver (hsender.entered_used T hT)
  calc (∀ T ∈ registered sender, Survives properties (run (Process.step properties) {} sender)
          (run (Process.step properties) {} receiver) T)
    _ ↔ ∀ T ∈ registered receiver, decode (typeIdIn (uses receiver)) (registered receiver)
          (typeIdIn (uses sender) T) = some T := by
        constructor
        · intro h T hT
          exact (hsurvives T ((hsame T).mpr hT)).mp (h T ((hsame T).mpr hT))
        · intro h T hT
          exact (hsurvives T hT).mpr (h T ((hsame T).mp hT))
    _ ↔ _ := decode_eq_self_iff
    _ ↔ _ := by
        simp only [Set.EqOn, Set.InjOn, Set.mem_ofPred_eq, ← hsame]
        constructor
        · rintro ⟨heq, hinj⟩
          exact ⟨fun T hT => ofNat_eq_iff.mp (heq hT),
            fun T hT U hU hposition => hinj hT hU (ofNat_eq_iff.mpr hposition)⟩
        · rintro ⟨heq, hinj⟩
          exact ⟨fun T hT => ofNat_eq_iff.mpr (heq T hT),
            fun T hT U hU hcode => hinj T hT U hU (ofNat_eq_iff.mp hcode)⟩

/-! ## Two flagments -/

/-- `FSampleFlagment` and `FJumpFlagment`. -/
inductive SampleOrJump
  | sample
  | jump
  deriving DecidableEq

namespace SampleOrJump

/-- `StrData` as its bytes, and `JumpHeight` as its bits. -/
def Fields : SampleOrJump → Type
  | sample => List UInt8
  | jump => UInt32

instance : (T : SampleOrJump) → Inhabited T.Fields
  | sample => ⟨([] : List UInt8)⟩
  | jump => ⟨(0 : UInt32)⟩

/-- A tag stands before the only property of either struct, and a struct ignores a tag
that is not its own. -/
def tagged : TaggedProperties Fields where
  write
    | sample, strData => (1 : UInt8) :: (strData : List UInt8)
    | jump, jumpHeight => 2 :: writeUInt32 jumpHeight
  read
    | sample, bytes, strData => if bytes.head? = some 1 then bytes.tail else strData
    | jump, bytes, jumpHeight => if bytes.head? = some 2 then readUInt32 bytes 1 else jumpHeight

theorem tagged_roundTrips : tagged.RoundTrips := by
  intro T flagment
  cases T with
  | sample => rfl
  | jump => exact readUInt32_write [2] [] flagment rfl

/-- The registrars run in the order of their declarations. -/
def inOrder : List (ProcessEvent Fields) :=
  [.behaviorRegistrar sample, .behaviorRegistrar jump]

theorem headers_name_types_inOrder :
    (run (Process.step tagged) {} inOrder).createBehavior
        { subjectId := 7, syncGroupId := 1, flagmentTypeId := 1, flagmentPayload := [2, 9, 0, 0, 0]
          behaviorInstanceId := 100 } = some ⟨jump, 100, 7, (9 : UInt32)⟩ ∧
      (run (Process.step tagged) {} inOrder).createBehavior
        { destroyBehaviorRequest 7 1 with behaviorInstanceId := 101 } = none := by
  obtain ⟨hcreate, -, hdestroy⟩ := Process.headers_name_types tagged inOrder (by decide)
  refine ⟨?_, hdestroy 7 1 _ ⟨rfl, rfl, rfl⟩⟩
  rw [hcreate]
  rfl

/-- The id of one type is asked for before the registrars run. -/
def jumpFirst : List (ProcessEvent Fields) :=
  .getBehaviorTypeId jump :: inOrder

/-- Where the registrars come first in both processes, both flagments survive. -/
theorem flagments_survive_inOrder :
    Survives tagged (run (Process.step tagged) {} inOrder)
        (run (Process.step tagged) {} (inOrder ++ [.getBehaviorTypeId jump])) sample ∧
      Survives tagged (run (Process.step tagged) {} inOrder)
        (run (Process.step tagged) {} (inOrder ++ [.getBehaviorTypeId jump])) jump := by
  have hsame : ∀ T, T ∈ registered inOrder ↔
      T ∈ registered (inOrder ++ [.getBehaviorTypeId jump]) := by
    intro T
    cases T <;> decide
  have hall := (flagments_survive_iff tagged_roundTrips inOrder _ hsame).mpr
    ⟨by decide, by decide⟩
  exact ⟨hall sample (by decide), hall jump (by decide)⟩

/-- A process that asks for one of the ids early reads a sample as a jump. -/
theorem sample_read_as_jump :
    tagged.RoundTrips ∧ (∀ T, T ∈ registered inOrder ↔ T ∈ registered jumpFirst) ∧
      ¬ ∀ T ∈ registered inOrder, Survives tagged (run (Process.step tagged) {} inOrder)
        (run (Process.step tagged) {} jumpFirst) T := by
  refine ⟨tagged_roundTrips, by intro T; cases T <;> decide, ?_⟩
  intro h
  have hcreate := h sample (by decide) 7 1 ([72, 105] : List UInt8)
    { subjectId := 7, syncGroupId := 1, flagmentTypeId := 0, flagmentPayload := [1, 72, 105]
      behaviorInstanceId := 100 } (by decide)
  have htype := congrArg (Option.map HktBehavior.flagmentType) hcreate
  exact absurd htype (by decide)

end SampleOrJump

end HktBase.Base
