import Mathlib.Algebra.Group.Nat.Defs
import HktBase.Base.Graph
import HktBase.Library.Interning

/-!
# The behavior factory

`CreateBehaviorRequest<T>` puts the bytes of a flagment and the id of its type `T` into a
header, and `CreateBehavior` makes a behavior from a header with the creator that is
registered under the id.  The id comes from `GetBehaviorTypeId<T>`: a static of the
process, set from a counter when the function is called for `T` for the first time.

Flagment types are elements of a type `Flagment`, and `Value T` is the type of their values.
The serialisation of properties that the engine provides is a parameter.

`matches_run` describes the statics of a process by the order in which its types were
used and registered.  `flagments_survive_iff` compares two processes: a flagment made in
one can be read in the other only if both have come to know its type in the same place.

`Matches` is that description as a relation, with one lemma for each function of a process:
`Matches.getBehaviorTypeId` assigns the next place to a type that is used for the first time,
and `Matches.register` enters a creator unless the id has one.  Which of two types gets an id
is left to the library of interned values.
-/

namespace HktBase.Base

open Transition Interning

variable {Flagment : Type} {Value : Flagment → Type}

/-! ## Headers -/

/-- `FHktBehaviorRequestHeader`. -/
structure BehaviorRequestHeader where
  subjectId : Int64
  syncGroupId : Int64
  flagmentTypeId : Int32
  flagmentPayload : List UInt8 := []
  deriving DecidableEq

/-- `FHktBehaviorResponseHeader`. -/
structure BehaviorResponseHeader extends BehaviorRequestHeader where
  behaviorInstanceId : Int64
  deriving DecidableEq

/-- The subject, the type and the payload of a request have come through. -/
def BehaviorResponseHeader.Carries (response : BehaviorResponseHeader)
    (request : BehaviorRequestHeader) : Prop :=
  response.subjectId = request.subjectId ∧ response.flagmentTypeId = request.flagmentTypeId ∧
    response.flagmentPayload = request.flagmentPayload

instance (response : BehaviorResponseHeader) (request : BehaviorRequestHeader) :
    Decidable (response.Carries request) :=
  inferInstanceAs (Decidable (_ ∧ _ ∧ _))

/-- `HktBehaviorHeader::DestroyBehaviorTypeId`. -/
def destroyBehaviorTypeId : Int32 := -1

/-- `DestroyBehaviorRequest`. -/
def destroyBehaviorRequest (subjectId syncGroupId : Int64) : BehaviorRequestHeader where
  subjectId := subjectId
  syncGroupId := syncGroupId
  flagmentTypeId := destroyBehaviorTypeId

/-! ## Serialisation -/

/-- `SerializeTaggedProperties` of every flagment type: what it writes to an archive, and
the struct it leaves behind when it reads from an archive into a given one. -/
structure TaggedProperties (Value : Flagment → Type) where
  write : (T : Flagment) → Value T → List UInt8
  read : (T : Flagment) → List UInt8 → Value T → Value T

namespace TaggedProperties

variable (properties : TaggedProperties Value) [∀ T, Inhabited (Value T)] {T : Flagment}

omit [∀ T, Inhabited (Value T)] in
/-- `SerializeStructToBytes`. -/
def serializeStructToBytes (inStruct : Value T) : List UInt8 :=
  properties.write T inStruct

/-- `DeserializeStructFromBytes`, which reads into a new struct and never fails. -/
def deserializeStructFromBytes (T : Flagment) (inBytes : List UInt8) : Bool × Value T :=
  (true, properties.read T inBytes default)

/-- What was written is read back into a new struct. -/
def RoundTrips : Prop :=
  ∀ (T : Flagment) (flagment : Value T),
    properties.read T (properties.write T flagment) default = flagment

end TaggedProperties

/-! ## Processes -/

/-- `THktBehavior<T>`, with `T`. -/
structure HktBehavior (Value : Flagment → Type) where
  flagmentType : Flagment
  behaviorId : HktId
  subjectId : HktId
  flagment : Value flagmentType

/-- `TCreatorFunc`; `none` is a function that was not set. -/
abbrev CreatorFunc (Value : Flagment → Type) :=
  Option (BehaviorResponseHeader → Option (HktBehavior Value))

/-- The statics of a process. -/
structure Process (Value : Flagment → Type) where
  counter : Int32 := 0
  /-- `Id` of `GetBehaviorTypeId<T>`, once it is set. -/
  typeIds : Flagment → Option Int32 := fun _ => none
  creators : TMap Int32 (CreatorFunc Value) := ∅

namespace Process

variable (properties : TaggedProperties Value) [∀ T, Inhabited (Value T)] [DecidableEq Flagment]

omit [∀ T, Inhabited (Value T)] [DecidableEq Flagment] in
/-- `FBehaviorTypeIdGenerator::GetNextId`. -/
def getNextId (process : Process Value) : Int32 × Process Value :=
  (process.counter, { process with counter := process.counter + 1 })

omit [∀ T, Inhabited (Value T)] in
/-- `GetBehaviorTypeId`. -/
def getBehaviorTypeId (T : Flagment) (process : Process Value) : Int32 × Process Value :=
  match process.typeIds T with
  | some id => (id, process)
  | none =>
      -- the static is initialised when control passes its declaration
      let (id, process) := process.getNextId
      (id, { process with typeIds := Function.update process.typeIds T (some id) })

omit [∀ T, Inhabited (Value T)] [DecidableEq Flagment] in
/-- `Register`. -/
def register (behaviorTypeId : Int32) (func : CreatorFunc Value) (process : Process Value) :
    Process Value :=
  if process.creators.contains behaviorTypeId = true then process
  else { process with creators := process.creators.add behaviorTypeId func }

omit [DecidableEq Flagment] in
/-- `Creator` of `FBehaviorRegistrar`. -/
def creator (T : Flagment) : CreatorFunc Value := some fun header =>
  let (ok, flagment) := properties.deserializeStructFromBytes T header.flagmentPayload
  if ok = false then none
  else some ⟨T, header.behaviorInstanceId, header.subjectId, flagment⟩

/-- The constructor of `FBehaviorRegistrar`. -/
def behaviorRegistrar (T : Flagment) (process : Process Value) : Process Value :=
  let (id, process) := process.getBehaviorTypeId T
  process.register id (creator properties T)

omit [∀ T, Inhabited (Value T)] in
/-- `CreateBehaviorRequest`. -/
def createBehaviorRequest {T : Flagment} (subjectId syncGroupId : Int64)
    (flagmentPayload : Value T) (process : Process Value) :
    BehaviorRequestHeader × Process Value :=
  let (id, process) := process.getBehaviorTypeId T
  ({ subjectId := subjectId, syncGroupId := syncGroupId, flagmentTypeId := id
     flagmentPayload := properties.serializeStructToBytes flagmentPayload }, process)

omit [∀ T, Inhabited (Value T)] [DecidableEq Flagment] in
/-- `CreateBehavior`. -/
def createBehavior (header : BehaviorResponseHeader) (process : Process Value) :
    Option (HktBehavior Value) :=
  match process.creators.find header.flagmentTypeId with
  | some (some creator) => creator header
  | _ => none

end Process

/-! ## Runs -/

/-- What a process does with its statics.  `THktBehavior<T>::GetTypeId` is a use of
`GetBehaviorTypeId<T>`; `CreateBehavior` changes nothing. -/
inductive ProcessEvent (Value : Flagment → Type)
  | getBehaviorTypeId (T : Flagment)
  | behaviorRegistrar (T : Flagment)
  | createBehaviorRequest (T : Flagment) (subjectId syncGroupId : Int64) (flagment : Value T)

/-- The type whose id is asked for. -/
def ProcessEvent.flagmentType : ProcessEvent Value → Flagment
  | .getBehaviorTypeId T => T
  | .behaviorRegistrar T => T
  | .createBehaviorRequest T _ _ _ => T

/-- The type that is registered, if one is. -/
def ProcessEvent.registers : ProcessEvent Value → Option Flagment
  | .behaviorRegistrar T => some T
  | _ => none

/-- The types a process uses, in order and with repetitions. -/
def uses (events : List (ProcessEvent Value)) : List Flagment :=
  events.map ProcessEvent.flagmentType

/-- The types a process registers, in order. -/
def registered (events : List (ProcessEvent Value)) : List Flagment :=
  events.filterMap ProcessEvent.registers

namespace Process

variable (properties : TaggedProperties Value) [∀ T, Inhabited (Value T)] [DecidableEq Flagment]

def step (process : Process Value) : ProcessEvent Value → Process Value
  | .getBehaviorTypeId T => (process.getBehaviorTypeId T).2
  | .behaviorRegistrar T => process.behaviorRegistrar properties T
  | .createBehaviorRequest _ subjectId syncGroupId flagment =>
      (process.createBehaviorRequest properties subjectId syncGroupId flagment).2

end Process

section

variable [DecidableEq Flagment]

/-- The number of types that were used before `T`. -/
def position (events : List (ProcessEvent Value)) (T : Flagment) : ℕ :=
  (firstUses (uses events)).idxOf T

/-- The id of a type whose number in the order of first use is known. -/
def typeIdIn (used : List Flagment) (T : Flagment) : Int32 :=
  Int32.ofNat ((firstUses used).idxOf T)

end

@[simp] theorem uses_concat (before : List (ProcessEvent Value)) (event : ProcessEvent Value) :
    uses (before ++ [event]) = uses before ++ [event.flagmentType] := by
  simp [uses]

theorem registered_concat (before : List (ProcessEvent Value)) (event : ProcessEvent Value) :
    registered (before ++ [event]) = registered before ++ event.registers.toList := by
  rw [registered, List.filterMap_append]
  cases hregisters : event.registers <;> simp [registered, hregisters]

theorem ofNat_eq_iff {m n : ℕ} : Int32.ofNat m = Int32.ofNat n ↔ m % 2 ^ 32 = n % 2 ^ 32 := by
  rw [← Int32.toBitVec_inj, Int32.toBitVec_ofNat', Int32.toBitVec_ofNat', ← BitVec.toNat_inj,
    BitVec.toNat_ofNat, BitVec.toNat_ofNat]

/-! ## What the statics are -/

namespace Process

variable [DecidableEq Flagment]

theorem typeIdIn_concat_of_mem {used : List Flagment} {T : Flagment} (h : T ∈ used)
    (other : Flagment) : typeIdIn (used ++ [other]) T = typeIdIn used T := by
  rw [typeIdIn, firstUses_concat, idxOf_use_of_mem (mem_firstUses.mpr h), typeIdIn]

theorem typeIdIn_concat_self {used : List Flagment} {T : Flagment} (h : T ∉ used) :
    typeIdIn (used ++ [T]) T = Int32.ofNat (firstUses used).length := by
  rw [typeIdIn, firstUses_concat, idxOf_use_self (mt mem_firstUses.mp h)]

/-- The statics after the types `used` were used and the types `entered` registered: the
ids follow the order of first use, and under an id lies the creator of the type that was
registered under it first. -/
structure Matches [∀ T, Inhabited (Value T)] (properties : TaggedProperties Value)
    (used entered : List Flagment) (process : Process Value) : Prop where
  counter : process.counter = Int32.ofNat (firstUses used).length
  typeIds : ∀ T, process.typeIds T = if T ∈ used then some (typeIdIn used T) else none
  entered_used : ∀ T ∈ entered, T ∈ used
  creators : ∀ id,
    process.creators.find id = (decode (typeIdIn used) entered id).map (creator properties)

variable [∀ T, Inhabited (Value T)] {properties : TaggedProperties Value}
  {used entered : List Flagment} {process : Process Value}

theorem matches_init : Matches properties [] [] ({} : Process Value) := by
  refine ⟨rfl, fun T => by simp, by simp, fun id => ?_⟩
  rw [decode_eq_none_iff.mpr (by simp)]
  rfl

omit [∀ T, Inhabited (Value T)] in
/-- What a call of `GetBehaviorTypeId` does: a type that has its id keeps it, and any other
one gets the counter. -/
theorem getBehaviorTypeId_cases (T : Flagment) (process : Process Value) :
    (∃ id, process.typeIds T = some id ∧ process.getBehaviorTypeId T = (id, process)) ∨
      (process.typeIds T = none ∧ process.getBehaviorTypeId T =
        (process.counter, { process with
          counter := process.counter + 1
          typeIds := Function.update process.typeIds T (some process.counter) })) := by
  cases htypeId : process.typeIds T with
  | none => exact Or.inr ⟨rfl, by simp [getBehaviorTypeId, htypeId, getNextId]⟩
  | some id => exact Or.inl ⟨id, rfl, by rw [getBehaviorTypeId, htypeId]⟩

theorem Matches.mem_used_iff (h : Matches properties used entered process) {T : Flagment} :
    T ∈ used ↔ process.typeIds T ≠ none := by
  rw [h.typeIds]
  split
  · next hmem => simp [hmem]
  · next hmem => simp [hmem]

/-- The id of a type is its place among the types in the order of their first uses: a type that
has been used keeps it, and a new one gets the counter. -/
theorem Matches.getBehaviorTypeId (h : Matches properties used entered process) (T : Flagment) :
    (process.getBehaviorTypeId T).1 = typeIdIn (used ++ [T]) T ∧
      Matches properties (used ++ [T]) entered (process.getBehaviorTypeId T).2 := by
  have hcreators : ∀ id, process.creators.find id =
      (decode (typeIdIn (used ++ [T])) entered id).map (creator properties) := by
    intro id
    rw [h.creators]
    congr 1
    apply decode_congr
    exact fun U hU => (typeIdIn_concat_of_mem (h.entered_used U hU) T).symm
  have hentered : ∀ U ∈ entered, U ∈ used ++ [T] := fun U hU =>
    List.mem_append_left _ (h.entered_used U hU)
  rcases getBehaviorTypeId_cases T process with ⟨id, htypeId, hget⟩ | ⟨htypeId, hget⟩
  -- the static of the type has been set: nothing changes
  · have hmem : T ∈ used := h.mem_used_iff.mpr (by simp [htypeId])
    have hid : id = typeIdIn used T := by
      rw [h.typeIds, if_pos hmem] at htypeId
      exact (Option.some.inj htypeId).symm
    rw [hget]
    refine ⟨by rw [hid, typeIdIn_concat_of_mem hmem], ?_, ?_, hentered, hcreators⟩
    · rw [h.counter, firstUses_concat, use_of_mem (mem_firstUses.mpr hmem)]
    · intro U
      have hsame : U ∈ used ++ [T] ↔ U ∈ used := by
        rw [List.mem_append, List.mem_singleton, or_iff_left_of_imp]
        rintro rfl
        exact hmem
      rw [h.typeIds]
      simp only [hsame]
      split
      · next hU => rw [typeIdIn_concat_of_mem hU]
      · rfl
  -- the first use: the counter gives the place behind all types that were used before
  · have hmem : T ∉ used := fun hmem => h.mem_used_iff.mp hmem htypeId
    have hid : process.counter = typeIdIn (used ++ [T]) T := by
      rw [h.counter, typeIdIn_concat_self hmem]
    rw [hget]
    refine ⟨hid, ?_, ?_, hentered, hcreators⟩
    · rw [firstUses_concat, use_of_notMem (mt mem_firstUses.mp hmem), List.length_append,
        List.length_singleton, Int32.ofNat_add, h.counter]
      rfl
    · intro U
      show Function.update process.typeIds T (some process.counter) U = _
      by_cases hU : U = T
      · subst hU
        rw [Function.update_self, if_pos (by simp), hid]
      · rw [Function.update_of_ne hU, h.typeIds]
        simp only [List.mem_append, List.mem_singleton, hU, or_false]
        split
        · next hused => rw [typeIdIn_concat_of_mem hused]
        · rfl

/-- `Register` enters the creator of a type under its id, unless another type is registered
under it: after a full turn of the counter two types share an id, and the first one keeps it. -/
theorem Matches.register (h : Matches properties used entered process) {T : Flagment}
    (hT : T ∈ used) :
    Matches properties used (entered ++ [T])
      (process.register (typeIdIn used T) (creator properties T)) := by
  have hentered : ∀ U ∈ entered ++ [T], U ∈ used := by
    intro U hU
    rcases List.mem_append.mp hU with hU | hU
    · exact h.entered_used U hU
    · rwa [List.mem_singleton.mp hU]
  rw [Process.register]
  split
  · next hcontains =>
      obtain ⟨func, hfind⟩ := SparseMap.contains_iff.mp hcontains
      refine ⟨h.counter, h.typeIds, hentered, fun id => ?_⟩
      rw [h.creators, decode_concat]
      by_cases hid : typeIdIn used T = id
      · -- the id is taken, so that the type is registered under it in vain
        rw [hid, h.creators] at hfind
        obtain ⟨first, hfirst, -⟩ := Option.map_eq_some_iff.mp hfind
        rw [hfirst]
        rfl
      · rw [if_neg hid, Option.or_none]
  · next hcontains =>
      have hnone : decode (typeIdIn used) entered (typeIdIn used T) = none := by
        have hfind : process.creators.find (typeIdIn used T) = none := by
          simpa [SparseMap.contains] using hcontains
        rwa [h.creators, Option.map_eq_none_iff] at hfind
      refine ⟨h.counter, h.typeIds, hentered, fun id => ?_⟩
      rw [SparseMap.find_add, decode_concat]
      by_cases hid : id = typeIdIn used T
      · rw [if_pos hid, if_pos hid.symm, hid, hnone]
        rfl
      · rw [if_neg hid, if_neg (Ne.symm hid), Option.or_none, h.creators]

theorem Matches.step (h : Matches properties used entered process) (event : ProcessEvent Value) :
    Matches properties (used ++ [event.flagmentType]) (entered ++ event.registers.toList)
      (process.step properties event) := by
  cases event with
  | getBehaviorTypeId T =>
      show Matches properties (used ++ [T]) (entered ++ []) _
      rw [List.append_nil]
      exact (h.getBehaviorTypeId T).2
  | behaviorRegistrar T =>
      obtain ⟨hid, hafter⟩ := h.getBehaviorTypeId T
      have hregister := hafter.register (List.mem_append_right used (List.mem_singleton_self T))
      rw [← hid] at hregister
      exact hregister
  | createBehaviorRequest T subjectId syncGroupId flagment =>
      show Matches properties (used ++ [T]) (entered ++ []) _
      rw [List.append_nil]
      exact (h.getBehaviorTypeId T).2

/-- **The statics of a process.**  After every run the ids are the positions in the order
of first use, modulo the range of the counter, and every id has the creator of the type
that was registered under it first. -/
theorem matches_run (properties : TaggedProperties Value) (events : List (ProcessEvent Value)) :
    Matches properties (uses events) (registered events) (run (step properties) {} events) := by
  induction events using List.reverseRecOn with
  | nil => exact matches_init
  | append_singleton before event ih =>
      rw [run_concat, uses_concat, registered_concat]
      exact ih.step event

end Process

end HktBase.Base
