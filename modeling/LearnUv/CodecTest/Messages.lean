import LearnUv.CodecTest.Runtime
import LearnUv.Library.RecordStream

/-!
# The generated messages

The classes `Query`, `Answer` and `Empty` of `query.pb.h` and `query.pb.cc`.  A field that may
be absent has a bit in `_has_bits_`, and its default value while it is absent.  The members
are below in the order of the source, those of `Answer` and `Empty` behind those of `Query`.

A string is its value: `ArenaStringPtr` is a pointer to it or to the one empty string.
`VerifyUTF8StringNamedField` only prints, and `_cached_size_` is read by the runtime only.

The unknown fields are a list, over a type that the runtime chooses.  `mutable_unknown_fields`
hands out a pointer to them, with which a caller may put any fields there; it is the function
that replaces the list.  Nothing in the classes keeps a caller from putting a field with the
tag of a known one among them.

## Main Definitions

* `Query`, `Answer`, `Empty` — the objects
* `Query.clear`, `Query.mergeFrom`, `Query.copyFrom`, … — what is done with whole messages
* `Query.mergePartialFromCodedStream`, … — the loops that read messages
* `Query.serializeWithCachedSizes`, `Query.internalSerializeWithCachedSizesToArray`,
  `Query.byteSizeLong`, … — writing them, and how long that gets
-/

namespace LearnUv

namespace Protobuf

/-! ## Reading and writing fields -/

/-- `DO_(Read..(input, &field))`, and what is then in the field. -/
def readInto {α M : Type} (p : Primitive α) (input : List UInt8) (before : α) (put : α → M) :
    Turn M UInt8 :=
  let (ok, v, rest) := p.read input before
  .ofBool ok (put v) rest

section Fields

variable (rt : Runtime)

/-- `handle_unusual`, which every message has. -/
def handleUnusual {M : Type} (m : M) (fields : List rt.UnknownField)
    (put : List rt.UnknownField → M) (tag : UInt32) (input : List UInt8) : Turn M UInt8 :=
  if tag = 0 then .done m input
  else
    let (ok, fields, rest) := rt.skipField tag input fields
    .ofBool ok (put fields) rest

/-- `WireFormatLite::WriteInt64(fieldNumber, v, output)`. -/
def writeInt64 (fieldNumber : UInt32) (v : Int64) : List UInt8 :=
  rt.writeTag (makeTag fieldNumber wireTypeVarint) ++ rt.int64.write v

/-- `WireFormatLite::WriteInt32(fieldNumber, v, output)`. -/
def writeInt32 (fieldNumber : UInt32) (v : Int32) : List UInt8 :=
  rt.writeTag (makeTag fieldNumber wireTypeVarint) ++ rt.int32.write v

/-- `WireFormatLite::WriteString(fieldNumber, s, output)`. -/
def writeString (fieldNumber : UInt32) (s : List UInt8) : List UInt8 :=
  rt.writeTag (makeTag fieldNumber wireTypeLengthDelimited) ++ rt.string.write s

/-- `WireFormat::SerializeUnknownFields(fields, output)`. -/
def serializeUnknownFields (fields : List rt.UnknownField) : List UInt8 :=
  (fields.map fun field => rt.writeTag (rt.fieldTag field) ++ rt.fieldBody field).flatten

end Fields

/-- `target = Write..ToArray(.., target)`: `target` points into an array. -/
def writeToArray {n : ℕ} (array : CharArray n) (target : ℕ) (bytes : List UInt8) :
    Exec (CharArray n × ℕ) := do
  let array ← array.store target bytes
  return (array, target + bytes.length)

/-! ## `Query` -/

/-- `class Query`. -/
structure Query (Field : Type) where
  /-- The unknown fields in `_internal_metadata_`. -/
  unknownFields_ : List Field
  hasBits_ : UInt32
  question_ : List (List UInt8)
  questioner_ : List UInt8
  id_ : Int64

namespace Query

section Accessors

variable {Field : Type}

/-- `Query()`. -/
def new : Query Field := ⟨[], 0, [], [], 0⟩

/-- `unknown_fields()`. -/
def unknownFields (m : Query Field) : List Field := m.unknownFields_

/-- `mutable_unknown_fields()`, and what is then put into the set. -/
def mutableUnknownFields (m : Query Field) (unknownFields_ : List Field) : Query Field :=
  { m with unknownFields_ }

def hasId (m : Query Field) : Bool := m.hasBits_ &&& 2 != 0

def setHasId (m : Query Field) : Query Field := { m with hasBits_ := m.hasBits_ ||| 2 }

def clearHasId (m : Query Field) : Query Field := { m with hasBits_ := m.hasBits_ &&& ~~~2 }

def clearId (m : Query Field) : Query Field := clearHasId { m with id_ := 0 }

def setId (m : Query Field) (value : Int64) : Query Field := { m.setHasId with id_ := value }

def hasQuestioner (m : Query Field) : Bool := m.hasBits_ &&& 1 != 0

def setHasQuestioner (m : Query Field) : Query Field :=
  { m with hasBits_ := m.hasBits_ ||| 1 }

def clearHasQuestioner (m : Query Field) : Query Field :=
  { m with hasBits_ := m.hasBits_ &&& ~~~1 }

def clearQuestioner (m : Query Field) : Query Field :=
  clearHasQuestioner { m with questioner_ := [] }

/-- `set_questioner(value)`; also an assignment to `*mutable_questioner()`. -/
def setQuestioner (m : Query Field) (value : List UInt8) : Query Field :=
  { m.setHasQuestioner with questioner_ := value }

/-- `release_questioner()`, without the string that it returns. -/
def releaseQuestioner (m : Query Field) : Query Field :=
  { m.clearHasQuestioner with questioner_ := [] }

/-- `set_allocated_questioner(questioner)`; `none` is `NULL`. -/
def setAllocatedQuestioner (m : Query Field) : Option (List UInt8) → Query Field
  | some questioner => { m.setHasQuestioner with questioner_ := questioner }
  | none => { m.clearHasQuestioner with questioner_ := [] }

/-- `add_question(value)`. -/
def addQuestion (m : Query Field) (value : List UInt8) : Query Field :=
  { m with question_ := m.question_ ++ [value] }

/-- `set_question(index, value)`; also an assignment to `*mutable_question(index)`. -/
def setQuestion (m : Query Field) (index : Fin m.question_.length) (value : List UInt8) :
    Query Field :=
  { m with question_ := m.question_.set index value }

def clearQuestion (m : Query Field) : Query Field := { m with question_ := [] }

/-- `Clear()`. -/
def clear (m : Query Field) : Query Field :=
  let m := { m with question_ := [] }
  let cached_has_bits := m.hasBits_
  let m := if cached_has_bits &&& 1 ≠ 0 then { m with questioner_ := [] } else m
  { m with id_ := 0, hasBits_ := 0, unknownFields_ := [] }

/-- `Query(from)`. -/
def ofQuery (source : Query Field) : Query Field :=
  let m : Query Field := ⟨source.unknownFields_, source.hasBits_, source.question_, [], 0⟩
  let m := if source.hasQuestioner then { m with questioner_ := source.questioner_ } else m
  { m with id_ := source.id_ }

/-- `MergeFrom(from)`. -/
def mergeFrom (m source : Query Field) : Query Field :=
  let m := { m with unknownFields_ := m.unknownFields_ ++ source.unknownFields_ }
  let m := { m with question_ := m.question_ ++ source.question_ }
  let cached_has_bits := source.hasBits_
  if cached_has_bits &&& 3 ≠ 0 then
    let m := if cached_has_bits &&& 1 ≠ 0 then
        { m.setHasQuestioner with questioner_ := source.questioner_ } else m
    let m := if cached_has_bits &&& 2 ≠ 0 then { m with id_ := source.id_ } else m
    { m with hasBits_ := m.hasBits_ ||| cached_has_bits }
  else m

/-- `CopyFrom(from)`, of another object. -/
def copyFrom (m source : Query Field) : Query Field := m.clear.mergeFrom source

/-- `IsInitialized()`. -/
def isInitialized (m : Query Field) : Bool :=
  if m.hasBits_ &&& 3 ≠ 3 then false else true

/-- `InternalSwap(other)`: both objects. -/
def internalSwap (m other : Query Field) : Query Field × Query Field :=
  let (m, other) :=
    ({ m with question_ := other.question_ }, { other with question_ := m.question_ })
  let (m, other) :=
    ({ m with questioner_ := other.questioner_ }, { other with questioner_ := m.questioner_ })
  let (m, other) := ({ m with id_ := other.id_ }, { other with id_ := m.id_ })
  let (m, other) :=
    ({ m with hasBits_ := other.hasBits_ }, { other with hasBits_ := m.hasBits_ })
  ({ m with unknownFields_ := other.unknownFields_ },
    { other with unknownFields_ := m.unknownFields_ })

end Accessors

section Wire

variable (rt : Runtime)

/-- A turn of the loop in `MergePartialFromCodedStream`. -/
def turn (m : Query rt.UnknownField) (input : List UInt8) :
    Turn (Query rt.UnknownField) UInt8 :=
  let ((tag, known), input) := rt.readTag 127 input
  let unusual := handleUnusual rt m m.unknownFields_
    (fun unknownFields_ => { m with unknownFields_ }) tag input
  if known then
    if getTagFieldNumber tag = 1 then
      if tag.toUInt8 = 8 then
        let m := m.setHasId
        readInto rt.int64 input m.id_ fun id_ => { m with id_ }
      else unusual
    else if getTagFieldNumber tag = 2 then
      if tag.toUInt8 = 18 then
        let m := m.setHasQuestioner
        readInto rt.string input m.questioner_ fun questioner_ => { m with questioner_ }
      else unusual
    else if getTagFieldNumber tag = 3 then
      if tag.toUInt8 = 26 then
        readInto rt.string input [] fun s => { m with question_ := m.question_ ++ [s] }
      else unusual
    else unusual
  else unusual

/-- `SerializeWithCachedSizes(output)`: the bytes it writes. -/
def serializeWithCachedSizes (m : Query rt.UnknownField) : List UInt8 :=
  let cached_has_bits := m.hasBits_
  let output := []
  let output := if cached_has_bits &&& 2 ≠ 0 then output ++ writeInt64 rt 1 m.id_ else output
  let output :=
    if cached_has_bits &&& 1 ≠ 0 then output ++ writeString rt 2 m.questioner_ else output
  let output := m.question_.foldl (fun output s => output ++ writeString rt 3 s) output
  output ++ serializeUnknownFields rt m.unknownFields_

/-- `InternalSerializeWithCachedSizesToArray(deterministic, target)`. -/
def internalSerializeWithCachedSizesToArray {n : ℕ} (m : Query rt.UnknownField)
    (array : CharArray n) (target : ℕ) : Exec (CharArray n × ℕ) := do
  let cached_has_bits := m.hasBits_
  let (array, target) ←
    if cached_has_bits &&& 2 ≠ 0 then writeToArray array target (writeInt64 rt 1 m.id_)
    else pure (array, target)
  let (array, target) ←
    if cached_has_bits &&& 1 ≠ 0 then writeToArray array target (writeString rt 2 m.questioner_)
    else pure (array, target)
  let (array, target) ← m.question_.foldlM
    (fun (array, target) s => writeToArray array target (writeString rt 3 s)) (array, target)
  writeToArray array target (serializeUnknownFields rt m.unknownFields_)

/-- `RequiredFieldsByteSizeFallback()`. -/
def requiredFieldsByteSizeFallback (m : Query rt.UnknownField) : UInt64 :=
  let total_size := 0
  let total_size :=
    if m.hasQuestioner then total_size + (1 + rt.string.size m.questioner_) else total_size
  if m.hasId then total_size + (1 + rt.int64.size m.id_) else total_size

/-- `ByteSizeLong()`. -/
def byteSizeLong (m : Query rt.UnknownField) : UInt64 :=
  let total_size := rt.unknownFieldsSize m.unknownFields_
  let total_size :=
    if m.hasBits_ &&& 3 ^^^ 3 = 0 then
      let total_size := total_size + (1 + rt.string.size m.questioner_)
      total_size + (1 + rt.int64.size m.id_)
    else total_size + requiredFieldsByteSizeFallback rt m
  let total_size := total_size + 1 * UInt64.ofNat m.question_.length
  m.question_.foldl (fun total_size s => total_size + rt.string.size s) total_size

end Wire

end Query

/-! ## `Answer` -/

/-- `class Answer`. -/
structure Answer (Field : Type) where
  /-- The unknown fields in `_internal_metadata_`. -/
  unknownFields_ : List Field
  hasBits_ : UInt32
  solution_ : List (List UInt8)
  questioner_ : List UInt8
  answerer_ : List UInt8
  id_ : Int64

namespace Answer

section Accessors

variable {Field : Type}

/-- `Answer()`. -/
def new : Answer Field := ⟨[], 0, [], [], [], 0⟩

/-- `unknown_fields()`. -/
def unknownFields (m : Answer Field) : List Field := m.unknownFields_

/-- `mutable_unknown_fields()`, and what is then put into the set. -/
def mutableUnknownFields (m : Answer Field) (unknownFields_ : List Field) : Answer Field :=
  { m with unknownFields_ }

def hasId (m : Answer Field) : Bool := m.hasBits_ &&& 4 != 0

def setHasId (m : Answer Field) : Answer Field := { m with hasBits_ := m.hasBits_ ||| 4 }

def clearHasId (m : Answer Field) : Answer Field := { m with hasBits_ := m.hasBits_ &&& ~~~4 }

def clearId (m : Answer Field) : Answer Field := clearHasId { m with id_ := 0 }

def setId (m : Answer Field) (value : Int64) : Answer Field := { m.setHasId with id_ := value }

def hasQuestioner (m : Answer Field) : Bool := m.hasBits_ &&& 1 != 0

def setHasQuestioner (m : Answer Field) : Answer Field :=
  { m with hasBits_ := m.hasBits_ ||| 1 }

def clearHasQuestioner (m : Answer Field) : Answer Field :=
  { m with hasBits_ := m.hasBits_ &&& ~~~1 }

def clearQuestioner (m : Answer Field) : Answer Field :=
  clearHasQuestioner { m with questioner_ := [] }

/-- `set_questioner(value)`; also an assignment to `*mutable_questioner()`. -/
def setQuestioner (m : Answer Field) (value : List UInt8) : Answer Field :=
  { m.setHasQuestioner with questioner_ := value }

/-- `release_questioner()`, without the string that it returns. -/
def releaseQuestioner (m : Answer Field) : Answer Field :=
  { m.clearHasQuestioner with questioner_ := [] }

/-- `set_allocated_questioner(questioner)`; `none` is `NULL`. -/
def setAllocatedQuestioner (m : Answer Field) : Option (List UInt8) → Answer Field
  | some questioner => { m.setHasQuestioner with questioner_ := questioner }
  | none => { m.clearHasQuestioner with questioner_ := [] }

def hasAnswerer (m : Answer Field) : Bool := m.hasBits_ &&& 2 != 0

def setHasAnswerer (m : Answer Field) : Answer Field :=
  { m with hasBits_ := m.hasBits_ ||| 2 }

def clearHasAnswerer (m : Answer Field) : Answer Field :=
  { m with hasBits_ := m.hasBits_ &&& ~~~2 }

def clearAnswerer (m : Answer Field) : Answer Field :=
  clearHasAnswerer { m with answerer_ := [] }

/-- `set_answerer(value)`; also an assignment to `*mutable_answerer()`. -/
def setAnswerer (m : Answer Field) (value : List UInt8) : Answer Field :=
  { m.setHasAnswerer with answerer_ := value }

/-- `release_answerer()`, without the string that it returns. -/
def releaseAnswerer (m : Answer Field) : Answer Field :=
  { m.clearHasAnswerer with answerer_ := [] }

/-- `set_allocated_answerer(answerer)`; `none` is `NULL`. -/
def setAllocatedAnswerer (m : Answer Field) : Option (List UInt8) → Answer Field
  | some answerer => { m.setHasAnswerer with answerer_ := answerer }
  | none => { m.clearHasAnswerer with answerer_ := [] }

/-- `add_solution(value)`. -/
def addSolution (m : Answer Field) (value : List UInt8) : Answer Field :=
  { m with solution_ := m.solution_ ++ [value] }

/-- `set_solution(index, value)`; also an assignment to `*mutable_solution(index)`. -/
def setSolution (m : Answer Field) (index : Fin m.solution_.length) (value : List UInt8) :
    Answer Field :=
  { m with solution_ := m.solution_.set index value }

def clearSolution (m : Answer Field) : Answer Field := { m with solution_ := [] }

/-- `Clear()`. -/
def clear (m : Answer Field) : Answer Field :=
  let m := { m with solution_ := [] }
  let cached_has_bits := m.hasBits_
  let m :=
    if cached_has_bits &&& 3 ≠ 0 then
      let m := if cached_has_bits &&& 1 ≠ 0 then { m with questioner_ := [] } else m
      if cached_has_bits &&& 2 ≠ 0 then { m with answerer_ := [] } else m
    else m
  { m with id_ := 0, hasBits_ := 0, unknownFields_ := [] }

/-- `Answer(from)`. -/
def ofAnswer (source : Answer Field) : Answer Field :=
  let m : Answer Field :=
    ⟨source.unknownFields_, source.hasBits_, source.solution_, [], [], 0⟩
  let m := if source.hasQuestioner then { m with questioner_ := source.questioner_ } else m
  let m := if source.hasAnswerer then { m with answerer_ := source.answerer_ } else m
  { m with id_ := source.id_ }

/-- `MergeFrom(from)`. -/
def mergeFrom (m source : Answer Field) : Answer Field :=
  let m := { m with unknownFields_ := m.unknownFields_ ++ source.unknownFields_ }
  let m := { m with solution_ := m.solution_ ++ source.solution_ }
  let cached_has_bits := source.hasBits_
  if cached_has_bits &&& 7 ≠ 0 then
    let m := if cached_has_bits &&& 1 ≠ 0 then
        { m.setHasQuestioner with questioner_ := source.questioner_ } else m
    let m := if cached_has_bits &&& 2 ≠ 0 then
        { m.setHasAnswerer with answerer_ := source.answerer_ } else m
    let m := if cached_has_bits &&& 4 ≠ 0 then { m with id_ := source.id_ } else m
    { m with hasBits_ := m.hasBits_ ||| cached_has_bits }
  else m

/-- `CopyFrom(from)`, of another object. -/
def copyFrom (m source : Answer Field) : Answer Field := m.clear.mergeFrom source

/-- `IsInitialized()`. -/
def isInitialized (m : Answer Field) : Bool :=
  if m.hasBits_ &&& 7 ≠ 7 then false else true

/-- `InternalSwap(other)`: both objects. -/
def internalSwap (m other : Answer Field) : Answer Field × Answer Field :=
  let (m, other) :=
    ({ m with solution_ := other.solution_ }, { other with solution_ := m.solution_ })
  let (m, other) :=
    ({ m with questioner_ := other.questioner_ }, { other with questioner_ := m.questioner_ })
  let (m, other) :=
    ({ m with answerer_ := other.answerer_ }, { other with answerer_ := m.answerer_ })
  let (m, other) := ({ m with id_ := other.id_ }, { other with id_ := m.id_ })
  let (m, other) :=
    ({ m with hasBits_ := other.hasBits_ }, { other with hasBits_ := m.hasBits_ })
  ({ m with unknownFields_ := other.unknownFields_ },
    { other with unknownFields_ := m.unknownFields_ })

end Accessors

section Wire

variable (rt : Runtime)

/-- A turn of the loop in `MergePartialFromCodedStream`. -/
def turn (m : Answer rt.UnknownField) (input : List UInt8) :
    Turn (Answer rt.UnknownField) UInt8 :=
  let ((tag, known), input) := rt.readTag 127 input
  let unusual := handleUnusual rt m m.unknownFields_
    (fun unknownFields_ => { m with unknownFields_ }) tag input
  if known then
    if getTagFieldNumber tag = 1 then
      if tag.toUInt8 = 8 then
        let m := m.setHasId
        readInto rt.int64 input m.id_ fun id_ => { m with id_ }
      else unusual
    else if getTagFieldNumber tag = 2 then
      if tag.toUInt8 = 18 then
        let m := m.setHasQuestioner
        readInto rt.string input m.questioner_ fun questioner_ => { m with questioner_ }
      else unusual
    else if getTagFieldNumber tag = 3 then
      if tag.toUInt8 = 26 then
        let m := m.setHasAnswerer
        readInto rt.string input m.answerer_ fun answerer_ => { m with answerer_ }
      else unusual
    else if getTagFieldNumber tag = 4 then
      if tag.toUInt8 = 34 then
        readInto rt.string input [] fun s => { m with solution_ := m.solution_ ++ [s] }
      else unusual
    else unusual
  else unusual

/-- `SerializeWithCachedSizes(output)`: the bytes it writes. -/
def serializeWithCachedSizes (m : Answer rt.UnknownField) : List UInt8 :=
  let cached_has_bits := m.hasBits_
  let output := []
  let output := if cached_has_bits &&& 4 ≠ 0 then output ++ writeInt64 rt 1 m.id_ else output
  let output :=
    if cached_has_bits &&& 1 ≠ 0 then output ++ writeString rt 2 m.questioner_ else output
  let output :=
    if cached_has_bits &&& 2 ≠ 0 then output ++ writeString rt 3 m.answerer_ else output
  let output := m.solution_.foldl (fun output s => output ++ writeString rt 4 s) output
  output ++ serializeUnknownFields rt m.unknownFields_

/-- `InternalSerializeWithCachedSizesToArray(deterministic, target)`. -/
def internalSerializeWithCachedSizesToArray {n : ℕ} (m : Answer rt.UnknownField)
    (array : CharArray n) (target : ℕ) : Exec (CharArray n × ℕ) := do
  let cached_has_bits := m.hasBits_
  let (array, target) ←
    if cached_has_bits &&& 4 ≠ 0 then writeToArray array target (writeInt64 rt 1 m.id_)
    else pure (array, target)
  let (array, target) ←
    if cached_has_bits &&& 1 ≠ 0 then writeToArray array target (writeString rt 2 m.questioner_)
    else pure (array, target)
  let (array, target) ←
    if cached_has_bits &&& 2 ≠ 0 then writeToArray array target (writeString rt 3 m.answerer_)
    else pure (array, target)
  let (array, target) ← m.solution_.foldlM
    (fun (array, target) s => writeToArray array target (writeString rt 4 s)) (array, target)
  writeToArray array target (serializeUnknownFields rt m.unknownFields_)

/-- `RequiredFieldsByteSizeFallback()`. -/
def requiredFieldsByteSizeFallback (m : Answer rt.UnknownField) : UInt64 :=
  let total_size := 0
  let total_size :=
    if m.hasQuestioner then total_size + (1 + rt.string.size m.questioner_) else total_size
  let total_size :=
    if m.hasAnswerer then total_size + (1 + rt.string.size m.answerer_) else total_size
  if m.hasId then total_size + (1 + rt.int64.size m.id_) else total_size

/-- `ByteSizeLong()`. -/
def byteSizeLong (m : Answer rt.UnknownField) : UInt64 :=
  let total_size := rt.unknownFieldsSize m.unknownFields_
  let total_size :=
    if m.hasBits_ &&& 7 ^^^ 7 = 0 then
      let total_size := total_size + (1 + rt.string.size m.questioner_)
      let total_size := total_size + (1 + rt.string.size m.answerer_)
      total_size + (1 + rt.int64.size m.id_)
    else total_size + requiredFieldsByteSizeFallback rt m
  let total_size := total_size + 1 * UInt64.ofNat m.solution_.length
  m.solution_.foldl (fun total_size s => total_size + rt.string.size s) total_size

end Wire

end Answer

/-! ## `Empty` -/

/-- `class Empty`. -/
structure Empty (Field : Type) where
  /-- The unknown fields in `_internal_metadata_`. -/
  unknownFields_ : List Field
  hasBits_ : UInt32
  id_ : Int32

namespace Empty

section Accessors

variable {Field : Type}

/-- `Empty()`. -/
def new : Empty Field := ⟨[], 0, 0⟩

/-- `unknown_fields()`. -/
def unknownFields (m : Empty Field) : List Field := m.unknownFields_

/-- `mutable_unknown_fields()`, and what is then put into the set. -/
def mutableUnknownFields (m : Empty Field) (unknownFields_ : List Field) : Empty Field :=
  { m with unknownFields_ }

def hasId (m : Empty Field) : Bool := m.hasBits_ &&& 1 != 0

def setHasId (m : Empty Field) : Empty Field := { m with hasBits_ := m.hasBits_ ||| 1 }

def clearHasId (m : Empty Field) : Empty Field := { m with hasBits_ := m.hasBits_ &&& ~~~1 }

def clearId (m : Empty Field) : Empty Field := clearHasId { m with id_ := 0 }

def setId (m : Empty Field) (value : Int32) : Empty Field := { m.setHasId with id_ := value }

/-- `Clear()`. -/
def clear (m : Empty Field) : Empty Field :=
  { m with id_ := 0, hasBits_ := 0, unknownFields_ := [] }

/-- `Empty(from)`. -/
def ofEmpty (source : Empty Field) : Empty Field :=
  let m : Empty Field := ⟨source.unknownFields_, source.hasBits_, 0⟩
  { m with id_ := source.id_ }

/-- `MergeFrom(from)`. -/
def mergeFrom (m source : Empty Field) : Empty Field :=
  let m := { m with unknownFields_ := m.unknownFields_ ++ source.unknownFields_ }
  if source.hasId then m.setId source.id_ else m

/-- `CopyFrom(from)`, of another object. -/
def copyFrom (m source : Empty Field) : Empty Field := m.clear.mergeFrom source

/-- `IsInitialized()`. -/
def isInitialized (_m : Empty Field) : Bool := true

/-- `InternalSwap(other)`: both objects. -/
def internalSwap (m other : Empty Field) : Empty Field × Empty Field :=
  let (m, other) := ({ m with id_ := other.id_ }, { other with id_ := m.id_ })
  let (m, other) :=
    ({ m with hasBits_ := other.hasBits_ }, { other with hasBits_ := m.hasBits_ })
  ({ m with unknownFields_ := other.unknownFields_ },
    { other with unknownFields_ := m.unknownFields_ })

end Accessors

section Wire

variable (rt : Runtime)

/-- A turn of the loop in `MergePartialFromCodedStream`. -/
def turn (m : Empty rt.UnknownField) (input : List UInt8) :
    Turn (Empty rt.UnknownField) UInt8 :=
  let ((tag, known), input) := rt.readTag 127 input
  let unusual := handleUnusual rt m m.unknownFields_
    (fun unknownFields_ => { m with unknownFields_ }) tag input
  if known then
    if getTagFieldNumber tag = 1 then
      if tag.toUInt8 = 8 then
        let m := m.setHasId
        readInto rt.int32 input m.id_ fun id_ => { m with id_ }
      else unusual
    else unusual
  else unusual

/-- `SerializeWithCachedSizes(output)`: the bytes it writes. -/
def serializeWithCachedSizes (m : Empty rt.UnknownField) : List UInt8 :=
  let cached_has_bits := m.hasBits_
  let output := []
  let output := if cached_has_bits &&& 1 ≠ 0 then output ++ writeInt32 rt 1 m.id_ else output
  output ++ serializeUnknownFields rt m.unknownFields_

/-- `InternalSerializeWithCachedSizesToArray(deterministic, target)`. -/
def internalSerializeWithCachedSizesToArray {n : ℕ} (m : Empty rt.UnknownField)
    (array : CharArray n) (target : ℕ) : Exec (CharArray n × ℕ) := do
  let cached_has_bits := m.hasBits_
  let (array, target) ←
    if cached_has_bits &&& 1 ≠ 0 then writeToArray array target (writeInt32 rt 1 m.id_)
    else pure (array, target)
  writeToArray array target (serializeUnknownFields rt m.unknownFields_)

/-- `ByteSizeLong()`. -/
def byteSizeLong (m : Empty rt.UnknownField) : UInt64 :=
  let total_size := rt.unknownFieldsSize m.unknownFields_
  if m.hasId then total_size + (1 + rt.int32.size m.id_) else total_size

end Wire

end Empty

end Protobuf

end LearnUv
