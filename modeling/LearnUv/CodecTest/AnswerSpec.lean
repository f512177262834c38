import LearnUv.CodecTest.MessageClass

/-!
# What `Answer` means

The records an `Answer` consists of, what reading a record does with it, and the meaning of
its fields, in the order of `QuerySpec`.

An `Answer` has three required fields, an id and two texts, and one repeated field, the
solutions.  Its meaning is a product of five factors, one for each of these and one for the
unknown fields; in the first three the later value wins, and in the last two the values
follow each other.  The generated code tests the bits of the three required fields at once,
with the mask 7, before it looks at any of them, and each with its own mask where it needs
that field.

As in `QuerySpec`, what the functions of the class do is said once for each of them, in terms
of the records or of the meaning, and `Answer.model` collects it.

## Main Definitions

* `Answer.messageClass` — the class
* `Answer.model` — what its functions mean
-/

namespace LearnUv

namespace Protobuf

open Merging (Last)

namespace Answer

/-- The tags of `Answer`. -/
def kindOf (tag : UInt32) : Option Kind :=
  if tag = 8 then some .int64
  else if tag = 18 then some .string
  else if tag = 26 then some .string
  else if tag = 34 then some .string
  else none

variable {rt : Runtime}

/-- What a record does with an `Answer`. -/
def apply (m : Answer rt.UnknownField) : Record rt.UnknownField → Answer rt.UnknownField
  | .int64 tag v => if tag = 8 then m.setId v else m
  | .int32 _ _ => m
  | .string tag s =>
      if tag = 18 then m.setQuestioner s
      else if tag = 26 then m.setAnswerer s
      else if tag = 34 then m.addSolution s
      else m
  | .unknown field => { m with unknownFields_ := m.unknownFields_ ++ [field] }

/-- The cases of the `switch`. -/
def cases (m : Answer rt.UnknownField) (left : List UInt8) :
    List (Case (Answer rt.UnknownField)) :=
  [⟨1, 8, readInto rt.int64 left m.id_ fun id_ => { m.setHasId with id_ }⟩,
    ⟨2, 18, readInto rt.string left m.questioner_
      fun questioner_ => { m.setHasQuestioner with questioner_ }⟩,
    ⟨3, 26, readInto rt.string left m.answerer_
      fun answerer_ => { m.setHasAnswerer with answerer_ }⟩,
    ⟨4, 34, readInto rt.string left [] fun s => { m with solution_ := m.solution_ ++ [s] }⟩]

/-- A turn reads a record. -/
theorem readsField (m : Answer rt.UnknownField) (input : List UInt8) :
    ReadsField rt kindOf apply m (rt.readTag 127 input).1.1 (rt.readTag 127 input).2
      (m.turn rt input) := by
  rcases hread : rt.readTag 127 input with ⟨⟨tag, known⟩, left⟩
  have hturn : m.turn rt input =
      if known then switchOn tag (handleUnusual rt m m.unknownFields_
        (fun unknownFields_ => { m with unknownFields_ }) tag left) (cases m left)
      else handleUnusual rt m m.unknownFields_
        (fun unknownFields_ => { m with unknownFields_ }) tag left := by
    simp only [turn, hread]
    rfl
  have hcases : ∀ c ∈ cases m left, c.Fits ∧
      ReadsField rt kindOf apply m c.tag.toUInt32 left c.turn := by
    refine List.forall_mem_cons.mpr ⟨⟨Case.fits_mk (by decide) (by decide), ?_⟩, ?_⟩
    · exact .int64 _ (show (8 : UInt32) ≠ 0 by decide) rfl fun _ => rfl
    refine List.forall_mem_cons.mpr ⟨⟨Case.fits_mk (by decide) (by decide), ?_⟩, ?_⟩
    · exact .string _ (show (18 : UInt32) ≠ 0 by decide) rfl fun _ => rfl
    refine List.forall_mem_cons.mpr ⟨⟨Case.fits_mk (by decide) (by decide), ?_⟩, ?_⟩
    · exact .string _ (show (26 : UInt32) ≠ 0 by decide) rfl fun _ => rfl
    refine List.forall_mem_singleton.mpr ⟨Case.fits_mk (by decide) (by decide), ?_⟩
    exact .string _ (show (34 : UInt32) ≠ 0 by decide) rfl fun _ => rfl
  have hkind (tag : UInt32) (hne : ∀ c ∈ cases m left, tag ≠ c.tag.toUInt32) :
      kindOf tag = none := by
    obtain ⟨h8, hne⟩ := List.forall_mem_cons.mp hne
    obtain ⟨h18, hne⟩ := List.forall_mem_cons.mp hne
    obtain ⟨h26, hne⟩ := List.forall_mem_cons.mp hne
    have h34 := List.forall_mem_singleton.mp hne
    exact (if_neg h8).trans ((if_neg h18).trans ((if_neg h26).trans (if_neg h34)))
  have hnumbers : ([1, 2, 3, 4] : List UInt32).Nodup := by decide
  rw [← hread]
  exact ReadsField.of_switchOn m.unknownFields_ _ (cases m left) hread hturn hcases hnumbers hkind
    rfl fun _ _ => rfl

/-! ### The invariant -/

/-- Absent fields have their defaults, and there are no other bits than those of the fields. -/
structure WellFormed (m : Answer rt.UnknownField) : Prop where
  bits : m.hasBits_ &&& 7 = m.hasBits_
  id_default : m.hasBits_ &&& 4 = 0 → m.id_ = 0
  questioner_default : m.hasBits_ &&& 1 = 0 → m.questioner_ = []
  answerer_default : m.hasBits_ &&& 2 = 0 → m.answerer_ = []

/-- A call of a function that changes one field. -/
inductive Setter
  | setId (value : Int64)
  | clearId
  | setQuestioner (value : List UInt8)
  | clearQuestioner
  | releaseQuestioner
  | setAllocatedQuestioner (questioner : Option (List UInt8))
  | setAnswerer (value : List UInt8)
  | clearAnswerer
  | releaseAnswerer
  | setAllocatedAnswerer (answerer : Option (List UInt8))
  | addSolution (value : List UInt8)
  /-- An index outside the list is not allowed. -/
  | setSolution (index : ℕ) (value : List UInt8)
  | clearSolution

/-- The call. -/
def set {Field : Type} (m : Answer Field) : Setter → Answer Field
  | .setId value => m.setId value
  | .clearId => m.clearId
  | .setQuestioner value => m.setQuestioner value
  | .clearQuestioner => m.clearQuestioner
  | .releaseQuestioner => m.releaseQuestioner
  | .setAllocatedQuestioner questioner => m.setAllocatedQuestioner questioner
  | .setAnswerer value => m.setAnswerer value
  | .clearAnswerer => m.clearAnswerer
  | .releaseAnswerer => m.releaseAnswerer
  | .setAllocatedAnswerer answerer => m.setAllocatedAnswerer answerer
  | .addSolution value => m.addSolution value
  | .setSolution index value =>
      if h : index < m.solution_.length then m.setSolution ⟨index, h⟩ value else m
  | .clearSolution => m.clearSolution

variable {m source : Answer rt.UnknownField}

/-- A new object: no bit is set, and every field has its default. -/
theorem WellFormed.new : WellFormed (Answer.new : Answer rt.UnknownField) :=
  ⟨UInt32.zero_and, fun _ => rfl, fun _ => rfl, fun _ => rfl⟩

/-- A setter sets the bit of its field, and so its field may have any value. -/
theorem WellFormed.setId (hm : m.WellFormed) (value : Int64) : (m.setId value).WellFormed where
  bits := or_and_eq_self hm.bits rfl
  id_default hzero := absurd hzero (or_and_ne_zero (by decide))
  questioner_default hzero :=
    hm.questioner_default ((or_and_of_disjoint (by decide)).symm.trans hzero)
  answerer_default hzero :=
    hm.answerer_default ((or_and_of_disjoint (by decide)).symm.trans hzero)

/-- Clearing a field clears its bit and gives it its default. -/
theorem WellFormed.clearId (hm : m.WellFormed) : m.clearId.WellFormed where
  bits := and_and_eq_self hm.bits _
  id_default _ := rfl
  questioner_default hzero :=
    hm.questioner_default ((and_and_of_subset (by decide)).symm.trans hzero)
  answerer_default hzero :=
    hm.answerer_default ((and_and_of_subset (by decide)).symm.trans hzero)

/-- The same for the text of the questioner. -/
theorem WellFormed.setQuestioner (hm : m.WellFormed) (value : List UInt8) :
    (m.setQuestioner value).WellFormed where
  bits := or_and_eq_self hm.bits rfl
  id_default hzero := hm.id_default ((or_and_of_disjoint (by decide)).symm.trans hzero)
  questioner_default hzero := absurd hzero (or_and_ne_zero (by decide))
  answerer_default hzero :=
    hm.answerer_default ((or_and_of_disjoint (by decide)).symm.trans hzero)

/-- And for clearing it. -/
theorem WellFormed.clearQuestioner (hm : m.WellFormed) : m.clearQuestioner.WellFormed where
  bits := and_and_eq_self hm.bits _
  id_default hzero := hm.id_default ((and_and_of_subset (by decide)).symm.trans hzero)
  questioner_default _ := rfl
  answerer_default hzero :=
    hm.answerer_default ((and_and_of_subset (by decide)).symm.trans hzero)

/-- The same for the text of the answerer. -/
theorem WellFormed.setAnswerer (hm : m.WellFormed) (value : List UInt8) :
    (m.setAnswerer value).WellFormed where
  bits := or_and_eq_self hm.bits rfl
  id_default hzero := hm.id_default ((or_and_of_disjoint (by decide)).symm.trans hzero)
  questioner_default hzero :=
    hm.questioner_default ((or_and_of_disjoint (by decide)).symm.trans hzero)
  answerer_default hzero := absurd hzero (or_and_ne_zero (by decide))

/-- And for clearing it. -/
theorem WellFormed.clearAnswerer (hm : m.WellFormed) : m.clearAnswerer.WellFormed where
  bits := and_and_eq_self hm.bits _
  id_default hzero := hm.id_default ((and_and_of_subset (by decide)).symm.trans hzero)
  questioner_default hzero :=
    hm.questioner_default ((and_and_of_subset (by decide)).symm.trans hzero)
  answerer_default _ := rfl

/-- The strings of a repeated field are no matter of defaults. -/
theorem WellFormed.withSolution (hm : m.WellFormed) (solution_ : List (List UInt8)) :
    WellFormed { m with solution_ } :=
  ⟨hm.bits, hm.id_default, hm.questioner_default, hm.answerer_default⟩

/-- Nor are the unknown fields. -/
theorem WellFormed.withUnknownFields (hm : m.WellFormed) (unknownFields_ : List rt.UnknownField) :
    WellFormed { m with unknownFields_ } :=
  ⟨hm.bits, hm.id_default, hm.questioner_default, hm.answerer_default⟩

/-- Every call of a public function keeps the invariant. -/
theorem WellFormed.set (hm : m.WellFormed) (call : Setter) : (m.set call).WellFormed := by
  cases call with
  | setId value => exact hm.setId value
  | clearId => exact hm.clearId
  | setQuestioner value => exact hm.setQuestioner value
  | clearQuestioner => exact hm.clearQuestioner
  | releaseQuestioner => exact hm.clearQuestioner
  | setAllocatedQuestioner questioner =>
      cases questioner with
      | none => exact hm.clearQuestioner
      | some questioner => exact hm.setQuestioner questioner
  | setAnswerer value => exact hm.setAnswerer value
  | clearAnswerer => exact hm.clearAnswerer
  | releaseAnswerer => exact hm.clearAnswerer
  | setAllocatedAnswerer answerer =>
      cases answerer with
      | none => exact hm.clearAnswerer
      | some answerer => exact hm.setAnswerer answerer
  | addSolution value => exact hm.withSolution _
  | setSolution index value =>
      rw [Answer.set]
      split
      · exact hm.withSolution _
      · exact hm
  | clearSolution => exact hm.withSolution _

/-- A record sets the field that its tag is for, as a call does. -/
theorem WellFormed.apply (hm : m.WellFormed) (record : Record rt.UnknownField) :
    (m.apply record).WellFormed := by
  cases record with
  | int64 tag v =>
      rw [Answer.apply]
      split
      · exact hm.setId v
      · exact hm
  | int32 tag v => exact hm
  | string tag s =>
      rw [Answer.apply]
      split_ifs
      · exact hm.setQuestioner s
      · exact hm.setAnswerer s
      · exact hm.withSolution _
      · exact hm
  | unknown field => exact hm.withUnknownFields _

/-! ### Whole messages -/

/-- `Clear()` leaves a new message. -/
theorem clear_eq (hm : m.WellFormed) : m.clear = Answer.new := by
  rw [clear, Answer.new]
  by_cases h1 : m.hasBits_ &&& 1 = 0
  · have hq := hm.questioner_default h1
    by_cases h2 : m.hasBits_ &&& 2 = 0
    · simp [and_three_eq_zero_iff, h1, h2, hq, hm.answerer_default h2]
    · simp [and_three_eq_zero_iff, h1, h2, hq]
  · by_cases h2 : m.hasBits_ &&& 2 = 0
    · simp [and_three_eq_zero_iff, h1, h2, hm.answerer_default h2]
    · simp [and_three_eq_zero_iff, h1, h2]

/-- `MergeFrom(from)`, field by field. -/
theorem mergeFrom_eq (m : Answer rt.UnknownField) (hsource : source.WellFormed) :
    m.mergeFrom source =
      { unknownFields_ := m.unknownFields_ ++ source.unknownFields_
        hasBits_ := m.hasBits_ ||| source.hasBits_
        solution_ := m.solution_ ++ source.solution_
        questioner_ := if source.hasBits_ &&& 1 ≠ 0 then source.questioner_ else m.questioner_
        answerer_ := if source.hasBits_ &&& 2 ≠ 0 then source.answerer_ else m.answerer_
        id_ := if source.hasBits_ &&& 4 ≠ 0 then source.id_ else m.id_ } := by
  have hbits := hsource.bits
  by_cases hzero : source.hasBits_ = 0
  · simp [mergeFrom, hzero]
  -- a bit that was copied already is copied again
  have hor {mask : UInt32} (hmask : source.hasBits_ &&& mask = mask) (b : UInt32) :
      b ||| mask ||| source.hasBits_ = b ||| source.hasBits_ := or_or_of_and hmask
  rw [mergeFrom, if_pos (by rwa [hbits])]
  by_cases h1 : source.hasBits_ &&& 1 = 0
  · by_cases h2 : source.hasBits_ &&& 2 = 0
    · by_cases h4 : source.hasBits_ &&& 4 = 0 <;> simp [h1, h2, h4]
    · have hanswerer := hor (and_two_eq h2)
      by_cases h4 : source.hasBits_ &&& 4 = 0 <;>
        simp [h1, h2, h4, setHasAnswerer, hanswerer]
  · have hquestioner := hor (and_one_eq h1)
    by_cases h2 : source.hasBits_ &&& 2 = 0
    · by_cases h4 : source.hasBits_ &&& 4 = 0 <;>
        simp [h1, h2, h4, setHasQuestioner, hquestioner]
    · have hanswerer := hor (and_two_eq h2)
      by_cases h4 : source.hasBits_ &&& 4 = 0 <;>
        simp [h1, h2, h4, setHasQuestioner, setHasAnswerer, hquestioner, hanswerer]

/-- Merging keeps the invariant: a bit is set where one of the two was, and a field that
neither has keeps its default. -/
theorem WellFormed.mergeFrom (hm : m.WellFormed) (hsource : source.WellFormed) :
    (m.mergeFrom source).WellFormed := by
  rw [mergeFrom_eq m hsource]
  exact ⟨or_and_eq_self hm.bits hsource.bits, default_merge hm.id_default,
    default_merge hm.questioner_default, default_merge hm.answerer_default⟩

/-- The unknown fields of both messages are kept, those of the argument last. -/
theorem unknownFields_mergeFrom (m : Answer rt.UnknownField) (hsource : source.WellFormed) :
    (m.mergeFrom source).unknownFields = m.unknownFields ++ source.unknownFields := by
  rw [mergeFrom_eq m hsource]
  rfl

/-- A record adds the field that is not known, if it is one. -/
theorem unknownFields_apply (m : Answer rt.UnknownField) (record : Record rt.UnknownField) :
    (m.apply record).unknownFields = m.unknownFields ++ record.unknownFields := by
  cases record with
  | int64 tag v =>
      rw [apply, Record.unknownFields, List.append_nil]
      split <;> rfl
  | int32 tag v => exact (List.append_nil _).symm
  | string tag s =>
      rw [apply, Record.unknownFields, List.append_nil]
      split_ifs <;> rfl
  | unknown field => rfl

/-- `Answer(from)` is a copy. -/
theorem ofAnswer_eq (hm : m.WellFormed) : ofAnswer m = m := by
  obtain ⟨unknownFields_, hasBits_, solution_, questioner_, answerer_, id_⟩ := m
  have hq := hm.questioner_default
  have ha := hm.answerer_default
  by_cases h1 : hasBits_ &&& 1 = 0 <;> by_cases h2 : hasBits_ &&& 2 = 0 <;>
    simp_all [ofAnswer, hasQuestioner, hasAnswerer]

/-! ### Writing -/

/-- The records of an `Answer`, as it is written. -/
def records (m : Answer rt.UnknownField) : List (Record rt.UnknownField) :=
  (if m.hasBits_ &&& 4 ≠ 0 then [.int64 8 m.id_] else [])
    ++ (if m.hasBits_ &&& 1 ≠ 0 then [.string 18 m.questioner_] else [])
    ++ (if m.hasBits_ &&& 2 ≠ 0 then [.string 26 m.answerer_] else [])
    ++ m.solution_.map (.string 34) ++ m.unknownFields_.map .unknown

/-- `SerializeWithCachedSizes` writes the records one after the other. -/
theorem serialize_eq (m : Answer rt.UnknownField) :
    m.serializeWithCachedSizes rt = (m.records.map (Record.bytes rt)).flatten := by
  simp only [serializeWithCachedSizes, records, List.map_append, List.flatten_append,
    flatten_map_ite, append_ite, List.foldl_append_eq_append, List.nil_append, List.map_map]
  rfl

/-- Written into an array it is the same bytes. -/
theorem toArray_eq {n : ℕ} (m : Answer rt.UnknownField) (array : CharArray n) {target : ℕ}
    (h : target ≤ n) : m.internalSerializeWithCachedSizesToArray rt array target =
      writeToArray array target (m.serializeWithCachedSizes rt) := by
  simp only [internalSerializeWithCachedSizesToArray, serializeWithCachedSizes, append_ite,
    List.foldl_append_eq_append, List.nil_append]
  simp only [List.append_assoc]
  refine ite_writeToArray_bind h fun array target h => ?_
  refine ite_writeToArray_bind h fun array target h => ?_
  refine ite_writeToArray_bind h fun array target h => ?_
  rw [foldlM_writeToArray _ _ array h]
  refine writeToArray_bind fun array target h => ?_
  rfl

/-- The values of all fields can be written. -/
structure Writable (m : Answer rt.UnknownField) : Prop where
  id : m.hasBits_ &&& 4 ≠ 0 → rt.int64.Valid m.id_
  questioner : m.hasBits_ &&& 1 ≠ 0 → rt.string.Valid m.questioner_
  answerer : m.hasBits_ &&& 2 ≠ 0 → rt.string.Valid m.answerer_
  solution : ∀ s ∈ m.solution_, rt.string.Valid s

/-- A new object can be written. -/
theorem Writable.new : Writable (Answer.new : Answer rt.UnknownField) :=
  ⟨fun h => absurd UInt32.zero_and h, fun h => absurd UInt32.zero_and h,
    fun h => absurd UInt32.zero_and h, nofun⟩

/-- `ByteSizeLong` is the number of bytes that are written, as a `size_t`. -/
theorem byteSizeLong_eq (hm : m.Writable) :
    m.byteSizeLong rt = UInt64.ofNat (m.serializeWithCachedSizes rt).length := by
  have hid (h4 : m.hasBits_ &&& 4 ≠ 0) :
      1 + rt.int64.size m.id_ = UInt64.ofNat (writeInt64 rt 1 m.id_).length :=
    one_add_size rt (by decide) (hm.id h4)
  have hquestioner (h1 : m.hasBits_ &&& 1 ≠ 0) :
      1 + rt.string.size m.questioner_ = UInt64.ofNat (writeString rt 2 m.questioner_).length :=
    one_add_size rt (by decide) (hm.questioner h1)
  have hanswerer (h2 : m.hasBits_ &&& 2 ≠ 0) :
      1 + rt.string.size m.answerer_ = UInt64.ofNat (writeString rt 3 m.answerer_).length :=
    one_add_size rt (by decide) (hm.answerer h2)
  have hrequired : (if m.hasBits_ &&& 7 ^^^ 7 = 0 then
        rt.unknownFieldsSize m.unknownFields_ + (1 + rt.string.size m.questioner_)
          + (1 + rt.string.size m.answerer_) + (1 + rt.int64.size m.id_)
      else rt.unknownFieldsSize m.unknownFields_ + m.requiredFieldsByteSizeFallback rt) =
      rt.unknownFieldsSize m.unknownFields_
        + UInt64.ofNat
          (if m.hasBits_ &&& 1 ≠ 0 then writeString rt 2 m.questioner_ else []).length
        + UInt64.ofNat (if m.hasBits_ &&& 2 ≠ 0 then writeString rt 3 m.answerer_ else []).length
        + UInt64.ofNat (if m.hasBits_ &&& 4 ≠ 0 then writeInt64 rt 1 m.id_ else []).length := by
    split
    · next hall =>
        obtain ⟨h1, h2, h4⟩ := (and_seven_eq_iff _).mp (UInt32.xor_eq_zero_iff.mp hall)
        rw [if_pos h1, if_pos h2, if_pos h4, hquestioner h1, hanswerer h2, hid h4]
    · simp only [requiredFieldsByteSizeFallback, hasQuestioner, hasAnswerer, hasId, bne_iff_ne]
      rw [ite_add_size hquestioner, ite_add_size hanswerer, ite_add_size hid, UInt64.zero_add,
        UInt64.add_assoc, UInt64.add_assoc, UInt64.add_assoc]
  have hsolution := foldl_size rt (show makeTag 4 wireTypeLengthDelimited < 128 by decide)
    hm.solution
  simp only [byteSizeLong]
  rw [hrequired, hsolution, rt.unknownFieldsSize_eq]
  simp only [serializeWithCachedSizes, append_ite, List.foldl_append_eq_append, List.nil_append,
    List.length_append, UInt64.ofNat_add]
  ac_rfl

/-! ### The meaning -/

/-- The values of all fields. -/
abbrev Meaning (rt : Runtime) : Type :=
  Last Int64 × Last (List UInt8) × Last (List UInt8) × FreeMonoid (List UInt8) ×
    FreeMonoid rt.UnknownField

/-- The meaning of an `Answer`: the last id, questioner and answerer, all solutions in their
order, and all unknown fields in theirs. -/
def meaning (m : Answer rt.UnknownField) : Meaning rt :=
  (presence m.hasBits_ 4 m.id_, presence m.hasBits_ 1 m.questioner_,
    presence m.hasBits_ 2 m.answerer_, FreeMonoid.ofList m.solution_,
    FreeMonoid.ofList m.unknownFields_)

/-- What a record adds to it. -/
def recordMeaning : Record rt.UnknownField → Meaning rt
  | .int64 tag v => if tag = 8 then (Last.of v, 1, 1, 1, 1) else 1
  | .int32 _ _ => 1
  | .string tag s =>
      if tag = 18 then (1, Last.of s, 1, 1, 1)
      else if tag = 26 then (1, 1, Last.of s, 1, 1)
      else if tag = 34 then (1, 1, 1, FreeMonoid.of s, 1)
      else 1
  | .unknown field => (1, 1, 1, 1, FreeMonoid.of field)

/-- The required field with this tag has a value. -/
def Present (tag : UInt32) (a : Meaning rt) : Prop :=
  tag = 8 ∧ a.1 ≠ 1 ∨ tag = 18 ∧ a.2.1 ≠ 1 ∨ tag = 26 ∧ a.2.2.1 ≠ 1

/-- **A well-formed object is determined by its meaning.** -/
theorem meaning_inj {m' : Answer rt.UnknownField} (hm : m.WellFormed) (hm' : m'.WellFormed)
    (h : meaning m = meaning m') : m = m' := by
  have hid : presence m.hasBits_ 4 m.id_ = presence m'.hasBits_ 4 m'.id_ :=
    congrArg (fun a : Meaning rt => a.1) h
  have hquestioner :
      presence m.hasBits_ 1 m.questioner_ = presence m'.hasBits_ 1 m'.questioner_ :=
    congrArg (fun a : Meaning rt => a.2.1) h
  have hanswerer : presence m.hasBits_ 2 m.answerer_ = presence m'.hasBits_ 2 m'.answerer_ :=
    congrArg (fun a : Meaning rt => a.2.2.1) h
  have hsolution : m.solution_ = m'.solution_ :=
    congrArg (fun a : Meaning rt => a.2.2.2.1) h
  have hunknown : m.unknownFields_ = m'.unknownFields_ :=
    congrArg (fun a : Meaning rt => a.2.2.2.2) h
  obtain ⟨h4, hid⟩ := presence_inj hm.id_default hm'.id_default hid
  obtain ⟨h1, hquestioner⟩ :=
    presence_inj hm.questioner_default hm'.questioner_default hquestioner
  obtain ⟨h2, hanswerer⟩ := presence_inj hm.answerer_default hm'.answerer_default hanswerer
  have hbits : m.hasBits_ = m'.hasBits_ := by
    rw [← hm.bits, ← hm'.bits]
    exact and_seven_congr h1 h2 h4
  cases m
  cases m'
  simp_all

/-- A new object means nothing. -/
theorem meaning_new : meaning (Answer.new : Answer rt.UnknownField) = 1 := by
  simp only [meaning, Answer.new, presence_zero]
  rfl

/-- **Merging is the product of the meanings.** -/
theorem meaning_mergeFrom (m : Answer rt.UnknownField) (hsource : source.WellFormed) :
    meaning (m.mergeFrom source) = meaning m * meaning source := by
  rw [mergeFrom_eq m hsource]
  simp only [meaning, presence_merge, FreeMonoid.ofList_append, Prod.mk_mul_mk]

/-- Setting the id is adding an id. -/
theorem meaning_setId (m : Answer rt.UnknownField) (v : Int64) :
    meaning (m.setId v) = meaning m * (Last.of v, 1, 1, 1, 1) := by
  have hid : presence (m.hasBits_ ||| 4) 4 v = Last.of v := presence_or_self (by decide)
  have hquestioner : presence (m.hasBits_ ||| 4) 1 m.questioner_ =
      presence m.hasBits_ 1 m.questioner_ := presence_congr (or_and_of_disjoint (by decide))
  have hanswerer : presence (m.hasBits_ ||| 4) 2 m.answerer_ =
      presence m.hasBits_ 2 m.answerer_ := presence_congr (or_and_of_disjoint (by decide))
  simp only [meaning, setId, setHasId, hid, hquestioner, hanswerer, Prod.mk_mul_mk, Last.mul_of,
    mul_one]

/-- And likewise for the questioner. -/
theorem meaning_setQuestioner (m : Answer rt.UnknownField) (s : List UInt8) :
    meaning (m.setQuestioner s) = meaning m * (1, Last.of s, 1, 1, 1) := by
  have hid : presence (m.hasBits_ ||| 1) 4 m.id_ = presence m.hasBits_ 4 m.id_ :=
    presence_congr (or_and_of_disjoint (by decide))
  have hquestioner : presence (m.hasBits_ ||| 1) 1 s = Last.of s := presence_or_self (by decide)
  have hanswerer : presence (m.hasBits_ ||| 1) 2 m.answerer_ =
      presence m.hasBits_ 2 m.answerer_ := presence_congr (or_and_of_disjoint (by decide))
  simp only [meaning, setQuestioner, setHasQuestioner, hid, hquestioner, hanswerer,
    Prod.mk_mul_mk, Last.mul_of, mul_one]

/-- And for the answerer. -/
theorem meaning_setAnswerer (m : Answer rt.UnknownField) (s : List UInt8) :
    meaning (m.setAnswerer s) = meaning m * (1, 1, Last.of s, 1, 1) := by
  have hid : presence (m.hasBits_ ||| 2) 4 m.id_ = presence m.hasBits_ 4 m.id_ :=
    presence_congr (or_and_of_disjoint (by decide))
  have hquestioner : presence (m.hasBits_ ||| 2) 1 m.questioner_ =
      presence m.hasBits_ 1 m.questioner_ := presence_congr (or_and_of_disjoint (by decide))
  have hanswerer : presence (m.hasBits_ ||| 2) 2 s = Last.of s := presence_or_self (by decide)
  simp only [meaning, setAnswerer, setHasAnswerer, hid, hquestioner, hanswerer,
    Prod.mk_mul_mk, Last.mul_of, mul_one]

/-- So is reading a record, with what the record means. -/
theorem meaning_apply (m : Answer rt.UnknownField) (record : Record rt.UnknownField) :
    meaning (m.apply record) = meaning m * recordMeaning record := by
  cases record with
  | int64 tag v =>
      rw [apply, recordMeaning]
      split
      · exact meaning_setId m v
      · exact (mul_one _).symm
  | int32 tag v => exact (mul_one _).symm
  | string tag s =>
      rw [apply, recordMeaning]
      split_ifs
      · exact meaning_setQuestioner m s
      · exact meaning_setAnswerer m s
      · simp only [meaning, addSolution, FreeMonoid.ofList_append, FreeMonoid.ofList_singleton,
          Prod.mk_mul_mk, mul_one]
      · exact (mul_one _).symm
  | unknown field =>
      simp only [meaning, apply, recordMeaning, FreeMonoid.ofList_append,
        FreeMonoid.ofList_singleton, Prod.mk_mul_mk, mul_one]

/-- The records of an object mean what the object means. -/
theorem meaning_records (m : Answer rt.UnknownField) :
    (m.records.map recordMeaning).prod = meaning m := by
  have hsolution : (m.solution_.map (recordMeaning ∘ .string 34)).prod =
      ((1, 1, 1, FreeMonoid.ofList m.solution_, 1) : Meaning rt) :=
    prod_map_elements (fun l => (1, 1, 1, FreeMonoid.ofList l, 1)) rfl (fun _ _ => rfl) _
  have hunknown : (m.unknownFields_.map (recordMeaning ∘ .unknown)).prod =
      ((1, 1, 1, 1, FreeMonoid.ofList m.unknownFields_) : Meaning rt) :=
    prod_map_elements (fun l => (1, 1, 1, 1, FreeMonoid.ofList l)) rfl (fun _ _ => rfl) _
  have hid : (if m.hasBits_ &&& 4 ≠ 0 then recordMeaning (.int64 8 m.id_) else 1) =
      ((presence m.hasBits_ 4 m.id_, 1, 1, 1, 1) : Meaning rt) := by
    rw [presence]
    split <;> rfl
  have hquestioner :
      (if m.hasBits_ &&& 1 ≠ 0 then recordMeaning (.string 18 m.questioner_) else 1) =
        ((1, presence m.hasBits_ 1 m.questioner_, 1, 1, 1) : Meaning rt) := by
    rw [presence]
    split <;> rfl
  have hanswerer :
      (if m.hasBits_ &&& 2 ≠ 0 then recordMeaning (.string 26 m.answerer_) else 1) =
        ((1, 1, presence m.hasBits_ 2 m.answerer_, 1, 1) : Meaning rt) := by
    rw [presence]
    split <;> rfl
  simp only [records, List.map_append, List.prod_append, prod_map_ite, List.map_map, hid,
    hquestioner, hanswerer, hsolution, hunknown, Prod.mk_mul_mk, one_mul, mul_one, meaning]

/-- A record changes the field that its tag is for. -/
theorem recordMeaning_id {r : Record rt.UnknownField} (h : r.slot ≠ some 8) :
    (recordMeaning r).1 = 1 := by
  cases r with
  | int64 tag v => rw [recordMeaning, if_neg fun htag => h (congrArg some htag), Prod.fst_one]
  | int32 tag v => rfl
  | string tag s => rw [recordMeaning]; split_ifs <;> rfl
  | unknown field => rfl

/-- Only a record with the tag of the questioner is one. -/
theorem recordMeaning_questioner {r : Record rt.UnknownField} (h : r.slot ≠ some 18) :
    (recordMeaning r).2.1 = 1 := by
  cases r with
  | int64 tag v => rw [recordMeaning]; split_ifs <;> rfl
  | int32 tag v => rfl
  | string tag s =>
      rw [recordMeaning, if_neg fun htag => h (congrArg some htag)]
      split_ifs <;> rfl
  | unknown field => rfl

/-- Only a record with the tag of the answerer is one. -/
theorem recordMeaning_answerer {r : Record rt.UnknownField} (h : r.slot ≠ some 26) :
    (recordMeaning r).2.2.1 = 1 := by
  cases r with
  | int64 tag v => rw [recordMeaning]; split_ifs <;> rfl
  | int32 tag v => rfl
  | string tag s =>
      rw [recordMeaning, if_neg fun htag : tag = 26 => h (congrArg some htag)]
      split_ifs <;> rfl
  | unknown field => rfl

/-- Only a record with the tag of the solutions is one. -/
theorem recordMeaning_solution {r : Record rt.UnknownField} (h : r.slot ≠ some 34) :
    (recordMeaning r).2.2.2.1 = 1 := by
  cases r with
  | int64 tag v => rw [recordMeaning]; split_ifs <;> rfl
  | int32 tag v => rfl
  | string tag s =>
      rw [recordMeaning, if_neg fun htag : tag = 34 => h (congrArg some htag)]
      split_ifs <;> rfl
  | unknown field => rfl

/-- Only a record with a tag the class does not know is an unknown field. -/
theorem recordMeaning_unknown {r : Record rt.UnknownField} (h : r.slot ≠ none) :
    (recordMeaning r).2.2.2.2 = 1 := by
  cases r with
  | int64 tag v => rw [recordMeaning]; split_ifs <;> rfl
  | int32 tag v => rfl
  | string tag s => rw [recordMeaning]; split_ifs <;> rfl
  | unknown field => exact absurd rfl h

/-- Records of different fields do not disturb each other. -/
theorem recordMeaning_comm {r r' : Record rt.UnknownField} (h : r.slot ≠ r'.slot) :
    recordMeaning r * recordMeaning r' = recordMeaning r' * recordMeaning r := by
  have hslot := slot_ne_or_ne h
  refine Prod.ext (Merging.mul_comm_of_eq_one ?_) (Prod.ext (Merging.mul_comm_of_eq_one ?_)
    (Prod.ext (Merging.mul_comm_of_eq_one ?_) (Prod.ext (Merging.mul_comm_of_eq_one ?_)
      (Merging.mul_comm_of_eq_one ?_))))
  · exact (hslot (some 8)).imp recordMeaning_id recordMeaning_id
  · exact (hslot (some 18)).imp recordMeaning_questioner recordMeaning_questioner
  · exact (hslot (some 26)).imp recordMeaning_answerer recordMeaning_answerer
  · exact (hslot (some 34)).imp recordMeaning_solution recordMeaning_solution
  · exact (hslot none).imp recordMeaning_unknown recordMeaning_unknown

/-! ### Required fields -/

/-- `IsInitialized` asks for the three required fields. -/
theorem isInitialized_iff (m : Answer rt.UnknownField) :
    m.isInitialized = true ↔ ∀ tag ∈ [8, 18, 26], Present tag (meaning m) := by
  have hbits : m.isInitialized = true ↔ m.hasBits_ &&& 7 = 7 := by
    rw [isInitialized]
    by_cases h : m.hasBits_ &&& 7 = 7 <;> simp [h]
  rw [hbits, and_seven_eq_iff]
  simp [Present, meaning, presence_ne_one_iff]
  tauto

/-- A required field is there after a merge if it was in one of the two. -/
theorem present_mul {tag : UInt32} {a b : Meaning rt} :
    Present tag (a * b) ↔ Present tag a ∨ Present tag b := by
  simp only [Present, Prod.fst_mul, Prod.snd_mul, ne_eq, Last.mul_eq_one_iff, not_and_or]
  tauto

/-- The records of an `Answer`. -/
theorem typed_cases {r : Record rt.UnknownField} (hr : r.Typed rt kindOf) :
    (∃ v, r = .int64 8 v) ∨ (∃ s, r = .string 18 s) ∨ (∃ s, r = .string 26 s) ∨
      (∃ s, r = .string 34 s) ∨ ∃ field, r = .unknown field := by
  cases r with
  | int64 tag v =>
      have hkind := hr.2.1
      simp only [kindOf] at hkind
      split_ifs at hkind with h8
      · exact Or.inl ⟨v, by rw [h8]⟩
      · cases hkind
      · cases hkind
      · cases hkind
  | int32 tag v =>
      have hkind := hr.2.1
      simp only [kindOf] at hkind
      split_ifs at hkind <;> cases hkind
  | string tag s =>
      have hkind := hr.2.1
      simp only [kindOf] at hkind
      split_ifs at hkind with h8 h18 h26 h34
      · cases hkind
      · exact Or.inr (Or.inl ⟨s, by rw [h18]⟩)
      · exact Or.inr (Or.inr (Or.inl ⟨s, by rw [h26]⟩))
      · exact Or.inr (Or.inr (Or.inr (Or.inl ⟨s, by rw [h34]⟩)))
  | unknown field => exact Or.inr (Or.inr (Or.inr (Or.inr ⟨field, rfl⟩)))

/-- A record brings the required field whose tag it has. -/
theorem present_recordMeaning {tag : UInt32} {r : Record rt.UnknownField}
    (htag : tag ∈ [8, 18, 26]) (hr : r.Typed rt kindOf) :
    Present tag (recordMeaning r) ↔ r.slot = some tag := by
  have htag : tag = 8 ∨ tag = 18 ∨ tag = 26 := by simpa using htag
  rcases typed_cases hr with ⟨v, rfl⟩ | ⟨s, rfl⟩ | ⟨s, rfl⟩ | ⟨s, rfl⟩ | ⟨field, rfl⟩ <;>
    rcases htag with rfl | rfl | rfl <;>
      simp [Present, recordMeaning, Record.slot, Last.of_ne_one]

/-- Reading a record into an object that can be written leaves one that can be written. -/
theorem Writable.apply (hm : m.Writable) {r : Record rt.UnknownField} (hr : r.Typed rt kindOf) :
    (m.apply r).Writable := by
  rcases typed_cases hr with ⟨v, rfl⟩ | ⟨s, rfl⟩ | ⟨s, rfl⟩ | ⟨s, rfl⟩ | ⟨field, rfl⟩
  · refine ⟨fun _ => hr.2.2, fun h => hm.questioner ?_, fun h => hm.answerer ?_, hm.solution⟩
    · rwa [← or_and_of_disjoint (show (4 : UInt32) &&& 1 = 0 by decide)]
    · rwa [← or_and_of_disjoint (show (4 : UInt32) &&& 2 = 0 by decide)]
  · refine ⟨fun h => hm.id ?_, fun _ => hr.2.2, fun h => hm.answerer ?_, hm.solution⟩
    · rwa [← or_and_of_disjoint (show (1 : UInt32) &&& 4 = 0 by decide)]
    · rwa [← or_and_of_disjoint (show (1 : UInt32) &&& 2 = 0 by decide)]
  · refine ⟨fun h => hm.id ?_, fun h => hm.questioner ?_, fun _ => hr.2.2, hm.solution⟩
    · rwa [← or_and_of_disjoint (show (2 : UInt32) &&& 4 = 0 by decide)]
    · rwa [← or_and_of_disjoint (show (2 : UInt32) &&& 1 = 0 by decide)]
  · exact ⟨hm.id, hm.questioner, hm.answerer,
      List.forall_mem_append.mpr ⟨hm.solution, List.forall_mem_singleton.mpr hr.2.2⟩⟩
  · exact ⟨hm.id, hm.questioner, hm.answerer, hm.solution⟩

/-- The records that are written are of the kinds their tags are for, if the unknown fields
are not known. -/
theorem typed_records (hwritable : m.Writable)
    (hunknown : ∀ field ∈ m.unknownFields, rt.IsUnknown kindOf field) :
    ∀ r ∈ m.records, r.Typed rt kindOf := by
  intro r hr
  simp only [records, List.mem_append, List.mem_map] at hr
  rcases hr with (((hr | hr) | hr) | ⟨s, hs, rfl⟩) | ⟨field, hfield, rfl⟩
  · split_ifs at hr with h4
    · rw [List.mem_singleton.mp hr]
      exact ⟨by decide, rfl, hwritable.id h4⟩
    · cases hr
  · split_ifs at hr with h1
    · rw [List.mem_singleton.mp hr]
      exact ⟨by decide, rfl, hwritable.questioner h1⟩
    · cases hr
  · split_ifs at hr with h2
    · rw [List.mem_singleton.mp hr]
      exact ⟨by decide, rfl, hwritable.answerer h2⟩
    · cases hr
  · exact ⟨by decide, rfl, hwritable.solution s hs⟩
  · exact hunknown field hfield

/-! ### The class -/

/-- `"learnuv.Answer"`. -/
def typeName : List UInt8 :=
  [108, 101, 97, 114, 110, 117, 118, 46, 65, 110, 115, 119, 101, 114]

variable (rt)

/-- `class Answer`, as a class of messages. -/
def messageClass : MessageClass rt where
  Obj := Answer rt.UnknownField
  Setter := Setter
  typeName := typeName
  new := new
  set := set
  unknownFields := unknownFields
  mutableUnknownFields := mutableUnknownFields
  clear := clear
  copy := ofAnswer
  mergeFrom := mergeFrom
  copyFrom := copyFrom
  internalSwap := internalSwap
  isInitialized := isInitialized
  loop := recordLoop (turn rt) readsField
  serializeWithCachedSizes := serializeWithCachedSizes rt
  internalSerializeWithCachedSizesToArray := internalSerializeWithCachedSizesToArray rt
  byteSizeLong := byteSizeLong rt

/-- What its functions mean. -/
def model : (messageClass rt).Model where
  kindOf := kindOf
  required := [8, 18, 26]
  apply := apply
  records := records
  WellFormed := WellFormed
  Writable := Writable
  Meaning := Meaning rt
  monoid := inferInstance
  meaning := meaning
  recordMeaning := recordMeaning
  Present := Present
  readsField := readsField
  serialize_eq := serialize_eq
  toArray_eq := toArray_eq
  byteSizeLong_eq := byteSizeLong_eq
  typed_records := typed_records
  wellFormed_new := .new
  wellFormed_set call hm := hm.set call
  wellFormed_mutableUnknownFields fields hm := hm.withUnknownFields fields
  clear_eq := clear_eq
  wellFormed_mergeFrom := .mergeFrom
  wellFormed_apply record hm := hm.apply record
  copy_eq := ofAnswer_eq
  copyFrom_eq _ _ := rfl
  swap_eq _ _ := rfl
  unknownFields_new := rfl
  unknownFields_mergeFrom m _ hsource := unknownFields_mergeFrom m hsource
  unknownFields_apply := unknownFields_apply
  writable_new := .new
  writable_apply hm hr := Writable.apply hm hr
  meaning_inj := meaning_inj
  meaning_new := meaning_new
  meaning_mergeFrom m _ hsource := meaning_mergeFrom m hsource
  meaning_apply := meaning_apply
  meaning_records := meaning_records
  recordMeaning_comm := recordMeaning_comm
  isInitialized_iff := isInitialized_iff
  not_present_one _ := by simp [Present]
  present_mul := present_mul
  present_recordMeaning := present_recordMeaning

end Answer

end Protobuf

end LearnUv
