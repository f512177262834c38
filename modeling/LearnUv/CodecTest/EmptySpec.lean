import LearnUv.CodecTest.MessageClass

/-!
# What `Empty` means

The records an `Empty` consists of, what reading a record does with it, and the meaning of its
one field, in the order of `QuerySpec`.

The field is an optional `int32`.  So every `Empty` is initialized, whatever has been read
into it, and the meaning of an `Empty` is a product of two factors: the id that was read
last, if any, and the fields the class does not know.

As in `QuerySpec`, what the functions of the class do is said once for each of them, in terms
of the records or of the meaning, and `Empty.model` collects it.

The class is the smallest case of the argument: with one field there is one bit in
`_has_bits_`, and a record either sets the field or belongs to the unknown ones.

## Main Definitions

* `Empty.messageClass` — the class
* `Empty.model` — what its functions mean
-/

namespace LearnUv

namespace Protobuf

open Merging (Last)

namespace Empty

/-- The tags of `Empty`. -/
def kindOf (tag : UInt32) : Option Kind := if tag = 8 then some .int32 else none

variable {rt : Runtime}

/-- What a record does with an `Empty`. -/
def apply (m : Empty rt.UnknownField) : Record rt.UnknownField → Empty rt.UnknownField
  | .int64 _ _ => m
  | .int32 tag v => if tag = 8 then m.setId v else m
  | .string _ _ => m
  | .unknown field => { m with unknownFields_ := m.unknownFields_ ++ [field] }

/-- The cases of the `switch`. -/
def cases (m : Empty rt.UnknownField) (left : List UInt8) : List (Case (Empty rt.UnknownField)) :=
  [⟨1, 8, readInto rt.int32 left m.id_ fun id_ => { m.setHasId with id_ }⟩]

/-- A turn reads a record. -/
theorem readsField (m : Empty rt.UnknownField) (input : List UInt8) :
    ReadsField rt kindOf apply m (rt.readTag 127 input).1.1 (rt.readTag 127 input).2
      (m.turn rt input) := by
  rcases hread : rt.readTag 127 input with ⟨⟨tag, known⟩, left⟩
  have hturn : m.turn rt input =
      if known then switchOn tag (handleUnusual rt m m.unknownFields_
        (fun unknownFields_ => { m with unknownFields_ }) tag left) (cases m left)
      else handleUnusual rt m m.unknownFields_
        (fun unknownFields_ => { m with unknownFields_ }) tag left := by
    simp only [turn, hread]
    rfl
  have hcases : ∀ c ∈ cases m left, c.Fits ∧
      ReadsField rt kindOf apply m c.tag.toUInt32 left c.turn := by
    refine List.forall_mem_singleton.mpr ⟨Case.fits_mk (by decide) (by decide), ?_⟩
    exact .int32 _ (show (8 : UInt32) ≠ 0 by decide) rfl fun _ => rfl
  have hkind (tag : UInt32) (hne : ∀ c ∈ cases m left, tag ≠ c.tag.toUInt32) :
      kindOf tag = none := by
    have h8 := List.forall_mem_singleton.mp hne
    exact if_neg h8
  have hnumbers : ([1] : List UInt32).Nodup := by decide
  rw [← hread]
  exact ReadsField.of_switchOn m.unknownFields_ _ (cases m left) hread hturn hcases hnumbers hkind
    rfl fun _ _ => rfl

/-! ### The invariant -/

/-- The field has its default while it is absent, and there is no other bit than its own. -/
structure WellFormed (m : Empty rt.UnknownField) : Prop where
  bits : m.hasBits_ &&& 1 = m.hasBits_
  id_default : m.hasBits_ &&& 1 = 0 → m.id_ = 0

/-- A call of a function that changes one field. -/
inductive Setter
  | setId (value : Int32)
  | clearId

/-- The call. -/
def set {Field : Type} (m : Empty Field) : Setter → Empty Field
  | .setId value => m.setId value
  | .clearId => m.clearId

variable {m source : Empty rt.UnknownField}

/-- A new object: no bit is set, and every field has its default. -/
theorem WellFormed.new : WellFormed (Empty.new : Empty rt.UnknownField) :=
  ⟨UInt32.zero_and, fun _ => rfl⟩

/-- The setter sets the bit of the field, and so the field may have any value. -/
theorem WellFormed.setId (hm : m.WellFormed) (value : Int32) : (m.setId value).WellFormed where
  bits := or_and_eq_self hm.bits rfl
  id_default hzero := absurd hzero (or_and_ne_zero (by decide))

/-- Every call of a public function keeps the invariant. -/
theorem WellFormed.set (hm : m.WellFormed) (call : Setter) : (m.set call).WellFormed := by
  cases call with
  | setId value => exact hm.setId value
  | clearId => exact ⟨and_and_eq_self hm.bits _, fun _ => rfl⟩

/-- The unknown fields are no matter of defaults. -/
theorem WellFormed.withUnknownFields (hm : m.WellFormed) (unknownFields_ : List rt.UnknownField) :
    WellFormed { m with unknownFields_ } :=
  ⟨hm.bits, hm.id_default⟩

/-- A record sets the field that its tag is for, as a call does. -/
theorem WellFormed.apply (hm : m.WellFormed) (record : Record rt.UnknownField) :
    (m.apply record).WellFormed := by
  cases record with
  | int64 tag v => exact hm
  | int32 tag v =>
      rw [Empty.apply]
      split
      · exact hm.setId v
      · exact hm
  | string tag s => exact hm
  | unknown field => exact hm.withUnknownFields _

/-! ### Whole messages -/

/-- `MergeFrom(from)`, field by field. -/
theorem mergeFrom_eq (m : Empty rt.UnknownField) (hsource : source.WellFormed) :
    m.mergeFrom source =
      { unknownFields_ := m.unknownFields_ ++ source.unknownFields_
        hasBits_ := m.hasBits_ ||| source.hasBits_
        id_ := if source.hasBits_ &&& 1 ≠ 0 then source.id_ else m.id_ } := by
  have hbits := hsource.bits
  by_cases h1 : source.hasBits_ &&& 1 = 0
  · have hzero : source.hasBits_ = 0 := hbits.symm.trans h1
    simp [mergeFrom, hasId, hzero]
  · have hone : source.hasBits_ = 1 := hbits.symm.trans (and_one_eq h1)
    simp [mergeFrom, hasId, hone, setId, setHasId]

/-- Merging keeps the invariant: a bit is set where one of the two was, and a field that
neither has keeps its default. -/
theorem WellFormed.mergeFrom (hm : m.WellFormed) (hsource : source.WellFormed) :
    (m.mergeFrom source).WellFormed := by
  rw [mergeFrom_eq m hsource]
  exact ⟨or_and_eq_self hm.bits hsource.bits, default_merge hm.id_default⟩

/-- The unknown fields of both messages are kept, those of the argument last. -/
theorem unknownFields_mergeFrom (m : Empty rt.UnknownField) (hsource : source.WellFormed) :
    (m.mergeFrom source).unknownFields = m.unknownFields ++ source.unknownFields := by
  rw [mergeFrom_eq m hsource]
  rfl

/-- A record adds the field that is not known, if it is one. -/
theorem unknownFields_apply (m : Empty rt.UnknownField) (record : Record rt.UnknownField) :
    (m.apply record).unknownFields = m.unknownFields ++ record.unknownFields := by
  cases record with
  | int64 tag v => exact (List.append_nil _).symm
  | int32 tag v =>
      rw [apply, Record.unknownFields, List.append_nil]
      split <;> rfl
  | string tag s => exact (List.append_nil _).symm
  | unknown field => rfl

/-! ### Writing -/

/-- The records of an `Empty`, as it is written. -/
def records (m : Empty rt.UnknownField) : List (Record rt.UnknownField) :=
  (if m.hasBits_ &&& 1 ≠ 0 then [.int32 8 m.id_] else []) ++ m.unknownFields_.map .unknown

/-- `SerializeWithCachedSizes` writes the records one after the other. -/
theorem serialize_eq (m : Empty rt.UnknownField) :
    m.serializeWithCachedSizes rt = (m.records.map (Record.bytes rt)).flatten := by
  simp only [serializeWithCachedSizes, records, List.map_append, List.flatten_append,
    flatten_map_ite, List.nil_append, List.map_map]
  rfl

/-- Written into an array it is the same bytes. -/
theorem toArray_eq {n : ℕ} (m : Empty rt.UnknownField) (array : CharArray n) {target : ℕ}
    (h : target ≤ n) : m.internalSerializeWithCachedSizesToArray rt array target =
      writeToArray array target (m.serializeWithCachedSizes rt) := by
  simp only [internalSerializeWithCachedSizesToArray, serializeWithCachedSizes, List.nil_append]
  refine ite_writeToArray_bind h fun array target h => ?_
  rfl

/-- The value of the field can be written. -/
def Writable (m : Empty rt.UnknownField) : Prop := m.hasBits_ &&& 1 ≠ 0 → rt.int32.Valid m.id_

/-- `ByteSizeLong` is the number of bytes that are written, as a `size_t`. -/
theorem byteSizeLong_eq (hm : m.Writable) :
    m.byteSizeLong rt = UInt64.ofNat (m.serializeWithCachedSizes rt).length := by
  have hid (h1 : m.hasBits_ &&& 1 ≠ 0) :
      1 + rt.int32.size m.id_ = UInt64.ofNat (writeInt32 rt 1 m.id_).length :=
    one_add_size rt (by decide) (hm h1)
  simp only [byteSizeLong, hasId, bne_iff_ne]
  rw [ite_add_size hid, rt.unknownFieldsSize_eq]
  simp only [serializeWithCachedSizes, List.nil_append, List.length_append, UInt64.ofNat_add]
  ac_rfl

/-! ### The meaning -/

/-- The values of all fields. -/
abbrev Meaning (rt : Runtime) : Type := Last Int32 × FreeMonoid rt.UnknownField

/-- The meaning of an `Empty`: the last id, and all unknown fields in their order. -/
def meaning (m : Empty rt.UnknownField) : Meaning rt :=
  (presence m.hasBits_ 1 m.id_, FreeMonoid.ofList m.unknownFields_)

/-- What a record adds to it. -/
def recordMeaning : Record rt.UnknownField → Meaning rt
  | .int64 _ _ => 1
  | .int32 tag v => if tag = 8 then (Last.of v, 1) else 1
  | .string _ _ => 1
  | .unknown field => (1, FreeMonoid.of field)

/-- **A well-formed object is determined by its meaning.** -/
theorem meaning_inj {m' : Empty rt.UnknownField} (hm : m.WellFormed) (hm' : m'.WellFormed)
    (h : meaning m = meaning m') : m = m' := by
  have hid : presence m.hasBits_ 1 m.id_ = presence m'.hasBits_ 1 m'.id_ :=
    congrArg (fun a : Meaning rt => a.1) h
  have hunknown : m.unknownFields_ = m'.unknownFields_ := congrArg (fun a : Meaning rt => a.2) h
  obtain ⟨h1, hid⟩ := presence_inj hm.id_default hm'.id_default hid
  have hbits : m.hasBits_ = m'.hasBits_ := by
    rw [← hm.bits, ← hm'.bits]
    by_cases hzero : m.hasBits_ &&& 1 = 0
    · rw [hzero, h1.mp hzero]
    · rw [and_one_eq hzero, and_one_eq fun hzero' => hzero (h1.mpr hzero')]
  cases m
  cases m'
  simp_all

/-- A new object means nothing. -/
theorem meaning_new : meaning (Empty.new : Empty rt.UnknownField) = 1 := by
  simp only [meaning, Empty.new, presence_zero]
  rfl

/-- **Merging is the product of the meanings.** -/
theorem meaning_mergeFrom (m : Empty rt.UnknownField) (hsource : source.WellFormed) :
    meaning (m.mergeFrom source) = meaning m * meaning source := by
  rw [mergeFrom_eq m hsource]
  simp only [meaning, presence_merge, FreeMonoid.ofList_append, Prod.mk_mul_mk]

/-- So is reading a record, with what the record means. -/
theorem meaning_apply (m : Empty rt.UnknownField) (record : Record rt.UnknownField) :
    meaning (m.apply record) = meaning m * recordMeaning record := by
  cases record with
  | int64 tag v => exact (mul_one _).symm
  | int32 tag v =>
      have hid : presence (m.hasBits_ ||| 1) 1 v = Last.of v := presence_or_self (by decide)
      rw [apply, recordMeaning]
      split
      · simp only [meaning, setId, setHasId, hid, Prod.mk_mul_mk, Last.mul_of, mul_one]
      · exact (mul_one _).symm
  | string tag s => exact (mul_one _).symm
  | unknown field =>
      simp only [meaning, apply, recordMeaning, FreeMonoid.ofList_append,
        FreeMonoid.ofList_singleton, Prod.mk_mul_mk, mul_one]

/-- The records of an object mean what the object means. -/
theorem meaning_records (m : Empty rt.UnknownField) :
    (m.records.map recordMeaning).prod = meaning m := by
  have hunknown : (m.unknownFields_.map (recordMeaning ∘ .unknown)).prod =
      ((1, FreeMonoid.ofList m.unknownFields_) : Meaning rt) :=
    prod_map_elements (fun l => (1, FreeMonoid.ofList l)) rfl (fun _ _ => rfl) _
  have hid : (if m.hasBits_ &&& 1 ≠ 0 then recordMeaning (.int32 8 m.id_) else 1) =
      ((presence m.hasBits_ 1 m.id_, 1) : Meaning rt) := by
    rw [presence]
    split <;> rfl
  simp only [records, List.map_append, List.prod_append, prod_map_ite, List.map_map, hid,
    hunknown, Prod.mk_mul_mk, one_mul, mul_one, meaning]

/-- A record changes the field that its tag is for. -/
theorem recordMeaning_id {r : Record rt.UnknownField} (h : r.slot ≠ some 8) :
    (recordMeaning r).1 = 1 := by
  cases r with
  | int64 tag v => rfl
  | int32 tag v => rw [recordMeaning, if_neg fun htag => h (congrArg some htag), Prod.fst_one]
  | string tag s => rfl
  | unknown field => rfl

/-- Only a record with a tag the class does not know is an unknown field. -/
theorem recordMeaning_unknown {r : Record rt.UnknownField} (h : r.slot ≠ none) :
    (recordMeaning r).2 = 1 := by
  cases r with
  | int64 tag v => rfl
  | int32 tag v => rw [recordMeaning]; split_ifs <;> rfl
  | string tag s => rfl
  | unknown field => exact absurd rfl h

/-- Records of different fields do not disturb each other. -/
theorem recordMeaning_comm {r r' : Record rt.UnknownField} (h : r.slot ≠ r'.slot) :
    recordMeaning r * recordMeaning r' = recordMeaning r' * recordMeaning r := by
  have hslot := slot_ne_or_ne h
  refine Prod.ext (Merging.mul_comm_of_eq_one ?_) (Merging.mul_comm_of_eq_one ?_)
  · exact (hslot (some 8)).imp recordMeaning_id recordMeaning_id
  · exact (hslot none).imp recordMeaning_unknown recordMeaning_unknown

/-- The records of an `Empty`. -/
theorem typed_cases {r : Record rt.UnknownField} (hr : r.Typed rt kindOf) :
    (∃ v, r = .int32 8 v) ∨ ∃ field, r = .unknown field := by
  cases r with
  | int64 tag v =>
      have hkind := hr.2.1
      simp only [kindOf] at hkind
      split_ifs at hkind
      cases hkind
  | int32 tag v =>
      have hkind := hr.2.1
      simp only [kindOf] at hkind
      split_ifs at hkind with h8
      exact Or.inl ⟨v, by rw [h8]⟩
  | string tag s =>
      have hkind := hr.2.1
      simp only [kindOf] at hkind
      split_ifs at hkind
      cases hkind
  | unknown field => exact Or.inr ⟨field, rfl⟩

/-- Reading a record into an object that can be written leaves one that can be written. -/
theorem Writable.apply (hm : m.Writable) {r : Record rt.UnknownField} (hr : r.Typed rt kindOf) :
    (m.apply r).Writable := by
  rcases typed_cases hr with ⟨v, rfl⟩ | ⟨field, rfl⟩
  · exact fun _ => hr.2.2
  · exact hm

/-- The records that are written are of the kinds their tags are for, if the unknown fields
are not known. -/
theorem typed_records (hwritable : m.Writable)
    (hunknown : ∀ field ∈ m.unknownFields, rt.IsUnknown kindOf field) :
    ∀ r ∈ m.records, r.Typed rt kindOf := by
  intro r hr
  simp only [records, List.mem_append, List.mem_map] at hr
  rcases hr with hr | ⟨field, hfield, rfl⟩
  · split_ifs at hr with h1
    · rw [List.mem_singleton.mp hr]
      exact ⟨by decide, rfl, hwritable h1⟩
    · cases hr
  · exact hunknown field hfield

/-! ### The class -/

/-- `"learnuv.Empty"`. -/
def typeName : List UInt8 := [108, 101, 97, 114, 110, 117, 118, 46, 69, 109, 112, 116, 121]

variable (rt)

/-- `class Empty`, as a class of messages. -/
def messageClass : MessageClass rt where
  Obj := Empty rt.UnknownField
  Setter := Setter
  typeName := typeName
  new := new
  set := set
  unknownFields := unknownFields
  mutableUnknownFields := mutableUnknownFields
  clear := clear
  copy := ofEmpty
  mergeFrom := mergeFrom
  copyFrom := copyFrom
  internalSwap := internalSwap
  isInitialized := isInitialized
  loop := recordLoop (turn rt) readsField
  serializeWithCachedSizes := serializeWithCachedSizes rt
  internalSerializeWithCachedSizesToArray := internalSerializeWithCachedSizesToArray rt
  byteSizeLong := byteSizeLong rt

/-- What its functions mean. -/
def model : (messageClass rt).Model where
  kindOf := kindOf
  required := []
  apply := apply
  records := records
  WellFormed := WellFormed
  Writable := Writable
  Meaning := Meaning rt
  monoid := inferInstance
  meaning := meaning
  recordMeaning := recordMeaning
  Present _ _ := False
  readsField := readsField
  serialize_eq := serialize_eq
  toArray_eq := toArray_eq
  byteSizeLong_eq := byteSizeLong_eq
  typed_records := typed_records
  wellFormed_new := .new
  wellFormed_set call hm := hm.set call
  wellFormed_mutableUnknownFields fields hm := hm.withUnknownFields fields
  clear_eq _ := rfl
  wellFormed_mergeFrom := .mergeFrom
  wellFormed_apply record hm := hm.apply record
  copy_eq _ := rfl
  copyFrom_eq _ _ := rfl
  swap_eq _ _ := rfl
  unknownFields_new := rfl
  unknownFields_mergeFrom m _ hsource := unknownFields_mergeFrom m hsource
  unknownFields_apply := unknownFields_apply
  writable_new h := absurd UInt32.zero_and h
  writable_apply hm hr := Writable.apply hm hr
  meaning_inj := meaning_inj
  meaning_new := meaning_new
  meaning_mergeFrom m _ hsource := meaning_mergeFrom m hsource
  meaning_apply := meaning_apply
  meaning_records := meaning_records
  recordMeaning_comm := recordMeaning_comm
  isInitialized_iff _ := by simp [messageClass, isInitialized]
  not_present_one _ := not_false
  present_mul := (or_self_iff).symm
  present_recordMeaning htag := nomatch htag

end Empty

end Protobuf

end LearnUv
