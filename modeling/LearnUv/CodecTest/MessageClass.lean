import LearnUv.CodecTest.Fields
import Mathlib.Algebra.BigOperators.Group.List.Basic

/-!
# Classes of messages

What the generated classes have in common.  A message means the values of its fields, and
these are merged part by part: `MergeFrom` is the product of the meanings, and so is reading
records into a message.  Values that may be absent, lists of strings and the unknown fields
each form a monoid, and so do their tuples; what the functions do with a message becomes a
product there, and what is said of reading follows from the laws of a monoid.

Everything that is said here of a class follows from what its functions do with one record
or one message.  A `Model` collects that, and is given for each of the classes; what holds of
whole inputs, and of all that a program can make, is then proved once for all of them.

## Unknown fields

A message keeps the fields that it does not know, and writes them behind its own.  Those that
it has read itself are read back.  But `mutable_unknown_fields()` lets a program put any field
there, also one with a tag that the message knows: it is written as it is, and read as the
field that it looks like.  `UnknownOnly` says that there is no such field.  What is built need
not satisfy it, so it is a condition where something is written and read back, and it is shown
that reading never violates it.

## Main Definitions

* `MessageClass` — the functions of a generated class
* `MessageClass.Built` — the objects a program can make with them
* `MessageClass.Model` — what the functions mean
* `MessageClass.Model.UnknownOnly` — the unknown fields are not known

## Main Results

* `Model.wellFormed_of_built` — what is built is well-formed
* `Model.unknownOnly_run_iff` — reading adds no field that is known to the unknown ones
* `Model.run_serialize` — reading what was written is merging
* `Model.run_eq_merge` — so is reading anything else, as far as it can be read
-/

namespace LearnUv

namespace Protobuf

/-- The functions of a generated class. -/
structure MessageClass (rt : Runtime) where
  Obj : Type
  /-- A call of a function that changes one field. -/
  Setter : Type
  /-- `GetTypeName()`. -/
  typeName : List UInt8
  new : Obj
  set : Obj → Setter → Obj
  /-- `unknown_fields()`. -/
  unknownFields : Obj → List rt.UnknownField
  /-- `mutable_unknown_fields()`, and what is then put into the set. -/
  mutableUnknownFields : Obj → List rt.UnknownField → Obj
  clear : Obj → Obj
  /-- The copy constructor. -/
  copy : Obj → Obj
  mergeFrom : Obj → Obj → Obj
  copyFrom : Obj → Obj → Obj
  internalSwap : Obj → Obj → Obj × Obj
  isInitialized : Obj → Bool
  /-- The loop in `MergePartialFromCodedStream`. -/
  loop : RecordLoop Obj UInt8
  serializeWithCachedSizes : Obj → List UInt8
  internalSerializeWithCachedSizesToArray : ∀ {n : ℕ}, Obj → CharArray n → ℕ →
    Exec (CharArray n × ℕ)
  byteSizeLong : Obj → UInt64

namespace MessageClass

variable {rt : Runtime}

/-- `MergePartialFromCodedStream(input)`: what it returns, the message, and what is left of
the input. -/
def mergePartialFromCodedStream (C : MessageClass rt) (m : C.Obj) (input : List UInt8) :
    Bool × C.Obj × List UInt8 :=
  C.loop.run m input

/-- The objects a program can make with the functions of the class. -/
inductive Built (C : MessageClass rt) : C.Obj → Prop
  | new : Built C C.new
  | set {m : C.Obj} (call : C.Setter) : Built C m → Built C (C.set m call)
  /-- The fields may be of any kind, and those of the message among them. -/
  | mutableUnknownFields {m : C.Obj} (fields : List rt.UnknownField) : Built C m →
      Built C (C.mutableUnknownFields m fields)
  | clear {m : C.Obj} : Built C m → Built C (C.clear m)
  | copy {m : C.Obj} : Built C m → Built C (C.copy m)
  | mergeFrom {m source : C.Obj} : Built C m → Built C source → Built C (C.mergeFrom m source)
  | copyFrom {m source : C.Obj} : Built C m → Built C source → Built C (C.copyFrom m source)
  | swap_left {m other : C.Obj} : Built C m → Built C other →
      Built C (C.internalSwap m other).1
  | swap_right {m other : C.Obj} : Built C m → Built C other →
      Built C (C.internalSwap m other).2
  /-- Whether it succeeds or not. -/
  | merge {m : C.Obj} (input : List UInt8) : Built C m →
      Built C (C.mergePartialFromCodedStream m input).2.1

/-- What the functions of a class mean. -/
structure Model (C : MessageClass rt) where
  /-- What is behind the tags that the class knows. -/
  kindOf : UInt32 → Option Kind
  /-- The tags of its required fields. -/
  required : List UInt32
  /-- What a record does with a message. -/
  apply : C.Obj → Record rt.UnknownField → C.Obj
  /-- The records a message consists of. -/
  records : C.Obj → List (Record rt.UnknownField)
  /-- Absent fields have their defaults. -/
  WellFormed : C.Obj → Prop
  /-- The values of all fields can be written. -/
  Writable : C.Obj → Prop
  /-- The values of all fields. -/
  Meaning : Type
  monoid : Monoid Meaning
  meaning : C.Obj → Meaning
  recordMeaning : Record rt.UnknownField → Meaning
  /-- The field with this tag has a value. -/
  Present : UInt32 → Meaning → Prop
  -- reading
  readsField : ∀ m input, ReadsField rt kindOf apply m (rt.readTag 127 input).1.1
    (rt.readTag 127 input).2 (C.loop.turn m input)
  -- writing
  serialize_eq : ∀ m, C.serializeWithCachedSizes m =
    ((records m).map (Record.bytes rt)).flatten
  toArray_eq : ∀ {n : ℕ} (m : C.Obj) (array : CharArray n) {target : ℕ}, target ≤ n →
    C.internalSerializeWithCachedSizesToArray m array target =
      writeToArray array target (C.serializeWithCachedSizes m)
  byteSizeLong_eq : ∀ {m}, Writable m →
    C.byteSizeLong m = UInt64.ofNat (C.serializeWithCachedSizes m).length
  typed_records : ∀ {m}, Writable m → (∀ field ∈ C.unknownFields m, rt.IsUnknown kindOf field) →
    ∀ r ∈ records m, r.Typed rt kindOf
  -- the invariant
  wellFormed_new : WellFormed C.new
  wellFormed_set : ∀ {m} (call : C.Setter), WellFormed m → WellFormed (C.set m call)
  wellFormed_mutableUnknownFields : ∀ {m} (fields : List rt.UnknownField), WellFormed m →
    WellFormed (C.mutableUnknownFields m fields)
  clear_eq : ∀ {m}, WellFormed m → C.clear m = C.new
  wellFormed_mergeFrom : ∀ {m source}, WellFormed m → WellFormed source →
    WellFormed (C.mergeFrom m source)
  wellFormed_apply : ∀ {m} record, WellFormed m → WellFormed (apply m record)
  copy_eq : ∀ {m}, WellFormed m → C.copy m = m
  copyFrom_eq : ∀ m source, C.copyFrom m source = C.mergeFrom (C.clear m) source
  swap_eq : ∀ m other, C.internalSwap m other = (other, m)
  -- the unknown fields
  unknownFields_new : C.unknownFields C.new = []
  unknownFields_mergeFrom : ∀ m {source}, WellFormed source →
    C.unknownFields (C.mergeFrom m source) = C.unknownFields m ++ C.unknownFields source
  unknownFields_apply : ∀ m r, C.unknownFields (apply m r) = C.unknownFields m ++ r.unknownFields
  writable_new : Writable C.new
  writable_apply : ∀ {m r}, Writable m → r.Typed rt kindOf → Writable (apply m r)
  -- the meaning
  meaning_inj : ∀ {m m'}, WellFormed m → WellFormed m' → meaning m = meaning m' → m = m'
  meaning_new : meaning C.new = 1
  meaning_mergeFrom : ∀ m {source}, WellFormed source →
    meaning (C.mergeFrom m source) = meaning m * meaning source
  meaning_apply : ∀ m r, meaning (apply m r) = meaning m * recordMeaning r
  meaning_records : ∀ m, ((records m).map recordMeaning).prod = meaning m
  recordMeaning_comm : ∀ {r r' : Record rt.UnknownField}, r.slot ≠ r'.slot →
    recordMeaning r * recordMeaning r' = recordMeaning r' * recordMeaning r
  isInitialized_iff : ∀ m, C.isInitialized m = true ↔ ∀ tag ∈ required, Present tag (meaning m)
  not_present_one : ∀ tag, ¬Present tag 1
  present_mul : ∀ {tag a b}, Present tag (a * b) ↔ Present tag a ∨ Present tag b
  present_recordMeaning : ∀ {tag} {r : Record rt.UnknownField}, tag ∈ required →
    r.Typed rt kindOf → (Present tag (recordMeaning r) ↔ r.slot = some tag)

attribute [instance] Model.monoid

namespace Model

variable {C : MessageClass rt} (M : C.Model) {m m' source t : C.Obj} {input rest : List UInt8}

/-- The records of an input. -/
abbrev inputRecords (input : List UInt8) : List (Record rt.UnknownField) :=
  ((rt.decoder M.kindOf).drain input).1

/-- The unknown fields are not known, and can be written. -/
def UnknownOnly (m : C.Obj) : Prop := ∀ field ∈ C.unknownFields m, rt.IsUnknown M.kindOf field

/-! ## The invariant -/

variable {M}

/-- A turn of the loop goes on where there is a record, and applies it. -/

theorem follows (M : C.Model) : C.loop.Follows (rt.decoder M.kindOf) M.apply where
  more hnext := (M.readsField _ _).eq_more_iff.mpr ⟨_, hnext, rfl⟩
  stuck hnext hmore := by
    obtain ⟨record, hsome, -⟩ := (M.readsField _ _).eq_more_iff.mp hmore
    have hnone : rt.next M.kindOf _ = none := hnext
    rw [hsome] at hnone
    cases hnone

theorem turn_of_zero (M : C.Model) (m : C.Obj) (htag : (rt.readTag 127 input).1.1 = 0) :
    C.loop.turn m input = .done m (rt.readTag 127 input).2 :=
  (M.readsField m input).eq_done htag

/-- What every record of its kind keeps, a list of such records keeps. -/
theorem foldl_apply_induction {P : C.Obj → Prop}
    (hstep : ∀ {m r}, P m → r.Typed rt M.kindOf → P (M.apply m r))
    {records : List (Record rt.UnknownField)} (hrecords : ∀ r ∈ records, r.Typed rt M.kindOf)
    (hm : P m) : P (records.foldl M.apply m) := by
  induction records generalizing m with
  | nil => exact hm
  | cons r records ih =>
      exact ih (fun r' hr' => hrecords r' (List.mem_cons_of_mem _ hr'))
        (hstep hm (hrecords r List.mem_cons_self))

theorem wellFormed_foldl (records : List (Record rt.UnknownField)) (hm : M.WellFormed m) :
    M.WellFormed (records.foldl M.apply m) := by
  induction records generalizing m with
  | nil => exact hm
  | cons r records ih => exact ih (M.wellFormed_apply r hm)

theorem writable_foldl {records : List (Record rt.UnknownField)} (hm : M.Writable m)
    (hrecords : ∀ r ∈ records, r.Typed rt M.kindOf) : M.Writable (records.foldl M.apply m) :=
  foldl_apply_induction M.writable_apply hrecords hm

/-- Reading keeps the invariant, whether it succeeds or not. -/
theorem wellFormed_run (input : List UInt8) (hm : M.WellFormed m) :
    M.WellFormed (C.mergePartialFromCodedStream m input).2.1 :=
  RecordLoop.run_induction
    (fun _ _ hs => (M.readsField _ _).state_induction hs fun h _ => M.wellFormed_apply _ h) hm
    input

/-- **What is built is well-formed.** -/
theorem wellFormed_of_built (hm : C.Built m) : M.WellFormed m := by
  induction hm with
  | new => exact M.wellFormed_new
  | set call _ ih => exact M.wellFormed_set call ih
  | mutableUnknownFields fields _ ih => exact M.wellFormed_mutableUnknownFields fields ih
  | clear _ ih =>
      rw [M.clear_eq ih]
      exact M.wellFormed_new
  | copy _ ih =>
      rw [M.copy_eq ih]
      exact ih
  | mergeFrom _ _ ih ih' => exact M.wellFormed_mergeFrom ih ih'
  | copyFrom _ _ ih ih' =>
      rw [M.copyFrom_eq, M.clear_eq ih]
      exact M.wellFormed_mergeFrom M.wellFormed_new ih'
  | swap_left _ _ ih ih' =>
      rw [M.swap_eq]
      exact ih'
  | swap_right _ _ ih ih' =>
      rw [M.swap_eq]
      exact ih
  | merge input _ ih => exact wellFormed_run input ih

/-! ## The unknown fields -/

theorem unknownOnly_new (M : C.Model) : M.UnknownOnly C.new := by
  rw [UnknownOnly, M.unknownFields_new]
  nofun

/-- Merging puts the unknown fields of both messages together. -/
theorem unknownOnly_mergeFrom_iff (hsource : M.WellFormed source) :
    M.UnknownOnly (C.mergeFrom m source) ↔ M.UnknownOnly m ∧ M.UnknownOnly source := by
  rw [UnknownOnly, M.unknownFields_mergeFrom m hsource]
  exact List.forall_mem_append

/-- Reading adds fields that are not known, whether it succeeds or not. -/
theorem exists_unknownFields_run (M : C.Model) (m : C.Obj) (input : List UInt8) :
    ∃ added, C.unknownFields (C.mergePartialFromCodedStream m input).2.1 =
        C.unknownFields m ++ added ∧ ∀ field ∈ added, rt.IsUnknown M.kindOf field := by
  let P (s : C.Obj) : Prop := ∃ added, C.unknownFields s = C.unknownFields m ++ added ∧
    ∀ field ∈ added, rt.IsUnknown M.kindOf field
  refine RecordLoop.run_induction (P := P) (fun s left hs => ?_)
    ⟨[], (List.append_nil _).symm, nofun⟩ input
  refine (M.readsField s left).state_induction (P := P) hs ?_
  rintro t record ⟨added, ht, hadded⟩ hrecord
  refine ⟨added ++ record.unknownFields, ?_, List.forall_mem_append.mpr ⟨hadded, hrecord⟩⟩
  rw [M.unknownFields_apply, ht, List.append_assoc]

/-- **Reading adds no field that is known** to the unknown ones. -/
theorem unknownOnly_run_iff (input : List UInt8) :
    M.UnknownOnly (C.mergePartialFromCodedStream m input).2.1 ↔ M.UnknownOnly m := by
  obtain ⟨added, hfields, hadded⟩ := M.exists_unknownFields_run m input
  rw [UnknownOnly, hfields, List.forall_mem_append]
  exact and_iff_left hadded

/-! ## Merging -/

/-- Records are applied by multiplying with what they mean. -/
theorem meaning_foldl (records : List (Record rt.UnknownField)) (m : C.Obj) :
    M.meaning (records.foldl M.apply m) =
      M.meaning m * (records.map M.recordMeaning).prod := by
  induction records generalizing m with
  | nil => rw [List.foldl_nil, List.map_nil, List.prod_nil, mul_one]
  | cons r records ih =>
      rw [List.foldl_cons, ih, M.meaning_apply, List.map_cons, List.prod_cons, mul_assoc]

/-- The records of a message merge it. -/
theorem foldl_records (hm : M.WellFormed m) (hsource : M.WellFormed source) :
    (M.records source).foldl M.apply m = C.mergeFrom m source := by
  refine M.meaning_inj (wellFormed_foldl _ hm) (M.wellFormed_mergeFrom hm hsource) ?_
  rw [meaning_foldl, M.meaning_records, M.meaning_mergeFrom m hsource]

theorem mergeFrom_new (hm : M.WellFormed m) : C.mergeFrom m C.new = m := by
  refine M.meaning_inj (M.wellFormed_mergeFrom hm M.wellFormed_new) hm ?_
  rw [M.meaning_mergeFrom m M.wellFormed_new, M.meaning_new, mul_one]

theorem new_mergeFrom (hm : M.WellFormed m) : C.mergeFrom C.new m = m := by
  refine M.meaning_inj (M.wellFormed_mergeFrom M.wellFormed_new hm) hm ?_
  rw [M.meaning_mergeFrom C.new hm, M.meaning_new, one_mul]

theorem mergeFrom_assoc {m₁ m₂ m₃ : C.Obj} (h₁ : M.WellFormed m₁) (h₂ : M.WellFormed m₂)
    (h₃ : M.WellFormed m₃) :
    C.mergeFrom (C.mergeFrom m₁ m₂) m₃ = C.mergeFrom m₁ (C.mergeFrom m₂ m₃) := by
  have hleft := M.wellFormed_mergeFrom (M.wellFormed_mergeFrom h₁ h₂) h₃
  have hright := M.wellFormed_mergeFrom h₁ (M.wellFormed_mergeFrom h₂ h₃)
  refine M.meaning_inj hleft hright ?_
  rw [M.meaning_mergeFrom _ h₃, M.meaning_mergeFrom _ h₂,
    M.meaning_mergeFrom _ (M.wellFormed_mergeFrom h₂ h₃), M.meaning_mergeFrom _ h₃, mul_assoc]

theorem copyFrom_eq_source (hm : M.WellFormed m) (hsource : M.WellFormed source) :
    C.copyFrom m source = source := by
  rw [M.copyFrom_eq, M.clear_eq hm, new_mergeFrom hsource]

/-! ## Reading -/

theorem run_nil (M : C.Model) (m : C.Obj) : C.mergePartialFromCodedStream m [] = (true, m, []) := by
  obtain ⟨htag, hrest⟩ := rt.readTag_nil 127
  have hturn := M.turn_of_zero m htag
  rw [mergePartialFromCodedStream, RecordLoop.run_of_done hturn, hrest]

/-- **Reading what was written is merging.** -/
theorem run_serialize (hm : M.WellFormed m) (hsource : M.WellFormed source)
    (hwritable : M.Writable source) (hunknown : M.UnknownOnly source) (rest : List UInt8) :
    C.mergePartialFromCodedStream m (C.serializeWithCachedSizes source ++ rest) =
      C.mergePartialFromCodedStream (C.mergeFrom m source) rest := by
  have htyped := M.typed_records hwritable hunknown
  rw [M.serialize_eq, mergePartialFromCodedStream,
    M.follows.run_flatten fun r hr => Runtime.next_bytes_append (htyped r hr),
    foldl_records hm hsource]
  rfl

/-- **What was written is read back** by a new message exactly if the unknown fields are not
known: a new message has no other unknown fields after reading. -/
theorem run_new_serialize_iff (hm : M.WellFormed m) (hwritable : M.Writable m) :
    C.mergePartialFromCodedStream C.new (C.serializeWithCachedSizes m) = (true, m, []) ↔
      M.UnknownOnly m := by
  constructor
  · intro hrun
    have hiff := @unknownOnly_run_iff _ _ M C.new (C.serializeWithCachedSizes m)
    rw [hrun] at hiff
    exact hiff.mpr M.unknownOnly_new
  · intro hunknown
    have hrun := run_serialize M.wellFormed_new hm hwritable hunknown []
    rwa [List.append_nil, new_mergeFrom hm, run_nil M m] at hrun

/-- Reading succeeds if the tag behind the last record is zero, and then the records have
been applied. -/
theorem run_eq_true_iff : C.mergePartialFromCodedStream m input = (true, t, rest) ↔
    (rt.readTag 127 ((rt.decoder M.kindOf).drain input).2).1.1 = 0 ∧
      t = (M.inputRecords input).foldl M.apply m ∧
      rest = (rt.readTag 127 ((rt.decoder M.kindOf).drain input).2).2 := by
  have hrun := M.follows.run_eq m input
  rw [mergePartialFromCodedStream, hrun]
  have hstuck := IncrementalDecoder.next_drain (rt.decoder M.kindOf) input
  cases hturn : C.loop.turn ((M.inputRecords input).foldl M.apply m)
      ((rt.decoder M.kindOf).drain input).2 with
  | done s left =>
      have htag := (M.readsField _ _).tag_of_done hturn
      have hzero := M.turn_of_zero ((M.inputRecords input).foldl M.apply m) htag
      rw [RecordLoop.run_of_done hzero]
      constructor
      · intro h
        cases h
        exact ⟨htag, rfl, rfl⟩
      · rintro ⟨-, rfl, rfl⟩
        rfl
  | failed s left =>
      rw [RecordLoop.run_of_failed hturn]
      refine iff_of_false (by simp) ?_
      rintro ⟨htag, -, -⟩
      rw [M.turn_of_zero _ htag] at hturn
      cases hturn
  | more s left => exact absurd hturn (M.follows.stuck hstuck)

theorem typed_inputRecords (input : List UInt8) :
    ∀ r ∈ M.inputRecords input, r.Typed rt M.kindOf :=
  Runtime.typed_of_mem_drain

/-- Records that were written are read. -/
theorem run_records {records : List (Record rt.UnknownField)}
    (hrecords : ∀ r ∈ records, r.Typed rt M.kindOf) (m : C.Obj) :
    C.mergePartialFromCodedStream m (records.map (Record.bytes rt)).flatten =
      (true, records.foldl M.apply m, []) := by
  have hrun := M.follows.run_flatten (fun r hr => Runtime.next_bytes_append (hrecords r hr)) m []
  rw [List.append_nil] at hrun
  exact hrun.trans (run_nil M _)

theorem inputRecords_flatten {records : List (Record rt.UnknownField)}
    (hrecords : ∀ r ∈ records, r.Typed rt M.kindOf) :
    M.inputRecords (records.map (Record.bytes rt)).flatten = records := by
  have hdrain := @IncrementalDecoder.drain_flatten _ _ (rt.decoder M.kindOf) (Record.bytes rt)
    records [] (IncrementalDecoder.next_nil _) fun r later hsuffix =>
      Runtime.next_bytes_append (hrecords r (hsuffix.subset List.mem_cons_self)) _
  rw [List.append_nil] at hdrain
  rw [inputRecords, hdrain]

/-- **Reading into a message** is reading, and then merging. -/
theorem run_eq_merge (hm : M.WellFormed m) :
    C.mergePartialFromCodedStream m input = (true, t, rest) ↔
      ∃ fresh, C.mergePartialFromCodedStream C.new input = (true, fresh, rest) ∧
        t = C.mergeFrom m fresh := by
  have hfold : (M.inputRecords input).foldl M.apply m =
      C.mergeFrom m ((M.inputRecords input).foldl M.apply C.new) := by
    have hfresh := wellFormed_foldl (M.inputRecords input) M.wellFormed_new
    refine M.meaning_inj (wellFormed_foldl _ hm) (M.wellFormed_mergeFrom hm hfresh) ?_
    rw [M.meaning_mergeFrom m hfresh, meaning_foldl, meaning_foldl, M.meaning_new, one_mul]
  rw [run_eq_true_iff (M := M)]
  constructor
  · rintro ⟨htag, rfl, rfl⟩
    exact ⟨_, run_eq_true_iff.mpr ⟨htag, rfl, rfl⟩, hfold⟩
  · rintro ⟨fresh, hfresh, rfl⟩
    obtain ⟨htag, rfl, rfl⟩ := (run_eq_true_iff (M := M)).mp hfresh
    exact ⟨htag, hfold.symm, rfl⟩

/-- What was read can be written. -/
theorem writable_of_run (h : C.mergePartialFromCodedStream C.new input = (true, t, rest)) :
    M.Writable t := by
  obtain ⟨-, rfl, -⟩ := (run_eq_true_iff (M := M)).mp h
  exact writable_foldl M.writable_new (typed_inputRecords input)

/-- **The order of the fields** of an input does not matter. -/
theorem foldl_eq_of_filter_eq {records records' : List (Record rt.UnknownField)}
    (hm : M.WellFormed m)
    (h : ∀ slot, (records.filter fun r => r.slot = slot) =
      records'.filter fun r => r.slot = slot) :
    records.foldl M.apply m = records'.foldl M.apply m := by
  have hcomm : ∀ (a : M.Meaning) (r r' : Record rt.UnknownField), r.slot ≠ r'.slot →
      a * M.recordMeaning r * M.recordMeaning r' = a * M.recordMeaning r' * M.recordMeaning r := by
    intro a r r' hne
    rw [mul_assoc, M.recordMeaning_comm hne, mul_assoc]
  have hfold := @Merging.foldl_eq_of_filter_eq _ _ _ (fun a r => a * M.recordMeaning r)
    Record.slot _ hcomm _ _ h (M.meaning m)
  have hprod (records : List (Record rt.UnknownField)) : M.meaning (records.foldl M.apply m) =
      records.foldl (fun a r => a * M.recordMeaning r) (M.meaning m) := by
    clear h hfold hm
    induction records generalizing m with
    | nil => rfl
    | cons r records ih => rw [List.foldl_cons, List.foldl_cons, ih, M.meaning_apply]
  refine M.meaning_inj (wellFormed_foldl _ hm) (wellFormed_foldl _ hm) ?_
  rw [hprod, hprod, hfold]

/-! ## Required fields -/

/-- A required field has a value after some records if it had one, or one of them gives it. -/
theorem present_prod {tag : UInt32} (htag : tag ∈ M.required)
    {records : List (Record rt.UnknownField)} (hrecords : ∀ r ∈ records, r.Typed rt M.kindOf) :
    M.Present tag (records.map M.recordMeaning).prod ↔ ∃ r ∈ records, r.slot = some tag := by
  induction records with
  | nil =>
      rw [List.map_nil, List.prod_nil]
      exact iff_of_false (M.not_present_one tag) (by simp)
  | cons r records ih =>
      rw [List.map_cons, List.prod_cons, M.present_mul,
        ih fun r' hr' => hrecords r' (List.mem_cons_of_mem _ hr'),
        M.present_recordMeaning htag (hrecords r List.mem_cons_self), List.exists_mem_cons_iff]

/-- A message that was read has the required fields that it had, and those of the input. -/
theorem isInitialized_foldl {records : List (Record rt.UnknownField)}
    (hrecords : ∀ r ∈ records, r.Typed rt M.kindOf) (m : C.Obj) :
    C.isInitialized (records.foldl M.apply m) = true ↔
      ∀ tag ∈ M.required, M.Present tag (M.meaning m) ∨ ∃ r ∈ records, r.slot = some tag := by
  rw [M.isInitialized_iff, meaning_foldl]
  refine forall₂_congr fun tag htag => ?_
  rw [M.present_mul, present_prod htag hrecords]

/-- **What is initialized stays so**, whatever is read and whether that succeeds or not. -/
theorem isInitialized_run (M : C.Model) (input : List UInt8) (hm : C.isInitialized m = true) :
    C.isInitialized (C.mergePartialFromCodedStream m input).2.1 = true := by
  let P (s : C.Obj) : Prop := C.isInitialized s = true
  refine RecordLoop.run_induction (P := P) (fun s left hs => ?_) hm input
  refine (M.readsField s left).state_induction (P := P) hs ?_
  intro t record ht _
  have hbefore := (M.isInitialized_iff t).mp ht
  refine (M.isInitialized_iff _).mpr fun tag htag => ?_
  rw [M.meaning_apply, M.present_mul]
  exact Or.inl (hbefore tag htag)

end Model

end MessageClass

end Protobuf

end LearnUv
