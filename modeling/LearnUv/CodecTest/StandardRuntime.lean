import LearnUv.CodecTest.Runtime
import LearnUv.Library.Varint

/-!
# The wire format

A runtime that reads and writes the documented wire format: tags and integers are base-128
numerals, `int32` is sign-extended, strings have their length in front, and unknown fields are
kept with their wire type.  Groups, which are deprecated, are not read.

The generated code is verified over any runtime with the properties that it relies on; this
one has them, by the general results about base-128 numerals and about byte strings with
their length in front.  A negative `int32` is written as ten bytes, since it is extended to
64 bits, and is read back by taking the low 32 bits of the number.

It shows that what the generated code relies on can be had, and what the bytes look like.

## Main Definitions

* `Primitive.ofVarint`, `Primitive.ofBytes` — integers and strings
* `WireField` — a field that is not known
* `Runtime.standard` — the runtime
-/

namespace LearnUv

namespace Protobuf

/-- A numeral has at most ten bytes. -/
theorem length_write_le_ten {n : ℕ} (h : n < 2 ^ 64) : (Varint.write n).length ≤ 10 := by
  refine Varint.length_write_le (by decide) (Nat.lt_of_lt_of_le h ?_)
  norm_num

/-- Integers that are written as a numeral below `2 ^ 64`. -/
def Primitive.ofVarint {α : Type} (encode : α → ℕ) (decode : ℕ → α)
    (hdecode : ∀ v, decode (encode v) = v) (hlt : ∀ v, encode v < 2 ^ 64) : Primitive α where
  read input before :=
    match Varint.read 10 input with
    | some (n, rest) => (true, decode n, rest)
    | none => (false, before, input)
  write v := Varint.write (encode v)
  size v := UInt64.ofNat (Varint.write (encode v)).length
  Valid _ := True
  read_write rest before _ := by
    rw [Varint.read_write_append (length_write_le_ten (hlt _)) rest]
    simp only [hdecode]
  read_append {input rest before v} more before' h := by
    cases hread : Varint.read 10 input with
    | none =>
        rw [hread] at h
        cases h
    | some p =>
        rw [hread] at h
        cases h
        rw [Varint.read_append hread more]
  valid_of_read _ := trivial
  length_le input before := by
    cases hread : Varint.read 10 input with
    | none => exact le_rfl
    | some p => exact (Varint.length_lt_of_read hread).le
  size_eq _ := rfl

/-! ## Bytes -/

/-- So many bytes at the front of the input. -/
def takeBytes (count : ℕ) (input : List UInt8) :
    Option ({ bytes : List UInt8 // bytes.length = count } × List UInt8) :=
  if h : count ≤ input.length then
    some (⟨input.take count, List.length_take_of_le h⟩, input.drop count)
  else none

/-- The bytes behind their number, which is an `int`. -/
def takeDelimited (input : List UInt8) :
    Option ({ bytes : List UInt8 // bytes.length < 2 ^ 31 } × List UInt8) :=
  match Varint.read 10 input with
  | some (n, rest) =>
      if h : n % 2 ^ 32 < 2 ^ 31 then
        (takeBytes (n % 2 ^ 32) rest).map fun (bytes, rest) =>
          (⟨bytes.1, bytes.2.trans_lt h⟩, rest)
      else none
  | none => none

section Bytes

variable {count : ℕ} {input rest : List UInt8}

/-- As many bytes as were asked for are taken off. -/
theorem takeBytes_append_self (bytes : { bytes : List UInt8 // bytes.length = count })
    (rest : List UInt8) : takeBytes count (bytes.1 ++ rest) = some (bytes, rest) := by
  obtain ⟨bytes, rfl⟩ := bytes
  simp [takeBytes]

/-- What was taken off was at the front. -/
theorem takeBytes_eq_some {bytes : { bytes : List UInt8 // bytes.length = count }}
    (h : takeBytes count input = some (bytes, rest)) : input = bytes.1 ++ rest := by
  rw [takeBytes] at h
  split at h
  · cases h
    exact (List.take_append_drop count input).symm
  · cases h

/-- More input behind it makes no difference. -/
theorem takeBytes_append {bytes : { bytes : List UInt8 // bytes.length = count }}
    (h : takeBytes count input = some (bytes, rest)) (more : List UInt8) :
    takeBytes count (input ++ more) = some (bytes, rest ++ more) := by
  rw [takeBytes_eq_some h, List.append_assoc]
  exact takeBytes_append_self bytes (rest ++ more)

/-- What is left is not longer than the input. -/
theorem length_le_of_takeBytes {bytes : { bytes : List UInt8 // bytes.length = count }}
    (h : takeBytes count input = some (bytes, rest)) : rest.length ≤ input.length := by
  rw [takeBytes_eq_some h, List.length_append]
  omega

/-- A string with its length is taken off. -/
theorem takeDelimited_write (bytes : { bytes : List UInt8 // bytes.length < 2 ^ 31 })
    (rest : List UInt8) :
    takeDelimited (Varint.write bytes.1.length ++ bytes.1 ++ rest) = some (bytes, rest) := by
  obtain ⟨bytes, hlt⟩ := bytes
  have hmod : bytes.length % 2 ^ 32 = bytes.length := Nat.mod_eq_of_lt (by omega)
  have htake := takeBytes_append_self ⟨bytes, hmod.symm⟩ rest
  have hread := Varint.read_write_append
    (length_write_le_ten (show bytes.length < 2 ^ 64 by omega)) (bytes ++ rest)
  rw [takeDelimited, List.append_assoc, hread]
  simp only [hmod, hlt, dite_true]
  rw [htake, Option.map_some]

/-- What is left is not longer than the input, and more input makes no difference. -/
theorem takeDelimited_eq_some {bytes : { bytes : List UInt8 // bytes.length < 2 ^ 31 }}
    (h : takeDelimited input = some (bytes, rest)) : rest.length ≤ input.length ∧
      ∀ more, takeDelimited (input ++ more) = some (bytes, rest ++ more) := by
  rw [takeDelimited] at h
  cases hread : Varint.read 10 input with
  | none =>
      rw [hread] at h
      cases h
  | some p =>
      obtain ⟨n, left⟩ := p
      rw [hread] at h
      have hlt := Varint.length_lt_of_read hread
      by_cases hn : n % 2 ^ 32 < 2 ^ 31
      · obtain ⟨⟨taken, left'⟩, htake, heq⟩ :=
          Option.map_eq_some_iff.mp ((dif_pos hn).symm.trans h)
        cases heq
        have hle := length_le_of_takeBytes htake
        refine ⟨by omega, fun more => ?_⟩
        rw [takeDelimited, Varint.read_append hread more]
        refine (dif_pos hn).trans ?_
        rw [takeBytes_append htake more, Option.map_some]
      · cases (dif_neg hn).symm.trans h

end Bytes

/-- Strings, with their length in front. -/
def Primitive.ofBytes : Primitive (List UInt8) where
  read input before :=
    match takeDelimited input with
    | some (s, rest) => (true, s.1, rest)
    | none => (false, before, input)
  write s := Varint.write s.length ++ s
  size s := UInt64.ofNat (Varint.write s.length ++ s).length
  Valid s := s.length < 2 ^ 31
  read_write {v} rest before hv := by
    rw [takeDelimited_write ⟨v, hv⟩ rest]
  read_append {input rest before v} more before' h := by
    cases htake : takeDelimited input with
    | none =>
        rw [htake] at h
        cases h
    | some p =>
        rw [htake] at h
        cases h
        rw [(takeDelimited_eq_some htake).2 more]
  valid_of_read {input rest before v} h := by
    cases htake : takeDelimited input with
    | none =>
        rw [htake] at h
        cases h
    | some p =>
        rw [htake] at h
        cases h
        exact p.1.2
  length_le input before := by
    cases htake : takeDelimited input with
    | none => exact le_rfl
    | some p => exact (takeDelimited_eq_some htake).1
  size_eq _ := rfl

/-! ## Fields that are not known -/

/-- The value of a field that is not known, by its wire type. -/
inductive WireValue
  | varint (v : UInt64)
  | fixed64 (bytes : { bytes : List UInt8 // bytes.length = 8 })
  | lengthDelimited (bytes : List UInt8)
  | fixed32 (bytes : { bytes : List UInt8 // bytes.length = 4 })

namespace WireValue

/-- `WireType`. -/
def wireType : WireValue → ℕ
  | .varint _ => 0
  | .fixed64 _ => 1
  | .lengthDelimited _ => 2
  | .fixed32 _ => 5

/-- A value as it is written. -/
def bytes : WireValue → List UInt8
  | .varint v => Varint.write v.toNat
  | .fixed64 bytes => bytes.1
  | .lengthDelimited bytes => Varint.write bytes.length ++ bytes
  | .fixed32 bytes => bytes.1

/-- A length that is read as it was written. -/
def Valid : WireValue → Prop
  | .lengthDelimited bytes => bytes.length < 2 ^ 31
  | _ => True

/-- The value of this wire type at the front of the input. -/
def take (type : ℕ) (input : List UInt8) : Option (WireValue × List UInt8) :=
  if type = 0 then
    (Varint.read 10 input).map fun (n, rest) => (.varint (UInt64.ofNat n), rest)
  else if type = 1 then (takeBytes 8 input).map fun (bytes, rest) => (.fixed64 bytes, rest)
  else if type = 2 then
    (takeDelimited input).map fun (bytes, rest) => (.lengthDelimited bytes.1, rest)
  else if type = 5 then (takeBytes 4 input).map fun (bytes, rest) => (.fixed32 bytes, rest)
  else none

/-- The wire type has three bits. -/
theorem wireType_lt (v : WireValue) : v.wireType < 8 := by
  cases v <;> simp [wireType]

/-- A value is taken off as it was written. -/
theorem take_bytes_append {v : WireValue} (hv : v.Valid) (rest : List UInt8) :
    take v.wireType (v.bytes ++ rest) = some (v, rest) := by
  cases v with
  | varint v =>
      have hread := Varint.read_write_append (length_write_le_ten v.toNat_lt) rest
      simp [take, wireType, bytes, hread]
  | fixed64 bytes => simp [take, wireType, WireValue.bytes, takeBytes_append_self]
  | lengthDelimited bytes =>
      have htake := takeDelimited_write ⟨bytes, hv⟩ rest
      simp only [take, wireType, WireValue.bytes, htake]
      rfl
  | fixed32 bytes => simp [take, wireType, WireValue.bytes, takeBytes_append_self]

theorem take_eq_some {type : ℕ} {input rest : List UInt8} {v : WireValue}
    (h : take type input = some (v, rest)) :
    v.wireType = type ∧ v.Valid ∧ rest.length ≤ input.length ∧
      ∀ more, take type (input ++ more) = some (v, rest ++ more) := by
  rw [take] at h
  split_ifs at h with h0 h1 h2 h5
  · obtain ⟨⟨n, left⟩, hread, heq⟩ := Option.map_eq_some_iff.mp h
    cases heq
    refine ⟨h0.symm, trivial, (Varint.length_lt_of_read hread).le, fun more => ?_⟩
    rw [take, if_pos h0, Varint.read_append hread more, Option.map_some]
  · obtain ⟨⟨bytes, left⟩, htake, heq⟩ := Option.map_eq_some_iff.mp h
    cases heq
    refine ⟨h1.symm, trivial, length_le_of_takeBytes htake, fun more => ?_⟩
    rw [take, if_neg h0, if_pos h1, takeBytes_append htake more, Option.map_some]
  · obtain ⟨⟨bytes, left⟩, htake, heq⟩ := Option.map_eq_some_iff.mp h
    cases heq
    obtain ⟨hle, happend⟩ := takeDelimited_eq_some htake
    refine ⟨h2.symm, bytes.2, hle, fun more => ?_⟩
    rw [take, if_neg h0, if_neg h1, if_pos h2, happend more, Option.map_some]
  · obtain ⟨⟨bytes, left⟩, htake, heq⟩ := Option.map_eq_some_iff.mp h
    cases heq
    refine ⟨h5.symm, trivial, length_le_of_takeBytes htake, fun more => ?_⟩
    rw [take, if_neg h0, if_neg h1, if_neg h2, if_pos h5, takeBytes_append htake more,
      Option.map_some]

end WireValue

/-- A field that is not known. -/
structure WireField where
  number : ℕ
  value : WireValue

namespace WireField

/-- Field numbers start at one, and have 29 bits. -/
structure Valid (field : WireField) : Prop where
  pos : 0 < field.number
  lt : field.number < 2 ^ 29
  value : field.value.Valid

/-- The tag has 32 bits: of a number that is too large, the upper bits are lost. -/
def tag (field : WireField) : UInt32 := UInt32.ofNat (8 * field.number + field.value.wireType)

/-- The tag of a field with a valid number does not wrap. -/
theorem toNat_tag {field : WireField} (hlt : field.number < 2 ^ 29) :
    field.tag.toNat = 8 * field.number + field.value.wireType := by
  have htype := field.value.wireType_lt
  rw [tag, UInt32.toNat_ofNat', Nat.mod_eq_of_lt (by omega)]

/-- The field with this tag at the front of the input. -/
def take (tag : UInt32) (input : List UInt8) : Option (WireField × List UInt8) :=
  if 0 < tag.toNat / 8 then
    (WireValue.take (tag.toNat % 8) input).map fun (value, rest) => (⟨tag.toNat / 8, value⟩, rest)
  else none

/-- A field that can be written is read. -/
theorem take_bytes_append {field : WireField} (h : field.Valid) (rest : List UInt8) :
    take field.tag (field.value.bytes ++ rest) = some (field, rest) := by
  have htag := toNat_tag h.lt
  have htype := field.value.wireType_lt
  have hnumber : field.tag.toNat / 8 = field.number := by omega
  have hmod : field.tag.toNat % 8 = field.value.wireType := by omega
  rw [take, hnumber, hmod, if_pos h.pos, WireValue.take_bytes_append h.value, Option.map_some]

theorem take_eq_some {tag : UInt32} {input rest : List UInt8} {field : WireField}
    (h : take tag input = some (field, rest)) :
    field.tag = tag ∧ field.Valid ∧ rest.length ≤ input.length ∧
      ∀ more, take tag (input ++ more) = some (field, rest ++ more) := by
  rw [take] at h
  split at h
  · next hpos =>
      obtain ⟨⟨value, left⟩, htake, heq⟩ := Option.map_eq_some_iff.mp h
      cases heq
      obtain ⟨htype, hvalid, hle, happend⟩ := WireValue.take_eq_some htake
      have hlt : tag.toNat / 8 < 2 ^ 29 := by
        have := tag.toNat_lt
        omega
      refine ⟨?_, ⟨hpos, hlt, hvalid⟩, hle, fun more => ?_⟩
      · rw [← UInt32.toNat_inj, toNat_tag hlt]
        simp only [htype]
        omega
      · rw [take, if_pos hpos, happend more, Option.map_some]
  · cases h

end WireField

/-! ## The runtime -/

/-- The tag at the front of the input, if there is one. -/
def takeTag (input : List UInt8) : Option (UInt32 × List UInt8) :=
  (Varint.read 10 input).map fun (n, rest) => (UInt32.ofNat n, rest)

/-- A tag is taken off as it was written. -/
theorem takeTag_write (tag : UInt32) (rest : List UInt8) :
    takeTag (Varint.write tag.toNat ++ rest) = some (tag, rest) := by
  have htag := tag.toNat_lt
  rw [takeTag, Varint.read_write_append (length_write_le_ten (by omega)), Option.map_some]
  show some (UInt32.ofNat tag.toNat, rest) = _
  rw [UInt32.ofNat_toNat]

/-- A tag has at least one byte, and more input makes no difference. -/
theorem takeTag_eq_some {input rest : List UInt8} {tag : UInt32}
    (h : takeTag input = some (tag, rest)) : rest.length < input.length ∧
      ∀ more, takeTag (input ++ more) = some (tag, rest ++ more) := by
  obtain ⟨⟨n, left⟩, hread, heq⟩ := Option.map_eq_some_iff.mp h
  cases heq
  refine ⟨Varint.length_lt_of_read hread, fun more => ?_⟩
  rw [takeTag, Varint.read_append hread more, Option.map_some]

/-- The low half of a sign-extended number is the number. -/
theorem toInt32_toUInt32_extend (v : Int32) : v.toInt64.toUInt64.toUInt32.toInt32 = v := by
  refine Int32.toBitVec_inj.mp ?_
  show (v.toBitVec.signExtend 64).setWidth 32 = v.toBitVec
  refine BitVec.eq_of_getElem_eq fun i hi => ?_
  have h64 : i < 64 := by omega
  rw [BitVec.getElem_setWidth, BitVec.getLsbD_signExtend]
  simp [h64, hi]

/-- The wire format, without groups. -/
def Runtime.standard : Runtime where
  readTag cutoff input :=
    match takeTag input with
    | some (tag, rest) => ((tag, decide (tag ≤ cutoff)), rest)
    | none => ((0, false), input)
  writeTag tag := Varint.write tag.toNat
  int64 := .ofVarint (fun v => v.toUInt64.toNat) (fun n => (UInt64.ofNat n).toInt64)
    (fun v => by simp) (fun v => v.toUInt64.toNat_lt)
  int32 := .ofVarint (fun v => v.toInt64.toUInt64.toNat)
    (fun n => (UInt64.ofNat n).toUInt32.toInt32)
    (fun v => by rw [UInt64.ofNat_toNat, toInt32_toUInt32_extend])
    (fun v => v.toInt64.toUInt64.toNat_lt)
  string := .ofBytes
  UnknownField := WireField
  fieldTag := WireField.tag
  fieldBody field := field.value.bytes
  ValidField := WireField.Valid
  skipField tag input fields :=
    match WireField.take tag input with
    | some (field, rest) => (true, fields ++ [field], rest)
    | none => (false, fields, input)
  unknownFieldsSize fields := UInt64.ofNat
    (fields.map fun field => Varint.write field.tag.toNat ++ field.value.bytes).flatten.length
  readTag_nil cutoff := ⟨rfl, rfl⟩
  readTag_write {tag} cutoff rest htag := by
    rw [takeTag_write tag rest]
    exact ⟨rfl, rfl⟩
  readTag_append {cutoff input} more h := by
    cases htake : takeTag input with
    | none =>
        rw [htake] at h
        exact absurd rfl h
    | some p =>
        rw [(takeTag_eq_some htake).2 more]
        exact ⟨rfl, rfl⟩
  length_readTag_lt {cutoff input} h := by
    cases htake : takeTag input with
    | none =>
        rw [htake] at h
        exact absurd rfl h
    | some p => exact (takeTag_eq_some htake).1
  inRange_iff {cutoff input} h := by
    cases htake : takeTag input with
    | none =>
        rw [htake] at h
        exact absurd rfl h
    | some p => exact decide_eq_true_iff
  length_writeTag {tag} h := by
    rw [Varint.write_of_lt (UInt32.lt_iff_toNat_lt.mp h), List.length_singleton]
  skipField_body rest fields hvalid := by
    rw [WireField.take_bytes_append hvalid rest]
  skipField_ok {tag input rest fields fields'} h := by
    cases htake : WireField.take tag input with
    | none =>
        rw [htake] at h
        cases h
    | some p =>
        rw [htake] at h
        cases h
        obtain ⟨htag, hvalid, -, happend⟩ := WireField.take_eq_some htake
        refine ⟨p.1, rfl, htag, hvalid, fun more others => ?_⟩
        rw [happend more]
  skipField_added tag input fields := by
    cases htake : WireField.take tag input with
    | none => exact ⟨[], (List.append_nil fields).symm, nofun⟩
    | some p =>
        obtain ⟨htag, hvalid, -, -⟩ := WireField.take_eq_some htake
        exact ⟨[p.1], rfl, List.forall_mem_singleton.mpr ⟨htag, hvalid⟩⟩
  length_skipField_le tag input fields := by
    cases htake : WireField.take tag input with
    | none => exact le_rfl
    | some p => exact (WireField.take_eq_some htake).2.2.1
  unknownFieldsSize_eq _ := rfl

end Protobuf

end LearnUv
