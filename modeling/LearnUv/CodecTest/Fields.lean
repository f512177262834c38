import LearnUv.CodecTest.HasBits
import LearnUv.CodecTest.Messages
import Mathlib.Algebra.Group.Prod

/-!
# Fields

How the functions of the generated messages read and write one field, and how many bytes they
count for it.

A message is read by turns of one loop, each of which reads a tag and calls the function of
the field that the tag belongs to.  `ReadsField` lists what a turn can do: end the loop, read
a field of one of three types, or hand the record over to the unknown fields.  So the
specifications of the three messages are obtained field by field, and differ only in the
fields they list.  Writing is the other way round: each field is written
to the place where the one before it ended, which is writing their bytes one behind the
other.

## Main Definitions

* `ReadsField` — a turn calls the function for its tag

## Main Results

* `ReadsField.eq_more_iff` — a turn that calls the right function reads a record
* `writeToArray_append`, `foldlM_writeToArray` — writing one thing behind the other into an
  array
-/

namespace LearnUv

namespace Protobuf

/-! ## Tags -/

/-- The low byte of a tag below 128 is the tag. -/
theorem toUInt8_eq_iff {tag : UInt32} (h : tag ≤ 127) {byte : UInt8} (hbyte : byte < 128) :
    tag.toUInt8 = byte ↔ tag = byte.toUInt32 := by
  have hle := UInt32.le_iff_toNat_le.mp h
  have hlt := UInt8.lt_iff_toNat_lt.mp hbyte
  rw [← UInt8.toNat_inj, ← UInt32.toNat_inj, UInt32.toNat_toUInt8, UInt8.toNat_toUInt32]
  have h127 : (127 : UInt32).toNat = 127 := rfl
  omega

/-! ## Reading -/

section Reading

variable {α M : Type} {p : Primitive α} {before before' v : α} {input rest : List UInt8}
  {put : α → M}

/-- **A value that is read**; what was in the field before does not matter. -/
theorem readInto_of_take (h : p.take before input = some (v, rest)) :
    readInto p input before' put = .more (put v) rest := by
  have hread := p.read_append [] before' (Primitive.take_eq_some.mp h)
  rw [List.append_nil, List.append_nil] at hread
  rw [readInto, hread]
  rfl

theorem take_of_readInto {t : M} (h : readInto p input before' put = .more t rest)
    (before : α) : ∃ v, p.take before input = some (v, rest) ∧ t = put v := by
  rcases hread : p.read input before' with ⟨ok, v, left⟩
  rw [readInto, hread] at h
  obtain ⟨rfl, rfl, rfl⟩ := Turn.ofBool_eq_more.mp h
  have hread' := p.read_append [] before hread
  rw [List.append_nil, List.append_nil] at hread'
  exact ⟨v, Primitive.take_eq_some.mpr hread', rfl⟩

theorem readInto_ne_done (t : M) (rest : List UInt8) :
    readInto p input before' put ≠ .done t rest := by
  rw [readInto]
  exact Turn.ofBool_ne_done

variable {rt : Runtime} {m : M} {fields : List rt.UnknownField}
  {put : List rt.UnknownField → M} {tag : UInt32} {field : rt.UnknownField}

/-- **A field that is not known.** -/
theorem handleUnusual_of_takeField (htag : tag ≠ 0)
    (h : rt.takeField tag input = some (field, rest)) :
    handleUnusual rt m fields put tag input = .more (put (fields ++ [field])) rest := by
  have hskip := (Runtime.takeField_eq_some.mp h).2.2 [] fields
  rw [List.append_nil, List.append_nil] at hskip
  rw [handleUnusual, if_neg htag, hskip]
  rfl

theorem takeField_of_handleUnusual {t : M} (htag : tag ≠ 0)
    (h : handleUnusual rt m fields put tag input = .more t rest) :
    ∃ field, rt.takeField tag input = some (field, rest) := by
  cases htake : rt.takeField tag input with
  | none =>
      have hfail := Runtime.takeField_eq_none htake fields
      rw [handleUnusual, if_neg htag] at h
      obtain ⟨hok, -⟩ := Turn.ofBool_eq_more.mp h
      rw [hok] at hfail
      cases hfail
  | some p =>
      obtain ⟨field, left⟩ := p
      rw [handleUnusual_of_takeField htag htake] at h
      cases h
      exact ⟨field, rfl⟩

/-- Whether it fails or not, the fields that it adds have the tag, and can be written. -/
theorem state_handleUnusual (htag : tag ≠ 0) (m : M) (fields : List rt.UnknownField)
    (put : List rt.UnknownField → M) (input : List UInt8) :
    ∃ added, (handleUnusual rt m fields put tag input).state = put (fields ++ added) ∧
      ∀ field ∈ added, rt.fieldTag field = tag ∧ rt.ValidField field := by
  obtain ⟨added, hadded, htags⟩ := rt.skipField_added tag input fields
  refine ⟨added, ?_, htags⟩
  rw [handleUnusual, if_neg htag, Turn.state_ofBool, hadded]

/-- A turn behind a tag: which function it calls depends on the tag, and what it does with a
value is what `apply` does with the record. -/
inductive ReadsField (rt : Runtime) (kindOf : UInt32 → Option Kind)
    (apply : M → Record rt.UnknownField → M) (m : M) (tag : UInt32) (input : List UInt8) :
    Turn M UInt8 → Prop
  | zero : tag = 0 → ReadsField rt kindOf apply m tag input (.done m input)
  | int64 (before : Int64) {put : Int64 → M} : tag ≠ 0 → kindOf tag = some .int64 →
      (∀ v, put v = apply m (.int64 tag v)) →
      ReadsField rt kindOf apply m tag input (readInto rt.int64 input before put)
  | int32 (before : Int32) {put : Int32 → M} : tag ≠ 0 → kindOf tag = some .int32 →
      (∀ v, put v = apply m (.int32 tag v)) →
      ReadsField rt kindOf apply m tag input (readInto rt.int32 input before put)
  | string (before : List UInt8) {put : List UInt8 → M} : tag ≠ 0 → kindOf tag = some .string →
      (∀ s, put s = apply m (.string tag s)) →
      ReadsField rt kindOf apply m tag input (readInto rt.string input before put)
  | unknown {fields : List rt.UnknownField} {put : List rt.UnknownField → M} : tag ≠ 0 →
      kindOf tag = none →
      (∀ added, put (fields ++ added) = (added.map .unknown).foldl apply m) →
      ReadsField rt kindOf apply m tag input (handleUnusual rt m fields put tag input)

namespace ReadsField

variable {kindOf : UInt32 → Option Kind} {apply : M → Record rt.UnknownField → M}
  {turn : Turn M UInt8} {record : Record rt.UnknownField}

/-- **A turn goes on** exactly where there is a record, and does what the record says. -/
theorem eq_more_iff
    (h : ReadsField rt kindOf apply m (rt.readTag 127 input).1.1 (rt.readTag 127 input).2 turn)
    {t : M} : turn = .more t rest ↔
      ∃ record, rt.next kindOf input = some (record, rest) ∧ t = apply m record := by
  cases h with
  | zero htag => simp [Runtime.next, htag]
  | int64 before htag hkind hput =>
      simp only [Runtime.next, if_neg htag, hkind, Option.map_eq_some_iff]
      constructor
      · intro hmore
        obtain ⟨v, htake, rfl⟩ := take_of_readInto hmore 0
        exact ⟨_, ⟨_, htake, rfl⟩, hput v⟩
      · rintro ⟨record, ⟨⟨v, left⟩, htake, heq⟩, rfl⟩
        cases heq
        rw [readInto_of_take htake, hput]
  | int32 before htag hkind hput =>
      simp only [Runtime.next, if_neg htag, hkind, Option.map_eq_some_iff]
      constructor
      · intro hmore
        obtain ⟨v, htake, rfl⟩ := take_of_readInto hmore 0
        exact ⟨_, ⟨_, htake, rfl⟩, hput v⟩
      · rintro ⟨record, ⟨⟨v, left⟩, htake, heq⟩, rfl⟩
        cases heq
        rw [readInto_of_take htake, hput]
  | string before htag hkind hput =>
      simp only [Runtime.next, if_neg htag, hkind, Option.map_eq_some_iff]
      constructor
      · intro hmore
        obtain ⟨v, htake, rfl⟩ := take_of_readInto hmore []
        exact ⟨_, ⟨_, htake, rfl⟩, hput v⟩
      · rintro ⟨record, ⟨⟨v, left⟩, htake, heq⟩, rfl⟩
        cases heq
        rw [readInto_of_take htake, hput]
  | unknown htag hkind hput =>
      simp only [Runtime.next, if_neg htag, hkind, Option.map_eq_some_iff]
      constructor
      · intro hmore
        obtain ⟨field, htake⟩ := takeField_of_handleUnusual htag hmore
        rw [handleUnusual_of_takeField htag htake] at hmore
        cases hmore
        exact ⟨_, ⟨_, htake, rfl⟩, hput [field]⟩
      · rintro ⟨record, ⟨⟨field, left⟩, htake, heq⟩, rfl⟩
        cases heq
        rw [handleUnusual_of_takeField htag htake, hput]
        rfl

/-- It is done exactly where the tag is zero. -/
theorem tag_of_done (h : ReadsField rt kindOf apply m tag input turn) {t : M}
    (hdone : turn = .done t rest) : tag = 0 := by
  cases h with
  | zero htag => exact htag
  | int64 before htag hkind hput => exact absurd hdone (readInto_ne_done _ _)
  | int32 before htag hkind hput => exact absurd hdone (readInto_ne_done _ _)
  | string before htag hkind hput => exact absurd hdone (readInto_ne_done _ _)
  | unknown htag hkind hput =>
      rw [handleUnusual, if_neg htag] at hdone
      exact absurd hdone Turn.ofBool_ne_done

theorem eq_done (h : ReadsField rt kindOf apply m tag input turn) (htag : tag = 0) :
    turn = .done m input := by
  cases h with
  | zero _ => rfl
  | int64 _ hne _ _ => exact absurd htag hne
  | int32 _ hne _ _ => exact absurd htag hne
  | string _ hne _ _ => exact absurd htag hne
  | unknown hne _ _ => exact absurd htag hne

/-- In any case the message is left as it was, or as after a record or some unknown fields. -/
theorem state_induction {P : M → Prop} (h : ReadsField rt kindOf apply m tag input turn)
    (hm : P m)
    (hstep : ∀ {m record}, P m → (∀ field ∈ record.unknownFields, rt.IsUnknown kindOf field) →
      P (apply m record)) :
    P turn.state := by
  cases h with
  | zero _ => exact hm
  | int64 before htag hkind hput =>
      rw [readInto, Turn.state_ofBool, hput]
      exact hstep hm nofun
  | int32 before htag hkind hput =>
      rw [readInto, Turn.state_ofBool, hput]
      exact hstep hm nofun
  | string before htag hkind hput =>
      rw [readInto, Turn.state_ofBool, hput]
      exact hstep hm nofun
  | @unknown fields put htag hkind hput =>
      obtain ⟨added, hstate, htags⟩ := state_handleUnusual htag m fields put input
      rw [hstate, hput]
      clear hstate hput
      induction added generalizing m with
      | nil => exact hm
      | cons field added ih =>
          refine ih (hstep hm ?_) fun f hf => htags f (List.mem_cons_of_mem _ hf)
          obtain ⟨hfield, hvalid⟩ := htags field List.mem_cons_self
          exact List.forall_mem_singleton.mpr ⟨by rwa [hfield], by rwa [hfield], hvalid⟩

end ReadsField

/-! ### The `switch` -/

/-- A `case` of the `switch` in a loop: the number of the field, the tag that it is to have,
and what is done then. -/
structure Case (M : Type) where
  number : UInt32
  tag : UInt8
  turn : Turn M UInt8

/-- The tag is one for this field, and takes up one byte. -/
def Case.Fits (c : Case M) : Prop :=
  c.tag < 128 ∧ getTagFieldNumber c.tag.toUInt32 = c.number

theorem Case.fits_mk {number : UInt32} {tag : UInt8} {turn : Turn M UInt8} (htag : tag < 128)
    (hnumber : getTagFieldNumber tag.toUInt32 = number) : Case.Fits ⟨number, tag, turn⟩ :=
  ⟨htag, hnumber⟩

/-- `switch (GetTagFieldNumber(tag))`. -/
def switchOn (tag : UInt32) (unusual : Turn M UInt8) : List (Case M) → Turn M UInt8
  | [] => unusual
  | c :: cases =>
      if getTagFieldNumber tag = c.number then
        if tag.toUInt8 = c.tag then c.turn else unusual
      else switchOn tag unusual cases

theorem switchOn_cases {tag : UInt32} (hle : tag ≤ 127) (unusual : Turn M UInt8)
    {cases : List (Case M)} (hfits : ∀ c ∈ cases, c.Fits)
    (hnumbers : (cases.map Case.number).Nodup) :
    (∃ c ∈ cases, tag = c.tag.toUInt32 ∧ switchOn tag unusual cases = c.turn) ∨
      switchOn tag unusual cases = unusual ∧ ∀ c ∈ cases, tag ≠ c.tag.toUInt32 := by
  induction cases with
  | nil => exact Or.inr ⟨rfl, nofun⟩
  | cons c cases ih =>
      obtain ⟨hbyte, hnumber⟩ := hfits c List.mem_cons_self
      have hrest : ∀ d ∈ cases, d.Fits := fun d hd => hfits d (List.mem_cons_of_mem _ hd)
      obtain ⟨hother, hpair⟩ := List.nodup_cons.mp hnumbers
      rw [switchOn]
      split
      · next hsame =>
          split
          · next hlow =>
              exact Or.inl ⟨c, List.mem_cons_self, (toUInt8_eq_iff hle hbyte).mp hlow, rfl⟩
          · next hlow =>
              refine Or.inr ⟨rfl, List.forall_mem_cons.mpr ⟨?_, fun d hd heq => ?_⟩⟩
              · exact fun heq => hlow ((toUInt8_eq_iff hle hbyte).mpr heq)
              · rw [heq, (hrest d hd).2] at hsame
                exact hother (hsame ▸ List.mem_map_of_mem hd)
      · next hdiff =>
          rcases ih hrest hpair with ⟨d, hd, htag, hturn⟩ | ⟨hturn, hne⟩
          · exact Or.inl ⟨d, List.mem_cons_of_mem _ hd, htag, hturn⟩
          · refine Or.inr ⟨hturn, List.forall_mem_cons.mpr ⟨?_, hne⟩⟩
            rintro rfl
            exact hdiff hnumber

/-- Unknown fields are kept one behind the other. -/
theorem foldl_unknown {Field : Type} {apply : M → Record Field → M} (put : List Field → M)
    (hput : ∀ fields field, apply (put fields) (.unknown field) = put (fields ++ [field]))
    (added fields : List Field) :
    put (fields ++ added) = (added.map .unknown).foldl apply (put fields) := by
  induction added generalizing fields with
  | nil => rw [List.map_nil, List.foldl_nil, List.append_nil]
  | cons field added ih =>
      rw [List.map_cons, List.foldl_cons, hput, ← ih, List.append_assoc, List.singleton_append]

/-- **A turn reads a field** if each `case` does, and every other tag is not known. -/
theorem ReadsField.of_switchOn {kindOf : UInt32 → Option Kind}
    {apply : M → Record rt.UnknownField → M} {tag : UInt32} {known : Bool} {left : List UInt8}
    {turn : Turn M UInt8} (fields : List rt.UnknownField) (put : List rt.UnknownField → M)
    (cases : List (Case M))
    (hread : rt.readTag 127 input = ((tag, known), left))
    (hturn : turn = if known then switchOn tag (handleUnusual rt m fields put tag left) cases
      else handleUnusual rt m fields put tag left)
    (hfits : ∀ c ∈ cases, c.Fits ∧
      ReadsField rt kindOf apply m c.tag.toUInt32 left c.turn)
    (hnumbers : (cases.map Case.number).Nodup)
    (hkind : ∀ tag, (∀ c ∈ cases, tag ≠ c.tag.toUInt32) → kindOf tag = none)
    (hm : put fields = m)
    (hput : ∀ fields field, apply (put fields) (.unknown field) = put (fields ++ [field])) :
    ReadsField rt kindOf apply m (rt.readTag 127 input).1.1 (rt.readTag 127 input).2 turn := by
  have hrange := @rt.inRange_iff 127 input
  rw [hread] at hrange ⊢
  have hunusual (hne : tag ≠ 0 → ∀ c ∈ cases, tag ≠ c.tag.toUInt32) :
      ReadsField rt kindOf apply m tag left (handleUnusual rt m fields put tag left) := by
    by_cases htag : tag = 0
    · rw [handleUnusual, if_pos htag]
      exact .zero htag
    · refine .unknown htag (hkind tag (hne htag)) fun added => ?_
      rw [foldl_unknown put hput, hm]
  rw [hturn]
  cases known with
  | false =>
      refine hunusual fun htag c hc heq => Bool.false_ne_true ((hrange htag).mpr ?_)
      have hlt := (hfits c hc).1.1
      show tag ≤ 127
      rw [heq, UInt32.le_iff_toNat_le, UInt8.toNat_toUInt32]
      exact Nat.le_of_lt_succ (UInt8.lt_iff_toNat_lt.mp hlt)
  | true =>
      have hle : tag ≤ 127 := by
        by_cases htag : tag = 0
        · rw [htag]
          decide
        · exact (hrange htag).mp rfl
      rw [if_pos rfl]
      rcases switchOn_cases hle (handleUnusual rt m fields put tag left)
        (fun c hc => (hfits c hc).1) hnumbers with ⟨c, hc, htag, hcase⟩ | ⟨hcase, hne⟩
      · have hreads := (hfits c hc).2
        rw [← htag] at hreads
        rw [hcase]
        exact hreads
      · rw [hcase]
        exact hunusual fun _ => hne

/-- The loop with these turns. -/
def recordLoop {kindOf : UInt32 → Option Kind} {apply : M → Record rt.UnknownField → M}
    (turn : M → List UInt8 → Turn M UInt8)
    (h : ∀ m input, ReadsField rt kindOf apply m (rt.readTag 127 input).1.1
      (rt.readTag 127 input).2 (turn m input)) : RecordLoop M UInt8 where
  turn := turn
  length_lt hmore := by
    obtain ⟨record, hnext, -⟩ := (h _ _).eq_more_iff.mp hmore
    exact Runtime.length_lt_of_next hnext

end Reading

/-! ## Writing -/

section Writing

variable {n : ℕ} {array : CharArray n} {target : ℕ}

theorem writeToArray_of_fits (array : CharArray n) {bytes : List UInt8}
    (h : target + bytes.length ≤ n) :
    ∃ array', writeToArray array target bytes = .ok (array', target + bytes.length) ∧
      array'.bytes = overwrite array.bytes target bytes := by
  obtain ⟨array', hstore, hbytes⟩ := array.store_of_fits h
  refine ⟨array', ?_, hbytes⟩
  rw [writeToArray, hstore]
  rfl

theorem writeToArray_of_not_fits (array : CharArray n) {bytes : List UInt8}
    (h : n < target + bytes.length) : writeToArray array target bytes = .error .outOfBounds := by
  rw [writeToArray, array.store_of_not_fits h]
  rfl

theorem writeToArray_nil (array : CharArray n) (h : target ≤ n) :
    writeToArray array target [] = .ok (array, target) := by
  obtain ⟨array', hwrite, hbytes⟩ :=
    @writeToArray_of_fits n target array [] (by simpa using h)
  have hsame : array' = array := by
    refine CharArray.eq_of_bytes_eq ?_
    rw [hbytes]
    simp [overwrite]
  rw [hwrite, hsame]
  rfl

/-- **Writing one thing behind the other** is writing them at once. -/
theorem writeToArray_append (array : CharArray n) (target : ℕ) (first second : List UInt8) :
    (writeToArray array target first >>= fun p => writeToArray p.1 p.2 second) =
      writeToArray array target (first ++ second) := by
  rcases Nat.lt_or_ge n (target + first.length) with hlong | hfirst
  · rw [writeToArray_of_not_fits array hlong,
      writeToArray_of_not_fits array (by rw [List.length_append]; omega)]
    rfl
  · obtain ⟨array', hwrite, hbytes⟩ := writeToArray_of_fits array hfirst
    rw [hwrite, AbortingRun.ok_bind]
    rcases Nat.lt_or_ge n (target + first.length + second.length) with hlong | hsecond
    · rw [writeToArray_of_not_fits array' hlong,
        writeToArray_of_not_fits array (by rw [List.length_append]; omega)]
    · obtain ⟨array'', hwrite', hbytes'⟩ := writeToArray_of_fits array' hsecond
      have hboth : target + (first ++ second).length ≤ n := by
        rw [List.length_append]
        omega
      obtain ⟨all, hall, hbytesAll⟩ := writeToArray_of_fits array hboth
      have hsame : array'' = all := by
        refine CharArray.eq_of_bytes_eq ?_
        rw [hbytes', hbytesAll, hbytes, overwrite_append (by rw [array.length_eq]; exact hsecond)]
      rw [hwrite', hall, hsame, List.length_append, Nat.add_assoc]

/-- What follows a write writes behind it, if it does so wherever it starts. -/
theorem writeToArray_bind {f : CharArray n × ℕ → Exec (CharArray n × ℕ)} {array : CharArray n}
    {bytes more : List UInt8}
    (hf : ∀ array' target', target' ≤ n → f (array', target') = writeToArray array' target' more) :
    (writeToArray array target bytes >>= f) = writeToArray array target (bytes ++ more) := by
  rw [← writeToArray_append]
  rcases Nat.lt_or_ge n (target + bytes.length) with hlong | hfits
  · rw [writeToArray_of_not_fits array hlong]
    rfl
  · obtain ⟨array', hwrite, -⟩ := writeToArray_of_fits array hfits
    rw [hwrite, AbortingRun.ok_bind, AbortingRun.ok_bind]
    exact hf array' _ hfits

/-- The same behind what is written if the field has a value. -/
theorem ite_writeToArray_bind {p : Prop} [Decidable p]
    {f : CharArray n × ℕ → Exec (CharArray n × ℕ)} {array : CharArray n} {bytes more : List UInt8}
    (h : target ≤ n)
    (hf : ∀ array' target', target' ≤ n → f (array', target') = writeToArray array' target' more) :
    (if p then writeToArray array target bytes >>= f else pure (array, target) >>= f) =
      writeToArray array target ((if p then bytes else []) ++ more) := by
  split
  · exact writeToArray_bind hf
  · exact hf array target h

/-- Writing one thing after the other in a loop. -/
theorem foldlM_writeToArray {β : Type} (f : β → List UInt8) (l : List β) (array : CharArray n)
    (h : target ≤ n) :
    l.foldlM (fun p b => writeToArray p.1 p.2 (f b)) (array, target) =
      writeToArray array target (l.map f).flatten := by
  induction l generalizing array target with
  | nil => exact (writeToArray_nil array h).symm
  | cons b l ih =>
      rw [List.foldlM_cons, List.map_cons, List.flatten_cons, ← writeToArray_append]
      rcases Nat.lt_or_ge n (target + (f b).length) with hlong | hfits
      · rw [writeToArray_of_not_fits array hlong]
        rfl
      · obtain ⟨array', hwrite, -⟩ := writeToArray_of_fits array hfits
        rw [hwrite, AbortingRun.ok_bind, AbortingRun.ok_bind]
        exact ih array' hfits

variable {α : Type} (rt : Runtime) {p : Primitive α} {tag : UInt32} {v : α}

/-- The generated code counts one byte for the tag. -/
theorem one_add_size (htag : tag < 128) (hv : p.Valid v) :
    1 + p.size v = UInt64.ofNat (rt.writeTag tag ++ p.write v).length := by
  rw [List.length_append, rt.length_writeTag htag, UInt64.ofNat_add, p.size_eq hv]
  rfl

/-- What is counted if the field has a value. -/
theorem ite_add_size {q : Prop} [Decidable q] {total size : UInt64} {bytes : List UInt8}
    (h : q → size = UInt64.ofNat bytes.length) :
    (if q then total + size else total) =
      total + UInt64.ofNat (if q then bytes else []).length := by
  split
  · next hq => rw [h hq]
  · exact (UInt64.add_zero total).symm

/-- So it does for the elements of a repeated field: first all tags, then the values. -/
theorem foldl_size (htag : tag < 128) {l : List α} (hl : ∀ v ∈ l, p.Valid v) (total : UInt64) :
    l.foldl (fun total v => total + p.size v) (total + 1 * UInt64.ofNat l.length) =
      total + UInt64.ofNat (l.map fun v => rt.writeTag tag ++ p.write v).flatten.length := by
  induction l generalizing total with
  | nil => rfl
  | cons v l ih =>
      have hsize := one_add_size rt htag (hl v List.mem_cons_self)
      have hstart : total + 1 * UInt64.ofNat (v :: l).length + p.size v =
          total + (1 + p.size v) + 1 * UInt64.ofNat l.length := by
        rw [List.length_cons, UInt64.ofNat_add, UInt64.one_mul, UInt64.one_mul]
        show total + (UInt64.ofNat l.length + 1) + p.size v = _
        ac_rfl
      rw [List.foldl_cons, hstart, ih fun w hw => hl w (List.mem_cons_of_mem _ hw), hsize,
        UInt64.add_assoc, ← UInt64.ofNat_add, ← List.length_append, List.map_cons,
        List.flatten_cons]

end Writing

/-! ## Records of one field -/

/-- Of two records of different fields, one is not of a given field. -/
theorem slot_ne_or_ne {Field : Type} {r r' : Record Field} (h : r.slot ≠ r'.slot)
    (slot : Option UInt32) : r.slot ≠ slot ∨ r'.slot ≠ slot := by
  by_contra hboth
  rw [not_or, not_not, not_not] at hboth
  exact h (hboth.1.trans hboth.2.symm)

section Records

variable {rt : Runtime} {p : Prop} [Decidable p]

/-- What is written if the field has a value. -/
theorem append_ite (output bytes : List UInt8) :
    (if p then output ++ bytes else output) = output ++ if p then bytes else [] := by
  split
  · rfl
  · rw [List.append_nil]

theorem flatten_map_ite (record : Record rt.UnknownField) :
    ((if p then [record] else []).map (Record.bytes rt)).flatten =
      if p then record.bytes rt else [] := by
  split
  · rw [List.map_singleton, List.flatten_singleton]
  · rfl

theorem prod_map_ite {μ : Type} [Monoid μ] (f : Record rt.UnknownField → μ)
    (record : Record rt.UnknownField) :
    ((if p then [record] else []).map f).prod = if p then f record else 1 := by
  split
  · rw [List.map_singleton, List.prod_singleton]
  · rfl

/-- The records of a repeated field are its elements. -/
theorem prod_map_elements {α μ : Type} [Monoid μ] {f : α → μ} (embed : List α → μ)
    (hnil : embed [] = 1) (hcons : ∀ a l, embed (a :: l) = f a * embed l) (l : List α) :
    (l.map f).prod = embed l := by
  induction l with
  | nil => exact hnil.symm
  | cons a l ih => rw [List.map_cons, List.prod_cons, ih, hcons]

end Records

end Protobuf

end LearnUv
