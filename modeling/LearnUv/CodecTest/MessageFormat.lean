import LearnUv.CodecTest.AnswerSpec
import LearnUv.CodecTest.EmptySpec
import LearnUv.CodecTest.QuerySpec
import LearnUv.CodecTest.StandardRuntime

/-!
# The format of the messages

What holds of `Query`, `Answer` and `Empty` as a program uses them: of every object that it
can make with their functions, and of every input that it lets them read.

The objects are those that any calls of the public functions make, the unknown fields included,
which a program may fill as it likes.  Where a message is written and read back, these have to
be unknown (`MessageClass.Model.UnknownOnly`): a field with the tag of `questioner` that stands
among the unknown ones is read as the `questioner`.  Nothing else is asked of an object, except
that its strings are not longer than a string on the wire can be.

## Main Definitions

* `MessageType` — the classes of `query.proto`

## Main Results

* `MessageType.merge_flatten_serialize` — messages that were written are read and merged, if
  their unknown fields are unknown
* `MessageType.merge_iff_merge_fresh` — so is any other input
* `MessageType.merge_eq_of_filter_eq` — the order of different fields does not matter
* `MessageType.merge_serialize_of_merge` — what was read is written in a normal form
* `MessageType.toArray_eq_store` — writing to an array, and the size it takes
* `MessageType.wellFormed_and_merging` — the objects, and how they are merged and copied
* `MessageType.isInitialized_merge_iff` — required fields are those of the input
-/

namespace LearnUv

namespace Protobuf

open MessageClass (Built)

/-! ## A message on the wire -/

/-- A `Query` with `id` 1 and `questioner` `"a"`. -/
def someQuery : Query Runtime.standard.UnknownField := (Query.new.setId 1).setQuestioner [97]

/-- It is made by calls of its setters. -/
theorem someQuery_built : Built (Query.messageClass Runtime.standard) someQuery :=
  Built.set (C := Query.messageClass Runtime.standard) (Query.Setter.setQuestioner [97])
    (Built.set (C := Query.messageClass Runtime.standard) (Query.Setter.setId 1) .new)

/-- It can be written: its string is short enough. -/
theorem someQuery_writable : someQuery.Writable :=
  ⟨fun _ => trivial, fun _ => show 1 < 2 ^ 31 by decide, nofun⟩

theorem someQuery_unknownOnly : (Query.model Runtime.standard).UnknownOnly someQuery := nofun

/-- Its bytes: a tag and the id, a tag and the question behind its length. -/
theorem serialize_someQuery :
    someQuery.serializeWithCachedSizes Runtime.standard = [8, 1, 18, 1, 97] := by
  have h1 : Varint.write 1 = [1] := Varint.write_of_lt (by decide)
  have h8 : Varint.write 8 = [8] := Varint.write_of_lt (by decide)
  have h18 : Varint.write 18 = [18] := Varint.write_of_lt (by decide)
  show (Varint.write 8 ++ Varint.write 1) ++ (Varint.write 18 ++ (Varint.write 1 ++ [97])) ++ [] = _
  rw [h1, h8, h18]
  rfl

/-- It is read, from its bytes. -/
theorem merge_someQuery :
    (Query.messageClass Runtime.standard).mergePartialFromCodedStream Query.new
      [8, 1, 18, 1, 97] = (true, someQuery, []) := by
  have hwf := (Query.model Runtime.standard).wellFormed_of_built someQuery_built
  rw [← serialize_someQuery]
  exact (MessageClass.Model.run_new_serialize_iff hwf someQuery_writable).mpr someQuery_unknownOnly

/-! ## The classes -/

/-- The classes of `query.proto`. -/
inductive MessageType
  | query
  | answer
  | empty
  deriving DecidableEq

namespace MessageType

section Classes

variable (rt : Runtime)

/-- The functions of the class. -/
def messageClass : MessageType → MessageClass rt
  | query => Query.messageClass rt
  | answer => Answer.messageClass rt
  | empty => Empty.messageClass rt

/-- What they mean. -/
def model : (type : MessageType) → (type.messageClass rt).Model
  | query => Query.model rt
  | answer => Answer.model rt
  | empty => Empty.model rt

end Classes

/-! ## Every message -/

variable {rt : Runtime} {type : MessageType}

/-- **Messages that were written** one behind the other are read, and merged in their order, if
their unknown fields are unknown.  And only such a message is read back. -/
theorem merge_flatten_serialize {m : (type.messageClass rt).Obj}
    {sources : List (type.messageClass rt).Obj} (hm : Built _ m)
    (hsources : ∀ source ∈ sources, Built _ source ∧ (type.model rt).Writable source) :
    ((∀ source ∈ sources, (type.model rt).UnknownOnly source) →
        (type.messageClass rt).mergePartialFromCodedStream m
            (sources.map (type.messageClass rt).serializeWithCachedSizes).flatten =
          (true, sources.foldl (type.messageClass rt).mergeFrom m, [])) ∧
      ∀ source ∈ sources,
        ((type.messageClass rt).mergePartialFromCodedStream (type.messageClass rt).new
            ((type.messageClass rt).serializeWithCachedSizes source) = (true, source, []) ↔
          (type.model rt).UnknownOnly source) := by
  have hwf {s : (type.messageClass rt).Obj} (hs : Built _ s) : (type.model rt).WellFormed s :=
    (type.model rt).wellFormed_of_built hs
  constructor
  · intro hunknown
    induction sources generalizing m with
    | nil => exact MessageClass.Model.run_nil (type.model rt) m
    | cons source sources ih =>
        obtain ⟨⟨hbuilt, hwritable⟩, hrest⟩ := List.forall_mem_cons.mp hsources
        obtain ⟨hfirst, hothers⟩ := List.forall_mem_cons.mp hunknown
        rw [List.map_cons, List.flatten_cons,
          (type.model rt).run_serialize (hwf hm) (hwf hbuilt) hwritable hfirst, List.foldl_cons]
        exact ih (.mergeFrom hm hbuilt) hrest hothers
  · intro source hsource
    obtain ⟨hbuilt, hwritable⟩ := hsources source hsource
    exact (type.model rt).run_new_serialize_iff (hwf hbuilt) hwritable

/-- The later `id` counts. -/
theorem merge_flatten_serialize_someQuery :
    (Query.messageClass Runtime.standard).mergePartialFromCodedStream Query.new
        ([Query.new.setId 2, someQuery].map
          (Query.serializeWithCachedSizes Runtime.standard)).flatten =
      (true, (Query.new.mergeFrom (Query.new.setId 2)).mergeFrom someQuery, []) := by
  refine (@merge_flatten_serialize Runtime.standard .query Query.new
    [Query.new.setId 2, someQuery] .new ?_).1 ?_
  · refine List.forall_mem_cons.mpr ⟨⟨?_, ?_⟩, List.forall_mem_singleton.mpr
      ⟨someQuery_built, someQuery_writable⟩⟩
    · exact Built.set (C := Query.messageClass Runtime.standard) (Query.Setter.setId 2) .new
    · exact ⟨fun _ => trivial, fun h => absurd rfl h, nofun⟩
  · exact List.forall_mem_cons.mpr ⟨nofun, List.forall_mem_singleton.mpr someQuery_unknownOnly⟩

/-- **Reading into a message** succeeds on the inputs that a new message can read, and leaves
what merging the message read does. -/
theorem merge_iff_merge_fresh {m t : (type.messageClass rt).Obj} {input rest : List UInt8}
    (hm : Built _ m) :
    (type.messageClass rt).mergePartialFromCodedStream m input = (true, t, rest) ↔
      ∃ fresh, (type.messageClass rt).mergePartialFromCodedStream (type.messageClass rt).new
          input = (true, fresh, rest) ∧ t = (type.messageClass rt).mergeFrom m fresh :=
  (type.model rt).run_eq_merge ((type.model rt).wellFormed_of_built hm)

theorem merge_iff_merge_fresh_someQuery :
    (Query.messageClass Runtime.standard).mergePartialFromCodedStream someQuery
        [8, 1, 18, 1, 97] = (true, someQuery, []) ↔
      ∃ fresh, (Query.messageClass Runtime.standard).mergePartialFromCodedStream Query.new
          [8, 1, 18, 1, 97] = (true, fresh, []) ∧ someQuery = someQuery.mergeFrom fresh :=
  @merge_iff_merge_fresh Runtime.standard .query someQuery someQuery [8, 1, 18, 1, 97] []
    someQuery_built

/-- **The order of different fields** does not matter: two inputs that can be read, and hold the
same records of each field in the same order, leave the same message. -/
theorem merge_eq_of_filter_eq {m t t' : (type.messageClass rt).Obj}
    {input input' rest rest' : List UInt8} (hm : Built _ m)
    (hsame : ∀ slot, (((type.model rt).inputRecords input).filter fun r => r.slot = slot) =
      ((type.model rt).inputRecords input').filter fun r => r.slot = slot)
    (h : (type.messageClass rt).mergePartialFromCodedStream m input = (true, t, rest))
    (h' : (type.messageClass rt).mergePartialFromCodedStream m input' = (true, t', rest')) :
    t = t' := by
  obtain ⟨-, rfl, -⟩ := ((type.model rt).run_eq_true_iff).mp h
  obtain ⟨-, rfl, -⟩ := ((type.model rt).run_eq_true_iff).mp h'
  exact MessageClass.Model.foldl_eq_of_filter_eq ((type.model rt).wellFormed_of_built hm) hsame

/-- `questioner` in front of `id`. -/
theorem merge_eq_of_filter_eq_someQuery :
    [Record.int64 8 1, .string 18 [97]].foldl Query.apply
        (Query.new : Query Runtime.standard.UnknownField) =
      [Record.string 18 [97], .int64 8 1].foldl Query.apply Query.new := by
  have hid : Record.Typed Runtime.standard Query.kindOf (.int64 8 1) := ⟨by decide, rfl, trivial⟩
  have hquestioner : Record.Typed Runtime.standard Query.kindOf (.string 18 [97]) :=
    ⟨by decide, rfl, show 1 < 2 ^ 31 by decide⟩
  have hforth : ∀ r ∈ [Record.int64 8 1, .string 18 [97]],
      r.Typed Runtime.standard Query.kindOf :=
    List.forall_mem_cons.mpr ⟨hid, List.forall_mem_singleton.mpr hquestioner⟩
  have hback : ∀ r ∈ [Record.string 18 [97], .int64 8 1],
      r.Typed Runtime.standard Query.kindOf :=
    List.forall_mem_cons.mpr ⟨hquestioner, List.forall_mem_singleton.mpr hid⟩
  refine @merge_eq_of_filter_eq Runtime.standard .query Query.new _ _ _ _ [] [] .new
    (fun slot => ?_)
    (MessageClass.Model.run_records (M := Query.model Runtime.standard) hforth Query.new)
    (MessageClass.Model.run_records (M := Query.model Runtime.standard) hback Query.new)
  rw [model, MessageClass.Model.inputRecords_flatten hforth,
    MessageClass.Model.inputRecords_flatten hback]
  by_cases h8 : some 8 = slot
  · subst h8
    rfl
  · simp [List.filter_cons, Record.slot, h8]

/-- **What was read is written in a normal form**: the message can be written, what is written
is read back as the message, and two inputs are written alike exactly if they were read alike. -/
theorem merge_serialize_of_merge {t : (type.messageClass rt).Obj} {input rest : List UInt8}
    (h : (type.messageClass rt).mergePartialFromCodedStream (type.messageClass rt).new input =
      (true, t, rest)) :
    (type.model rt).Writable t ∧
      (type.messageClass rt).mergePartialFromCodedStream (type.messageClass rt).new
        ((type.messageClass rt).serializeWithCachedSizes t) = (true, t, []) ∧
      ∀ {t' : (type.messageClass rt).Obj} {input' rest' : List UInt8},
        (type.messageClass rt).mergePartialFromCodedStream (type.messageClass rt).new input' =
          (true, t', rest') →
        ((type.messageClass rt).serializeWithCachedSizes t =
          (type.messageClass rt).serializeWithCachedSizes t' ↔ t = t') := by
  have hback {t : (type.messageClass rt).Obj} {input rest : List UInt8}
      (h : (type.messageClass rt).mergePartialFromCodedStream (type.messageClass rt).new input =
        (true, t, rest)) :
      (type.model rt).Writable t ∧
        (type.messageClass rt).mergePartialFromCodedStream (type.messageClass rt).new
          ((type.messageClass rt).serializeWithCachedSizes t) = (true, t, []) := by
    have hwf := (type.model rt).wellFormed_run input (type.model rt).wellFormed_new
    have hunknown := ((type.model rt).unknownOnly_run_iff input).mpr (type.model rt).unknownOnly_new
    rw [h] at hwf hunknown
    have hwritable := (type.model rt).writable_of_run h
    exact ⟨hwritable, ((type.model rt).run_new_serialize_iff hwf hwritable).mpr hunknown⟩
  obtain ⟨hwritable, hread⟩ := hback h
  refine ⟨hwritable, hread, fun h' => ⟨fun hsame => ?_, congrArg _⟩⟩
  have hread' := (hback h').2
  rw [← hsame, hread] at hread'
  cases hread'
  rfl

theorem merge_serialize_of_merge_someQuery :
    (Query.messageClass Runtime.standard).mergePartialFromCodedStream Query.new
      (someQuery.serializeWithCachedSizes Runtime.standard) = (true, someQuery, []) :=
  (@merge_serialize_of_merge Runtime.standard .query someQuery _ _ merge_someQuery).2.1

/-- **Writing to an array** is one store of what is written to a stream.  `ByteSizeLong()` is
how long that is, and how far the pointer is moved; where there is no room for it, the call
writes outside the array. -/
theorem toArray_eq_store {m : (type.messageClass rt).Obj} {n target : ℕ}
    (hm : (type.model rt).Writable m)
    (hlt : ((type.messageClass rt).serializeWithCachedSizes m).length < 2 ^ 64)
    (array : CharArray n) (htarget : target ≤ n) :
    ((type.messageClass rt).byteSizeLong m).toNat =
        ((type.messageClass rt).serializeWithCachedSizes m).length ∧
      (target + ((type.messageClass rt).byteSizeLong m).toNat ≤ n →
        ∃ array', (type.messageClass rt).internalSerializeWithCachedSizesToArray m array target =
            .ok (array', target + ((type.messageClass rt).byteSizeLong m).toNat) ∧
          array'.bytes = overwrite array.bytes target
            ((type.messageClass rt).serializeWithCachedSizes m)) ∧
      (n < target + ((type.messageClass rt).byteSizeLong m).toNat →
        (type.messageClass rt).internalSerializeWithCachedSizesToArray m array target =
          .error .outOfBounds) := by
  have hsize : ((type.messageClass rt).byteSizeLong m).toNat =
      ((type.messageClass rt).serializeWithCachedSizes m).length := by
    rw [(type.model rt).byteSizeLong_eq hm, UInt64.toNat_ofNat', Nat.mod_eq_of_lt hlt]
  rw [hsize, (type.model rt).toArray_eq m array htarget]
  exact ⟨rfl, writeToArray_of_fits array, writeToArray_of_not_fits array⟩

theorem toArray_eq_store_someQuery :
    ∃ array', someQuery.internalSerializeWithCachedSizesToArray Runtime.standard
        (CharArray.zeros 8) 2 = .ok (array', 7) ∧
      array'.bytes = overwrite (CharArray.zeros 8).bytes 2
        (someQuery.serializeWithCachedSizes Runtime.standard) := by
  have hlength : (someQuery.serializeWithCachedSizes Runtime.standard).length = 5 := by
    rw [serialize_someQuery]
    rfl
  obtain ⟨hsize, hfits, -⟩ := @toArray_eq_store Runtime.standard .query someQuery 8 2
    someQuery_writable (hlength.trans_lt (by decide)) (CharArray.zeros 8) (by decide)
  have hfive := hsize.trans hlength
  rw [hfive] at hfits
  exact hfits (by decide)

/-- **The objects of a class**: absent fields have their defaults, after whatever calls.
`MergeFrom` is associative, an object that is new or cleared adds nothing, and both kinds of
copies are equal to what was copied.  A merged object has the unknown fields of both, and
reading adds none that are known. -/
theorem wellFormed_and_merging {m m' m'' : (type.messageClass rt).Obj} (hm : Built _ m)
    (hm' : Built _ m') (hm'' : Built _ m'') :
    (type.model rt).WellFormed m ∧
      (type.messageClass rt).mergeFrom ((type.messageClass rt).mergeFrom m m') m'' =
        (type.messageClass rt).mergeFrom m ((type.messageClass rt).mergeFrom m' m'') ∧
      (type.messageClass rt).mergeFrom m (type.messageClass rt).new = m ∧
      (type.messageClass rt).mergeFrom (type.messageClass rt).new m = m ∧
      (type.messageClass rt).clear m = (type.messageClass rt).new ∧
      (type.messageClass rt).copy m = m ∧
      (type.messageClass rt).copyFrom m m' = m' ∧
      (type.messageClass rt).internalSwap m m' = (m', m) ∧
      ((type.model rt).UnknownOnly ((type.messageClass rt).mergeFrom m m') ↔
        (type.model rt).UnknownOnly m ∧ (type.model rt).UnknownOnly m') ∧
      ∀ input, (type.model rt).UnknownOnly
          ((type.messageClass rt).mergePartialFromCodedStream m input).2.1 ↔
        (type.model rt).UnknownOnly m := by
  have hwf := (type.model rt).wellFormed_of_built hm
  have hwf' := (type.model rt).wellFormed_of_built hm'
  have hwf'' := (type.model rt).wellFormed_of_built hm''
  exact ⟨hwf, (type.model rt).mergeFrom_assoc hwf hwf' hwf'', (type.model rt).mergeFrom_new hwf,
    (type.model rt).new_mergeFrom hwf, (type.model rt).clear_eq hwf, (type.model rt).copy_eq hwf,
    (type.model rt).copyFrom_eq_source hwf hwf', (type.model rt).swap_eq m m',
    (type.model rt).unknownOnly_mergeFrom_iff hwf', (type.model rt).unknownOnly_run_iff⟩

theorem wellFormed_and_merging_someQuery :
    (someQuery.mergeFrom (Query.new.setId 2)).mergeFrom someQuery =
      someQuery.mergeFrom ((Query.new.setId 2).mergeFrom someQuery) :=
  (@wellFormed_and_merging Runtime.standard .query someQuery (Query.new.setId 2) someQuery
    someQuery_built
    (Built.set (C := Query.messageClass Runtime.standard) (Query.Setter.setId 2) .new)
    someQuery_built).2.1

/-- **Required fields**: what was read by a new object is initialized exactly if the input has a
record of each required field, and then any object is, when it has read the input.  And an
object that is initialized stays so, whatever it reads, and whether that succeeds or not. -/
theorem isInitialized_merge_iff (input : List UInt8) :
    (∀ {t : (type.messageClass rt).Obj} {rest : List UInt8},
      (type.messageClass rt).mergePartialFromCodedStream (type.messageClass rt).new input =
          (true, t, rest) →
        ((type.messageClass rt).isInitialized t = true ↔ ∀ tag ∈ (type.model rt).required,
          ∃ r ∈ (type.model rt).inputRecords input, r.slot = some tag) ∧
        ((type.messageClass rt).isInitialized t = true → ∀ m,
          (type.messageClass rt).isInitialized
            ((type.messageClass rt).mergePartialFromCodedStream m input).2.1 = true)) ∧
      ∀ m, (type.messageClass rt).isInitialized m = true →
        (type.messageClass rt).isInitialized
          ((type.messageClass rt).mergePartialFromCodedStream m input).2.1 = true := by
  refine ⟨fun {t rest} h => ?_, fun m hm => (type.model rt).isInitialized_run input hm⟩
  obtain ⟨htag, rfl, rfl⟩ := ((type.model rt).run_eq_true_iff).mp h
  have htyped := MessageClass.Model.typed_inputRecords (M := type.model rt) input
  -- a new object has no field yet
  have hfresh : (type.messageClass rt).isInitialized (((type.model rt).inputRecords input).foldl
        (type.model rt).apply (type.messageClass rt).new) = true ↔
      ∀ tag ∈ (type.model rt).required,
        ∃ r ∈ (type.model rt).inputRecords input, r.slot = some tag := by
    rw [MessageClass.Model.isInitialized_foldl htyped]
    refine forall₂_congr fun tag _ => or_iff_right ?_
    rw [(type.model rt).meaning_new]
    exact (type.model rt).not_present_one tag
  refine ⟨hfresh, fun hinit m => ?_⟩
  have hrun := ((type.model rt).run_eq_true_iff (m := m)).mpr ⟨htag, rfl, rfl⟩
  rw [hrun]
  exact (MessageClass.Model.isInitialized_foldl htyped m).mpr fun tag htag =>
    Or.inr (hfresh.mp hinit tag htag)

theorem isInitialized_merge_iff_someQuery :
    someQuery.isInitialized = true ↔ ∀ tag ∈ [8, 18],
      ∃ r ∈ (Query.model Runtime.standard).inputRecords [8, 1, 18, 1, 97], r.slot = some tag :=
  ((@isInitialized_merge_iff Runtime.standard .query [8, 1, 18, 1, 97]).1 merge_someQuery).1

end MessageType

end Protobuf

end LearnUv
