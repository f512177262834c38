import LearnUv.CodecTest.MessageFormat
import LearnUv.CodecTest.ProtobufCodec

/-!
# Frames of messages

`encode` frames the type name and the bytes of a message, and `createMessage` makes an empty
message of a type that is given by its name.  Nothing in the repository puts the two together
again; that it could be done, for every message of `query.proto` that can be sent, is the
content of `encode_createMessage`.

A message can be sent whatever is among its unknown fields, but it is read back only if these
are unknown.  If they are not, another message may have the same frame: one that has a field,
and one that has it among the unknown ones.  What the frames of a sequence of messages tell in
any case is their types and their bytes (`eq_of_encodeAll_eq`).

## Main Definitions

* `Message` — an object of one of the classes
* `Message.Sendable`, `Message.UnknownOnly` — messages that `encode` frames, and those of them
  that are read back
* `createMessage` — the function of the source
* `IsLibrary` — what is documented of `GetTypeName` and `AppendToString`

## Main Results

* `encode_createMessage` — a frame holds a type name that makes a message, and bytes that fill it
* `eq_of_encodeAll_eq` — messages can be told from their concatenated frames
-/

namespace LearnUv

namespace Protobuf

/-- An object of one of the classes. -/
structure Message (rt : Runtime) where
  type : MessageType
  obj : (type.messageClass rt).Obj

/-- `FindMessageTypeByName(type_name)`, among the types of `query.proto`. -/
def findMessageTypeByName (rt : Runtime) (type_name : List UInt8) : Option MessageType :=
  [MessageType.query, .answer, .empty].find? fun type =>
    (type.messageClass rt).typeName = type_name

/-- `createMessage(type_name)`. -/
def createMessage (rt : Runtime) (type_name : List UInt8) : Option (Message rt) :=
  let descriptor := findMessageTypeByName rt type_name
  match descriptor with
  | some type => some ⟨type, (type.messageClass rt).new⟩
  | none => none

variable {rt : Runtime}

namespace Message

/-- `GetTypeName()`. -/
def typeName (m : Message rt) : List UInt8 := (m.type.messageClass rt).typeName

/-- What the message is written as. -/
def serialize (m : Message rt) : List UInt8 :=
  (m.type.messageClass rt).serializeWithCachedSizes m.obj

/-- `IsInitialized()`. -/
def isInitialized (m : Message rt) : Bool := (m.type.messageClass rt).isInitialized m.obj

/-- `MergePartialFromCodedStream(input)`, of a message of any class. -/
def mergePartialFromCodedStream (m : Message rt) (input : List UInt8) :
    Bool × Message rt × List UInt8 :=
  let (ok, obj, rest) := (m.type.messageClass rt).mergePartialFromCodedStream m.obj input
  (ok, ⟨m.type, obj⟩, rest)

/-- A message that a program can make, with all required fields and of a size that protobuf
serializes. -/
structure Sendable (m : Message rt) : Prop where
  built : (m.type.messageClass rt).Built m.obj
  writable : (m.type.model rt).Writable m.obj
  initialized : m.isInitialized = true
  length_le : m.serialize.length ≤ 2 ^ 31 - 1

/-- Its unknown fields are not known to its class, and can be written. -/
def UnknownOnly (m : Message rt) : Prop := (m.type.model rt).UnknownOnly m.obj

end Message

/-- What is documented of `GetTypeName` and `AppendToString`: the latter appends what the
message serializes to, if the message is initialized and its size is an `int`. -/
structure IsLibrary (env : Environment (Message rt)) : Prop where
  getTypeName_eq : ∀ m, env.getTypeName m = m.typeName
  appendToString_eq : ∀ m : Message rt, m.isInitialized = true → m.serialize.length ≤ 2 ^ 31 - 1 →
    env.appendToString m = (m.serialize, true)

theorem length_typeName_le (m : Message rt) : m.typeName.length ≤ 14 := by
  obtain ⟨type, obj⟩ := m
  cases type <;> exact Nat.le_of_ble_eq_true rfl

/-- The names of the types are different. -/
theorem createMessage_typeName (m : Message rt) :
    createMessage rt m.typeName = some ⟨m.type, (m.type.messageClass rt).new⟩ := by
  obtain ⟨type, obj⟩ := m
  have hfind : findMessageTypeByName rt (Message.typeName ⟨type, obj⟩) = some type := by
    cases type <;> rfl
  rw [createMessage, hfind]

variable {env : Environment (Message rt)}

theorem framable_of_sendable (henv : IsLibrary env) {m : Message rt} (hm : m.Sendable) :
    Framable env m := by
  have happend := henv.appendToString_eq m hm.initialized hm.length_le
  have hname := henv.getTypeName_eq m
  have hle := length_typeName_le m
  have hlength := hm.length_le
  refine ⟨⟨?_, ?_, ?_⟩, ?_⟩
  · rw [happend]
  · rw [happend]
    exact hlength
  · rw [length_frame, length_covered, happend, hname]
    show 5 + m.typeName.length + m.serialize.length + 8 < 2 ^ 32
    omega
  · rw [hname]
    omega

theorem content_eq (henv : IsLibrary env) {m : Message rt} (hm : m.Sendable) :
    content env m = (m.typeName, m.serialize) := by
  rw [content, henv.appendToString_eq m hm.initialized hm.length_le, henv.getTypeName_eq]

/-- A message is read back into a new one of its class exactly if its unknown fields are
unknown. -/
theorem merge_serialize_iff {m : Message rt} (hm : m.Sendable) :
    (⟨m.type, (m.type.messageClass rt).new⟩ : Message rt).mergePartialFromCodedStream m.serialize =
      (true, m, []) ↔ m.UnknownOnly := by
  have hwf := (m.type.model rt).wellFormed_of_built hm.built
  rw [Message.UnknownOnly, ← (m.type.model rt).run_new_serialize_iff hwf hm.writable,
    Message.mergePartialFromCodedStream, Message.serialize]
  obtain ⟨type, obj⟩ := m
  simp [Prod.ext_iff]

/-! ## Sending -/

/-- A library that serializes every message, with the checksum of zlib. -/
def standardEnvironment : Environment (Message Runtime.standard) where
  getTypeName := Message.typeName
  appendToString m := (m.serialize, true)
  adler32 := adler32

theorem isLibrary_standard : IsLibrary standardEnvironment :=
  ⟨fun _ => rfl, fun _ _ _ => rfl⟩

/-- `someQuery`, as a message. -/
def someMessage : Message Runtime.standard := ⟨.query, someQuery⟩

theorem someMessage_sendable : someMessage.Sendable where
  built := someQuery_built
  writable := someQuery_writable
  initialized := rfl
  length_le := by
    show (someQuery.serializeWithCachedSizes Runtime.standard).length ≤ 2 ^ 31 - 1
    rw [serialize_someQuery]
    decide

theorem someMessage_unknownOnly : someMessage.UnknownOnly := someQuery_unknownOnly

/-- **A frame holds a message**: `encode` returns the frame of a message that can be sent, with
the name of its type and its bytes in it; the name makes a message, and the bytes fill it, which
gives the message back exactly if its unknown fields are unknown. -/
theorem encode_createMessage (henv : IsLibrary env) {m : Message rt} (hm : m.Sendable) :
    encode env m = .ok (frame env m) ∧ content env m = (m.typeName, m.serialize) ∧
      ∃ fresh, createMessage rt m.typeName = some fresh ∧
        (fresh.mergePartialFromCodedStream m.serialize = (true, m, []) ↔ m.UnknownOnly) := by
  have hframable := framable_of_sendable henv hm
  have hname := hframable.name_le
  exact ⟨encode_eq_frame hframable.toSerializable (by omega), content_eq henv hm, _,
    createMessage_typeName m, merge_serialize_iff hm⟩

theorem encode_createMessage_someMessage :
    encode standardEnvironment someMessage = .ok (frame standardEnvironment someMessage) ∧
      content standardEnvironment someMessage = (someMessage.typeName, someMessage.serialize) ∧
      ∃ fresh, createMessage Runtime.standard someMessage.typeName = some fresh ∧
        fresh.mergePartialFromCodedStream someMessage.serialize = (true, someMessage, []) := by
  obtain ⟨hencode, hcontent, fresh, hfresh, hiff⟩ :=
    encode_createMessage isLibrary_standard someMessage_sendable
  exact ⟨hencode, hcontent, fresh, hfresh, hiff.mpr someMessage_unknownOnly⟩

/-- A message that is read back is determined by the name of its type and its bytes. -/
theorem eq_of_serialize_eq {m m' : Message rt} (hm : m.Sendable) (hm' : m'.Sendable)
    (hunknown : m.UnknownOnly) (hunknown' : m'.UnknownOnly)
    (hname : m.typeName = m'.typeName) (hbytes : m.serialize = m'.serialize) : m = m' := by
  have hcreate := createMessage_typeName m
  rw [hname, createMessage_typeName m'] at hcreate
  have hfresh := Option.some.inj hcreate
  have hmerge := (merge_serialize_iff hm).mpr hunknown
  rw [← hfresh, hbytes, (merge_serialize_iff hm').mpr hunknown'] at hmerge
  exact (congrArg (fun p => p.2.1) hmerge).symm

/-- What the frames of messages that can be sent are in the concatenation. -/
theorem map_content_eq_of_sendable (henv : IsLibrary env) {messages : List (Message rt)}
    (h : ∀ m ∈ messages, m.Sendable) :
    messages.map (content env) = messages.map fun m => (m.typeName, m.serialize) :=
  List.map_congr_left fun m hm => content_eq henv (h m hm)

/-- **What can be told from frames**: if two sequences of messages that can be sent have the
same concatenation of frames, they have the same types and the same bytes, message by message;
and they are the same messages if the unknown fields are unknown in both. -/
theorem eq_of_encodeAll_eq (henv : IsLibrary env) {messages messages' : List (Message rt)}
    {bytes : List UInt8} (h : ∀ m ∈ messages, m.Sendable) (h' : ∀ m ∈ messages', m.Sendable)
    (hbytes : encodeAll env messages = .ok bytes) (hbytes' : encodeAll env messages' = .ok bytes) :
    (messages.map fun m => (m.typeName, m.serialize)) =
        (messages'.map fun m => (m.typeName, m.serialize)) ∧
      ((∀ m ∈ messages, m.UnknownOnly) → (∀ m ∈ messages', m.UnknownOnly) →
        messages = messages') := by
  have hencode {ms : List (Message rt)} (hms : ∀ m ∈ ms, m.Sendable) :
      encodeAll env ms = .ok (ms.map (frame env)).flatten := by
    refine encodeAll_eq fun m hm => ?_
    have hframable := framable_of_sendable henv (hms m hm)
    have hname := hframable.name_le
    exact encode_eq_frame hframable.toSerializable (by omega)
  rw [hencode h] at hbytes
  rw [hencode h'] at hbytes'
  have hcontent := map_content_eq
    (fun m hm => (framable_of_sendable henv (h m hm)).toSerializable)
    (fun m hm => (framable_of_sendable henv (h' m hm)).toSerializable)
    (Except.ok.inj (hbytes.trans hbytes'.symm))
  rw [map_content_eq_of_sendable henv h, map_content_eq_of_sendable henv h'] at hcontent
  refine ⟨hcontent, fun hunknown hunknown' => ?_⟩
  clear hbytes hbytes'
  induction messages generalizing messages' with
  | nil => exact (List.map_eq_nil_iff.mp hcontent.symm).symm
  | cons m messages ih =>
      cases messages' with
      | nil => cases hcontent
      | cons m' messages' =>
          obtain ⟨hhead, htail⟩ := List.cons.inj hcontent
          obtain ⟨hname, hpayload⟩ := Prod.mk.inj hhead
          obtain ⟨hm, hrest⟩ := List.forall_mem_cons.mp h
          obtain ⟨hm', hrest'⟩ := List.forall_mem_cons.mp h'
          obtain ⟨hfirst, hlater⟩ := List.forall_mem_cons.mp hunknown
          obtain ⟨hfirst', hlater'⟩ := List.forall_mem_cons.mp hunknown'
          rw [eq_of_serialize_eq hm hm' hfirst hfirst' hname hpayload,
            ih hrest hrest' htail hlater hlater']

/-- A message and a copy of it. -/
theorem eq_of_encodeAll_eq_someMessage :
    [someMessage] = [⟨.query, Query.ofQuery someQuery⟩] := by
  have hcopy : (⟨.query, Query.ofQuery someQuery⟩ : Message Runtime.standard) = someMessage :=
    congrArg (Message.mk .query) (Query.ofQuery_eq
      ((Query.model Runtime.standard).wellFormed_of_built someQuery_built))
  have hsendable : ∀ m ∈ [someMessage], m.Sendable :=
    List.forall_mem_singleton.mpr someMessage_sendable
  have hencode : encodeAll standardEnvironment [someMessage] =
      .ok ([someMessage].map (frame standardEnvironment)).flatten := by
    refine encodeAll_eq (List.forall_mem_singleton.mpr ?_)
    have hframable := framable_of_sendable isLibrary_standard someMessage_sendable
    have hname := hframable.name_le
    exact encode_eq_frame hframable.toSerializable (by omega)
  have hunknown : ∀ m ∈ [someMessage], m.UnknownOnly :=
    List.forall_mem_singleton.mpr someMessage_unknownOnly
  refine (eq_of_encodeAll_eq isLibrary_standard hsendable ?_ hencode ?_).2 hunknown ?_
  · rw [hcopy]
    exact hsendable
  · rw [hcopy]
    exact hencode
  · rw [hcopy]
    exact hunknown

end Protobuf

end LearnUv
