import LearnUv.Common.Memory
import LearnUv.Library.LengthPrefixed

/-!
# `encode` of `protobuf_codec.h`

A protobuf message becomes one string: the length of what follows, the length of the
type name, the type name with its `NUL`, the serialized message, and a checksum of
everything between the first length and itself.  The first length is only known in
the end and is copied over the four bytes the string starts with.

The type name, the serialization and `adler32` come from libraries, and are the
fields of an `Environment`.

The repository has no decoder for these strings.  That one could be written is the
content of `isFraming_framable`; the only type names it leaves out are those whose
length with the `NUL` is no `int32_t`, and for which `encode` throws.

## Main Definitions

* `Environment` — what `encode` calls in the protobuf and zlib libraries
* `encode` — the function of the source
* `frame` — the string it is to return
* `IsFraming` — a class of messages is framed, and its framing can be undone

## Main Results

* `encode_eq_frame` — `encode` returns the frame, for names that fit
* `encode_eq_lengthError` — and throws when the length of the name becomes negative
* `isFraming_framable` — the messages with names that fit are framed
-/

namespace LearnUv

namespace Protobuf

open LengthPrefixed

universe u

/-- What `encode` calls in the protobuf and zlib libraries. -/
structure Environment (Message : Type u) where
  /-- `Message::GetTypeName`. -/
  getTypeName : Message → List UInt8
  /-- `Message::AppendToString`: the bytes appended, and whether it succeeded. -/
  appendToString : Message → List UInt8 × Bool
  /-- `adler32(adler, buf, len)`, of the `len` bytes at `buf`. -/
  adler32 : UInt64 → List UInt8 → UInt64

/-- `kHeaderLen`. -/
def kHeaderLen : Int32 := 4

/-- `std::string::append(s, n)`. -/
def stringAppend (result s : List UInt8) (n : UInt64) : Exec (List UInt8) :=
  if ptrdiffMax < result.length + n.toNat then
    .error .lengthError
  else do
    let bytes ← readBytes s n
    return result ++ bytes

variable {Message : Type u} (env : Environment Message)

/-- `encode(message)`. -/
def encode (message : Message) : Exec (List UInt8) := do
  let result := List.replicate (sizeOfInt kHeaderLen).toNat (0 : UInt8)
  let typeName := env.getTypeName message
  let nameLen : Int32 := intOfSize (UInt64.ofNat typeName.length + 1)
  let result := result ++ uint32Bytes nameLen.toUInt32
  let result ← stringAppend result (typeName ++ [0]) (sizeOfInt nameLen)
  let (serialized, succeed) := env.appendToString message
  let result := result ++ serialized
  if succeed then
    let begin := result.drop (sizeOfInt kHeaderLen).toNat
    -- the third parameter of `adler32` is a `uInt`
    let size := (UInt64.ofNat result.length - sizeOfInt kHeaderLen).toUInt32
    let covered ← readBytes begin size.toUInt64
    let checkSum := (env.adler32 1 covered).toUInt32
    let result := result ++ uint32Bytes checkSum
    let len := (UInt64.ofNat result.length - sizeOfInt kHeaderLen).toUInt32
    return overwrite result 0 (uint32Bytes len)
  else
    return []

/-! ## The frame -/

/-- The type name and the payload of a message. -/
def content (message : Message) : List UInt8 × List UInt8 :=
  (env.getTypeName message, (env.appendToString message).1)

/-- The bytes the checksum covers: the length of the name with its `NUL`, the name, the
`NUL` and the payload. -/
def covered (message : Message) : List UInt8 :=
  prefixed 4 (env.getTypeName message ++ [0]) ++ (env.appendToString message).1

/-- What comes after the length field. -/
def body (message : Message) : List UInt8 :=
  covered env message
    ++ BigEndian.digits 4 (env.adler32 1 (covered env message)).toUInt32.toNat

/-- The length of the rest, and the rest. -/
def frame (message : Message) : List UInt8 := prefixed 4 (body env message)

/-- A message that protobuf serializes, and whose frame has a length that fits into
the length field. -/
structure Serializable (message : Message) : Prop where
  succeeds : (env.appendToString message).2 = true
  payload_le : (env.appendToString message).1.length ≤ 2 ^ 31 - 1
  frame_lt : (frame env message).length < 2 ^ 32

/-- The concatenation of the encodings of some messages. -/
def encodeAll (messages : List Message) : Exec (List UInt8) := do
  let frames ← messages.mapM (encode env)
  return frames.flatten

/-- The messages `P` are framed, and a sequence of them is determined up to the
content of its messages by the concatenation of their encodings. -/
def IsFraming (P : Message → Prop) : Prop :=
  (∀ message, P message → encode env message = .ok (frame env message)) ∧
    ∀ (messages messages' : List Message) (bytes : List UInt8),
      (∀ message ∈ messages, P message) → (∀ message ∈ messages', P message) →
        encodeAll env messages = .ok bytes → encodeAll env messages' = .ok bytes →
          messages.map (content env) = messages'.map (content env)

/-! ## The two halves of a framing -/

section Decodability

variable {env} {message message' : Message}

theorem length_body (message : Message) :
    (body env message).length = (covered env message).length + 4 := by
  simp [body]

theorem length_covered (message : Message) :
    (covered env message).length
      = 5 + (env.getTypeName message).length + (env.appendToString message).1.length := by
  simp only [covered, List.length_append, length_prefixed, List.length_singleton]
  omega

theorem length_frame (message : Message) :
    (frame env message).length = (covered env message).length + 8 := by
  rw [frame, length_prefixed, length_body]
  omega

/-- What comes after the length field determines the content. -/
theorem content_eq_of_body_eq (h : Serializable env message)
    (h' : Serializable env message') (heq : body env message = body env message') :
    content env message = content env message' := by
  have hlt := h.frame_lt
  have hlt' := h'.frame_lt
  rw [length_frame, length_covered] at hlt hlt'
  have hcovered : covered env message = covered env message' :=
    List.append_inj_left' heq (by simp)
  obtain ⟨hname, hpayload⟩ := prefixed_append_inj
    (by rw [List.length_append, List.length_singleton]; omega)
    (by rw [List.length_append, List.length_singleton]; omega) hcovered
  rw [content, content, List.append_cancel_right hname, hpayload]

/-- The frame of a serializable message is a code word of four bytes of length. -/
theorem frame_mem_codeWords (h : Serializable env message) :
    frame env message ∈ codeWords 4 := by
  have hlt := h.frame_lt
  rw [frame, length_prefixed] at hlt
  exact ⟨body env message, by omega, rfl⟩

/-- Two lists of frames with one concatenation carry the same contents. -/
theorem map_content_eq {messages messages' : List Message}
    (h : ∀ message ∈ messages, Serializable env message)
    (h' : ∀ message ∈ messages', Serializable env message)
    (heq : (messages.map (frame env)).flatten = (messages'.map (frame env)).flatten) :
    messages.map (content env) = messages'.map (content env) := by
  have hmem : ∀ {ms : List Message}, (∀ message ∈ ms, Serializable env message) →
      ∀ w ∈ ms.map (frame env), w ∈ codeWords 4 := by
    intro ms hms w hw
    obtain ⟨message, hmessage, rfl⟩ := List.mem_map.mp hw
    exact frame_mem_codeWords (hms message hmessage)
  have hframes : messages.map (frame env) = messages'.map (frame env) :=
    uniquelyDecodable_prefixed (by decide) _ _ (hmem h) (hmem h') heq
  clear heq
  induction messages generalizing messages' with
  | nil =>
      have hnil : messages' = [] := List.map_eq_nil_iff.mp hframes.symm
      rw [hnil]
  | cons message messages ih =>
      cases messages' with
      | nil => cases hframes
      | cons message' messages' =>
          obtain ⟨hhead, htail⟩ := List.cons.inj hframes
          have hbody : body env message = body env message' := by
            unfold frame prefixed at hhead
            exact (List.append_inj hhead (by simp)).2
          rw [List.map_cons, List.map_cons,
            content_eq_of_body_eq (h message (by simp)) (h' message' (by simp)) hbody,
            ih (fun m hm => h m (List.mem_cons_of_mem _ hm))
              (fun m hm => h' m (List.mem_cons_of_mem _ hm)) htail]

end Decodability

/-! ## What `encode` returns -/

section Encode

variable {env} {message : Message}

theorem toNat_nameLen {n : ℕ} (h : n + 1 < 2 ^ 31) : (UInt64.ofNat n + 1).toNat = n + 1 := by
  rw [UInt64.toNat_add, UInt64.toNat_ofNat', show (1 : UInt64).toNat = 1 from rfl]
  omega

/-- A name length that is an `int32_t` goes through the conversions unchanged. -/
theorem toInt_nameLen {n : ℕ} (h : n + 1 < 2 ^ 31) :
    (intOfSize (UInt64.ofNat n + 1)).toInt = (n + 1 : ℕ) := by
  have hsize := toNat_nameLen h
  rw [toInt_intOfSize (by omega), hsize]

/-- The length field of the name. -/
theorem uint32Bytes_nameLen {n : ℕ} (h : n + 1 < 2 ^ 31) :
    uint32Bytes (intOfSize (UInt64.ofNat n + 1)).toUInt32 = BigEndian.digits 4 (n + 1) := by
  rw [uint32Bytes, intOfSize, UInt32.toUInt32_toInt32, UInt64.toNat_toUInt32, toNat_nameLen h,
    Nat.mod_eq_of_lt (by omega)]

theorem toNat_sizeOfInt_kHeaderLen : (sizeOfInt kHeaderLen).toNat = 4 := rfl

/-- The number of bytes after the length field, of which `size()` counts four more. -/
theorem toNat_size_sub {n : ℕ} (h : n < 2 ^ 32) :
    (UInt64.ofNat (4 + n) - sizeOfInt kHeaderLen).toUInt32.toNat = n := by
  have hsub : (UInt64.ofNat (4 + n) - sizeOfInt kHeaderLen).toNat = n := by
    have hle : sizeOfInt kHeaderLen ≤ UInt64.ofNat (4 + n) := by
      rw [UInt64.le_iff_toNat_le, UInt64.toNat_ofNat',
        toNat_sizeOfInt_kHeaderLen]
      omega
    rw [UInt64.toNat_sub_of_le _ _ hle, UInt64.toNat_ofNat',
      toNat_sizeOfInt_kHeaderLen]
    omega
  rw [UInt64.toNat_toUInt32, hsub, Nat.mod_eq_of_lt h]

theorem stringAppend_self {result s : List UInt8} {n : UInt64} (hn : n.toNat = s.length)
    (h : result.length + s.length ≤ ptrdiffMax) :
    stringAppend result s n = .ok (result ++ s) := by
  have hread : readBytes s n = .ok s :=
    readBytes_eq_ok.mpr ⟨hn.le, by rw [hn, List.take_length]⟩
  rw [stringAppend, if_neg (by omega), hread]
  rfl

/-- A negative length is a `size_t` above `max_size()`. -/
theorem stringAppend_of_neg {result s : List UInt8} {n : Int32} (h : n < 0) :
    stringAppend result s (sizeOfInt n) = .error .lengthError := by
  have hneg : n.toInt64 < 0 := by
    rw [Int64.lt_iff_toInt_lt, Int32.toInt_toInt64]
    exact Int32.lt_iff_toInt_lt.mp h
  have hlt := ptrdiffMax_lt_toUInt64 hneg
  rw [stringAppend, if_pos (by unfold sizeOfInt; omega)]

/-- `encode` returns the frame of a message whose name fits. -/
theorem encode_eq_frame (h : Serializable env message)
    (hname : (env.getTypeName message).length + 1 < 2 ^ 31) :
    encode env message = .ok (frame env message) := by
  have hlt := h.frame_lt
  rw [length_frame] at hlt
  have hcovered : (covered env message).length
      = 5 + (env.getTypeName message).length + (env.appendToString message).1.length :=
    length_covered message
  have hnameLen : (sizeOfInt (intOfSize (UInt64.ofNat (env.getTypeName message).length + 1))).toNat
      = (env.getTypeName message ++ [0]).length := by
    have hint := toInt_nameLen hname
    rw [toNat_sizeOfInt (by omega), hint, Int.toNat_natCast, List.length_append,
      List.length_singleton]
  -- the string in front of the serialized message, with room for the length field
  have hfits : (List.replicate 4 0
      ++ BigEndian.digits 4 ((env.getTypeName message).length + 1)).length
        + (env.getTypeName message ++ [0]).length ≤ ptrdiffMax := by
    simp only [List.length_append, List.length_replicate, BigEndian.length_digits,
      List.length_singleton]
    unfold ptrdiffMax
    omega
  have happend := stringAppend_self hnameLen hfits
  have hresult : List.replicate 4 0 ++ BigEndian.digits 4 ((env.getTypeName message).length + 1)
      ++ (env.getTypeName message ++ [0]) ++ (env.appendToString message).1
        = List.replicate 4 0 ++ covered env message := by
    simp [covered, prefixed]
  have hsize : (UInt64.ofNat (List.replicate 4 0 ++ covered env message).length
      - sizeOfInt kHeaderLen).toUInt32.toNat = (covered env message).length := by
    rw [List.length_append, List.length_replicate, toNat_size_sub (by omega)]
  have hread : readBytes (covered env message)
      (UInt64.ofNat (List.replicate 4 0 ++ covered env message).length
        - sizeOfInt kHeaderLen).toUInt32.toUInt64 = .ok (covered env message) :=
    readBytes_eq_ok.mpr ⟨by rw [UInt32.toNat_toUInt64, hsize],
      by rw [UInt32.toNat_toUInt64, hsize, List.take_length]⟩
  -- the length field counts the checksum
  have hlen : (UInt64.ofNat (List.replicate 4 0 ++ body env message).length
      - sizeOfInt kHeaderLen).toUInt32.toNat = (body env message).length := by
    rw [List.length_append, List.length_replicate,
      toNat_size_sub (by rw [length_body]; omega)]
  have hoverwrite (len : UInt32) :
      overwrite (List.replicate 4 0 ++ body env message) 0 (uint32Bytes len)
        = uint32Bytes len ++ body env message := by
    simp [overwrite]
  have hdrop : (List.replicate 4 0 ++ covered env message).drop 4 = covered env message := by
    simp
  have hbody : List.replicate 4 0 ++ covered env message
      ++ uint32Bytes (env.adler32 1 (covered env message)).toUInt32
        = List.replicate 4 0 ++ body env message := by
    rw [List.append_assoc]
    rfl
  unfold encode
  simp only [toNat_sizeOfInt_kHeaderLen, uint32Bytes_nameLen hname, happend,
    AbortingRun.ok_bind, hresult, h.succeeds, if_true, hdrop, hread, hbody, hoverwrite]
  rw [uint32Bytes, hlen]
  rfl

/-- `encode` throws for a message whose name length is no `int32_t`. -/
theorem encode_eq_lengthError
    (h : intOfSize (UInt64.ofNat (env.getTypeName message).length + 1) < 0) :
    encode env message = .error .lengthError := by
  simp only [encode, stringAppend_of_neg h]
  rfl

/-- Encodings that succeed are concatenated. -/
theorem encodeAll_eq {messages : List Message}
    (h : ∀ message ∈ messages, encode env message = .ok (frame env message)) :
    encodeAll env messages = .ok (messages.map (frame env)).flatten := by
  have hmapM : messages.mapM (encode env) = .ok (messages.map (frame env)) := by
    induction messages with
    | nil => rfl
    | cons message messages ih =>
        rw [List.mapM_cons, h message (by simp), AbortingRun.ok_bind,
          ih fun m hm => h m (List.mem_cons_of_mem _ hm)]
        rfl
  rw [encodeAll, hmapM]
  rfl

end Encode

/-! ## The messages that are framed -/

/-- A serializable message whose name has, with the `NUL`, a length that is an
`int32_t`. -/
structure Framable (message : Message) : Prop extends Serializable env message where
  name_le : (env.getTypeName message).length ≤ 2 ^ 31 - 2

/-- **`encode` is a uniquely decodable framing** of the messages whose names fit. -/
theorem isFraming_framable : IsFraming env (Framable env) := by
  have hencode (message : Message) (h : Framable env message) :
      encode env message = .ok (frame env message) := by
    have hname := h.name_le
    exact encode_eq_frame h.toSerializable (by omega)
  refine ⟨hencode, fun messages messages' bytes h h' hbytes hbytes' => ?_⟩
  rw [encodeAll_eq fun m hm => hencode m (h m hm)] at hbytes
  rw [encodeAll_eq fun m hm => hencode m (h' m hm)] at hbytes'
  exact map_content_eq (fun m hm => (h m hm).toSerializable)
    (fun m hm => (h' m hm).toSerializable) (Except.ok.inj (hbytes.trans hbytes'.symm))

/-! ## Messages given by their bytes -/

/-- The two sums of a checksum after one more byte: of the bytes, and of the values the
first sum has had. -/
def adlerSums (sums : UInt64 × UInt64) (byte : UInt8) : UInt64 × UInt64 :=
  let a := (sums.1 + byte.toUInt64) % 65521
  (a, (sums.2 + a) % 65521)

/-- The `adler32` of zlib. -/
def adler32 (adler : UInt64) (buf : List UInt8) : UInt64 :=
  let sums := buf.foldl adlerSums (adler % 65536, adler / 65536 % 65536)
  sums.2 * 65536 + sums.1

/-- Messages that are a type name and the bytes protobuf serializes them to. -/
def rawEnvironment : Environment (List UInt8 × List UInt8) where
  getTypeName := Prod.fst
  appendToString message := (message.2, true)
  adler32 := adler32

/-- `learnuv.Query` with `id` 1 and `questioner` `"a"`. -/
def query : List UInt8 × List UInt8 :=
  ([108, 101, 97, 114, 110, 117, 118, 46, 81, 117, 101, 114, 121], [8, 1, 18, 1, 97])

/-- The encoding of a `learnuv.Query`. -/
theorem isFraming_framable_query :
    encode rawEnvironment query
      = .ok ([0, 0, 0, 27] ++ [0, 0, 0, 14] ++ query.1 ++ [0] ++ query.2 ++ [70, 26, 5, 205]) :=
  ((isFraming_framable rawEnvironment).1 query
    ⟨⟨rfl, by decide, by decide⟩, by decide⟩).trans (by decide)

/-- The messages are framed only as far as their names fit: for a name of `2 ^ 31 - 1`
bytes `encode` throws, although the frame is shorter than `2 ^ 32` bytes. -/
theorem not_isFraming_serializable :
    ¬ ∀ (Message : Type) (env : Environment Message), IsFraming env (Serializable env) := by
  intro h
  have hserializable : Serializable rawEnvironment (List.replicate (2 ^ 31 - 1) 97, []) := by
    refine ⟨rfl, Nat.zero_le _, ?_⟩
    rw [length_frame, length_covered]
    simp only [rawEnvironment, List.length_replicate, List.length_nil]
    norm_num
  have hok := (h _ rawEnvironment).1 _ hserializable
  rw [encode_eq_lengthError] at hok
  · cases hok
  · simp only [rawEnvironment, List.length_replicate]
    decide

end Protobuf

end LearnUv
