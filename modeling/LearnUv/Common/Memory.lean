import LearnUv.Library.AbortingRun
import LearnUv.Library.BigEndian
import Mathlib.Data.List.TakeWhile

/-!
# The C++ memory the programs work on

The programs of the repository are C++ over libuv.  They can stop in the middle of
a function: an `assert` fails, `std::vector` refuses a length, or a library
function is handed a range that is not inside an object.  `Abort` names these
outcomes, and every function of the model that can meet one of them returns an
`Exec`.

`size_t` is `UInt64`, `int` is `Int32` and `ssize_t` is `Int64`, with the wrapping
arithmetic of the machine.  A pointer into an object is the list of the bytes from
there to the end of the object, which is what may be read through it.

## Main Definitions

* `Abort`, `Exec` — how a call can fail to return, and calls that may
* `CharVector` — `std::vector<char>`, whose size is bounded by `max_size()`
* `CharArray` — `char[n]`
* `memcpy`, `strlen`, `cStr` — the library functions on raw memory
* `UvBuf`, `stage` — `uv_buf_t`, and putting bytes where a `uv_write` will find them
* `uint32Bytes`, `ntohl` — network byte order

Allocation failure is not modelled: `operator new` and `malloc` succeed.
-/

namespace LearnUv

/-- The functions that hold an `assert` a run can fail. -/
inductive AssertSite
  | retrieve
  | retrieveAsString
  | ensureWriableBytes
  | makeSpace
  | peekUInt32
  deriving DecidableEq, Repr

/-- Why a call does not return. -/
inductive Abort
  /-- `assert` failed. -/
  | assertion (site : AssertSite)
  /-- A container threw `std::length_error`: the size asked for is above `max_size()`. -/
  | lengthError
  /-- A library function was given a range outside the object, or an object that does
  not exist any more (undefined behaviour). -/
  | outOfBounds
  /-- The program called `exit`. -/
  | exit (code : Int32)
  deriving DecidableEq, Repr

/-- A call that returns an `α`, or aborts. -/
abbrev Exec (α : Type) : Type := Except Abort α

/-- `assert(p)`. -/
def assertThat (site : AssertSite) (p : Prop) [Decidable p] : Exec Unit :=
  if p then .ok () else .error (.assertion site)

theorem assertThat_of {site : AssertSite} {p : Prop} [Decidable p] (h : p) :
    assertThat site p = .ok () := if_pos h

theorem assertThat_of_not {site : AssertSite} {p : Prop} [Decidable p] (h : ¬p) :
    assertThat site p = .error (.assertion site) := if_neg h

@[simp] theorem assertThat_eq_ok {site : AssertSite} {p : Prop} [Decidable p] :
    assertThat site p = .ok () ↔ p := by
  by_cases h : p
  · simp [assertThat, h]
  · simp [assertThat, h]

/-- `check_uv(status)`. -/
def checkUv (status : Int32) : Exec Unit :=
  if status < 0 then .error (.exit status) else .ok ()

/-- `UV_EOF`. -/
def uvEof : Int64 := -4095

/-! ## Integer conversions -/

/-- The largest number of bytes one object can have (`PTRDIFF_MAX`). -/
def ptrdiffMax : ℕ := 2 ^ 63 - 1

/-- The conversion `int` to `size_t`, which sign-extends. -/
def sizeOfInt (n : Int32) : UInt64 := n.toInt64.toUInt64

/-- The conversion `size_t` to `int`, which keeps the low 32 bits. -/
def intOfSize (n : UInt64) : Int32 := n.toUInt32.toInt32

theorem toNat_sizeOfInt {n : Int32} (h : 0 ≤ n.toInt) :
    (sizeOfInt n).toNat = n.toInt.toNat := by
  have h64 : 0 ≤ n.toInt64 := by
    rw [Int64.le_iff_toInt_le, Int32.toInt_toInt64]
    exact h
  rw [sizeOfInt, Int64.toNat_toUInt64_of_le h64, ← Int64.toNat_toInt, Int32.toInt_toInt64]

theorem toInt_toInt32 (n : UInt32) :
    n.toInt32.toInt = if n.toNat < 2 ^ 31 then (n.toNat : ℤ) else (n.toNat : ℤ) - 2 ^ 32 := by
  have h : n.toInt32.toInt = n.toBitVec.toInt := rfl
  rw [h, BitVec.toInt_eq_toNat_cond, UInt32.toNat_toBitVec]
  split <;> split <;> omega

theorem toInt_intOfSize {n : UInt64} (h : n.toNat < 2 ^ 31) :
    (intOfSize n).toInt = n.toNat := by
  have hmod : n.toUInt32.toNat = n.toNat := by
    rw [UInt64.toNat_toUInt32]
    omega
  rw [intOfSize, toInt_toInt32, hmod, if_pos h]

/-- A negative `ssize_t` becomes a `size_t` that falls short of `2 ^ 64` by as much. -/
theorem toNat_toUInt64_of_neg {n : Int64} (h : n < 0) :
    n.toUInt64.toNat = 2 ^ 64 - n.toInt.natAbs := by
  have hneg : n.toInt < 0 := Int64.lt_iff_toInt_lt.mp h
  have hlt := n.toUInt64.toNat_lt
  have hint : n.toInt = if 2 * n.toUInt64.toNat < 2 ^ 64 then (n.toUInt64.toNat : ℤ)
      else (n.toUInt64.toNat : ℤ) - 2 ^ 64 := by
    rw [← Int64.toInt_toBitVec, BitVec.toInt_eq_toNat_cond, Int64.toNat_toBitVec]
    rfl
  rw [hint] at hneg ⊢
  split at hneg
  · omega
  · next hhigh =>
      rw [if_neg hhigh]
      omega

/-- That is more than an object can have. -/
theorem ptrdiffMax_lt_toUInt64 {n : Int64} (h : n < 0) : ptrdiffMax < n.toUInt64.toNat := by
  have hmin : -2 ^ 63 ≤ n.toInt := n.le_toInt
  have hneg : n.toInt < 0 := Int64.lt_iff_toInt_lt.mp h
  rw [toNat_toUInt64_of_neg h]
  unfold ptrdiffMax
  omega

/-! ## Raw memory -/

/-- The bytes of `dst` after `src` has been stored from position `off` on. -/
def overwrite (dst : List UInt8) (off : ℕ) (src : List UInt8) : List UInt8 :=
  dst.take off ++ src ++ dst.drop (off + src.length)

theorem length_overwrite {dst src : List UInt8} {off : ℕ}
    (h : off + src.length ≤ dst.length) :
    (overwrite dst off src).length = dst.length := by
  simp only [overwrite, List.length_append, List.length_take, List.length_drop]
  omega

/-- Storing into one object leaves its first bytes, up to where the store starts. -/
theorem take_overwrite {dst src : List UInt8} {off : ℕ} (h : off ≤ dst.length) :
    (overwrite dst off src).take (off + src.length) = dst.take off ++ src := by
  have hlen : (dst.take off ++ src).length = off + src.length := by
    simp only [List.length_append, List.length_take]
    omega
  rw [overwrite, ← hlen, List.take_left]

/-- The same for the beginning of what is stored. -/
theorem take_overwrite_append {dst src tail : List UInt8} {off : ℕ} (h : off ≤ dst.length) :
    (overwrite dst off (src ++ tail)).take (off + src.length) = dst.take off ++ src := by
  have hfront : (dst.take off ++ src).length = off + src.length := by
    rw [List.length_append, List.length_take, Nat.min_eq_left h]
  rw [overwrite, ← List.append_assoc, List.append_assoc, ← hfront, List.take_left]

/-- A store into the middle of three parts. -/
theorem overwrite_middle (front : List UInt8) {middle src : List UInt8} (back : List UInt8)
    (h : src.length = middle.length) :
    overwrite (front ++ (middle ++ back)) front.length src = front ++ (src ++ back) := by
  rw [overwrite, List.take_left, h, List.drop_length_add_append, List.drop_left,
    List.append_assoc]

/-- Two stores, one behind the other, are one. -/
theorem overwrite_append {dst first second : List UInt8} {off : ℕ}
    (h : off + first.length + second.length ≤ dst.length) :
    overwrite (overwrite dst off first) (off + first.length) second =
      overwrite dst off (first ++ second) := by
  have hfront : (dst.take off ++ first).length = off + first.length := by
    simp only [List.length_append, List.length_take]
    omega
  have hsize : second.length = ((dst.drop (off + first.length)).take second.length).length := by
    rw [List.length_take, List.length_drop]
    omega
  have hmiddle := overwrite_middle (dst.take off ++ first)
    ((dst.drop (off + first.length)).drop second.length) hsize
  rw [List.take_append_drop, hfront, List.drop_drop] at hmiddle
  have hfirst : overwrite dst off first =
      dst.take off ++ first ++ dst.drop (off + first.length) := rfl
  rw [hfirst, hmiddle]
  simp only [overwrite, List.length_append, List.append_assoc, Nat.add_assoc]

/-- Of two stores to one place the later one stays. -/
theorem overwrite_overwrite {dst first second tail : List UInt8} {off : ℕ}
    (h : off ≤ dst.length) (hlen : second.length = first.length) :
    overwrite (overwrite dst off (first ++ tail)) off second =
      overwrite dst off (second ++ tail) := by
  have hfront : (dst.take off).length = off := by
    rw [List.length_take, Nat.min_eq_left h]
  have hmiddle := overwrite_middle (dst.take off)
    (tail ++ dst.drop (off + (first ++ tail).length)) hlen
  have hfirst : overwrite dst off (first ++ tail) =
      dst.take off ++ (first ++ (tail ++ dst.drop (off + (first ++ tail).length))) := by
    simp only [overwrite, List.append_assoc]
  rw [hfront, ← hfirst] at hmiddle
  rw [hmiddle]
  simp only [overwrite, List.length_append, hlen, List.append_assoc]

/-- Storing nothing changes nothing. -/
@[simp] theorem overwrite_zero_nil (dst : List UInt8) : overwrite dst 0 [] = dst := by
  simp [overwrite]

/-- What was stored at the front is there. -/
theorem take_overwrite_zero (dst src : List UInt8) :
    (overwrite dst 0 src).take src.length = src := by
  simp [overwrite]

/-- What stands where after a store at the front. -/
theorem getElem?_overwrite_zero (dst src : List UInt8) (i : ℕ) :
    (overwrite dst 0 src)[i]? = if i < src.length then src[i]? else dst[i]? := by
  rw [overwrite, List.take_zero, List.nil_append, Nat.zero_add]
  split
  · next hlt => rw [List.getElem?_append_left hlt]
  · next hge =>
      have hle : src.length ≤ i := Nat.le_of_not_lt hge
      rw [List.getElem?_append_right hle, List.getElem?_drop, Nat.add_sub_cancel' hle]

/-- Read `len` bytes through a pointer: the range must be inside the object. -/
def readBytes (src : List UInt8) (len : UInt64) : Exec (List UInt8) :=
  if len.toNat ≤ src.length then .ok (src.take len.toNat) else .error .outOfBounds

theorem readBytes_eq_ok {src out : List UInt8} {len : UInt64} :
    readBytes src len = .ok out ↔ len.toNat ≤ src.length ∧ src.take len.toNat = out := by
  unfold readBytes
  split <;> simp_all

/-- `std::vector<char>`: its size never exceeds `max_size()`. -/
structure CharVector where
  /-- The elements. -/
  bytes : List UInt8
  /-- `size() <= max_size()`. -/
  length_le : bytes.length ≤ ptrdiffMax
  deriving DecidableEq

namespace CharVector

/-- `vector(n)`: `n` zero bytes. -/
def zeros (n : UInt64) (h : n.toNat ≤ ptrdiffMax) : CharVector :=
  ⟨List.replicate n.toNat 0, by simpa using h⟩

/-- `size()`. -/
def size (v : CharVector) : UInt64 := UInt64.ofNat v.bytes.length

@[simp] theorem toNat_size (v : CharVector) : v.size.toNat = v.bytes.length := by
  have h := v.length_le
  rw [size, UInt64.toNat_ofNat', Nat.mod_eq_of_lt]
  unfold ptrdiffMax at h
  omega

/-- `resize(n)`: keep the first `n` elements, and add zeros up to `n`. -/
def resize (v : CharVector) (n : UInt64) : Exec CharVector :=
  if h : n.toNat ≤ ptrdiffMax then
    .ok ⟨v.bytes.take n.toNat ++ List.replicate (n.toNat - v.bytes.length) 0, by
      simp only [List.length_append, List.length_take, List.length_replicate]
      omega⟩
  else .error .lengthError

/-- `len` bytes are stored from `begin() + off` on. -/
def store (v : CharVector) (off : UInt64) (src : List UInt8) (len : UInt64) :
    Exec CharVector :=
  if h : len.toNat ≤ src.length ∧ off.toNat + len.toNat ≤ v.bytes.length then
    .ok ⟨overwrite v.bytes off.toNat (src.take len.toNat), by
      rw [length_overwrite (by rw [List.length_take]; omega)]
      exact v.length_le⟩
  else .error .outOfBounds

/-- `std::copy(src, src + len, begin() + off)`.  A length above `PTRDIFF_MAX` is a negative
number that was converted to a `size_t`, and the range ends before it begins.  The language
does not say what happens then; it is assumed here that the loop of the library, which runs
while the distance is positive, copies nothing. -/
def copy (v : CharVector) (off : UInt64) (src : List UInt8) (len : UInt64) :
    Exec CharVector :=
  if ptrdiffMax < len.toNat then .ok v else v.store off src len

/-- A range that does not end before it begins is stored. -/
theorem copy_of_le {v : CharVector} {off len : UInt64} {src : List UInt8}
    (h : len.toNat ≤ ptrdiffMax) : v.copy off src len = v.store off src len :=
  if_neg (Nat.not_lt.mpr h)

theorem resize_of_le {v : CharVector} {n : UInt64} (h : n.toNat ≤ ptrdiffMax) :
    ∃ v', v.resize n = .ok v' ∧
      v'.bytes = v.bytes.take n.toNat ++ List.replicate (n.toNat - v.bytes.length) 0 :=
  ⟨_, dif_pos h, rfl⟩

theorem resize_of_gt {v : CharVector} {n : UInt64} (h : ptrdiffMax < n.toNat) :
    v.resize n = .error .lengthError := dif_neg (by omega)

theorem store_of_fits {v : CharVector} {off len : UInt64} {src : List UInt8}
    (hsrc : len.toNat ≤ src.length) (hdst : off.toNat + len.toNat ≤ v.bytes.length) :
    ∃ v', v.store off src len = .ok v' ∧
      v'.bytes = overwrite v.bytes off.toNat (src.take len.toNat) :=
  ⟨_, dif_pos ⟨hsrc, hdst⟩, rfl⟩

theorem store_of_not_fits {v : CharVector} {off len : UInt64} {src : List UInt8}
    (hdst : v.bytes.length < off.toNat + len.toNat) :
    v.store off src len = .error .outOfBounds := dif_neg (by omega)

end CharVector

/-- `char[n]`. -/
structure CharArray (n : ℕ) where
  /-- The elements. -/
  bytes : List UInt8
  /-- There are `n` of them. -/
  length_eq : bytes.length = n
  deriving DecidableEq

namespace CharArray

variable {n : ℕ}

/-- An array of zeros, as that of a global variable is. -/
def zeros (n : ℕ) : CharArray n := ⟨List.replicate n 0, List.length_replicate⟩

theorem length_bytes_eq (first second : CharArray n) :
    first.bytes.length = second.bytes.length :=
  first.length_eq.trans second.length_eq.symm

theorem eq_of_bytes_eq {first second : CharArray n} (h : first.bytes = second.bytes) :
    first = second := by
  cases first
  cases second
  cases h
  rfl

/-- Bytes are stored from `array + off` on. -/
def store (array : CharArray n) (off : ℕ) (src : List UInt8) : Exec (CharArray n) :=
  if h : off + src.length ≤ n then
    .ok ⟨overwrite array.bytes off src, by
      rw [length_overwrite (by rw [array.length_eq]; exact h)]
      exact array.length_eq⟩
  else .error .outOfBounds

theorem store_of_fits (array : CharArray n) {off : ℕ} {src : List UInt8}
    (h : off + src.length ≤ n) :
    ∃ array', array.store off src = .ok array' ∧ array'.bytes = overwrite array.bytes off src :=
  ⟨_, dif_pos h, rfl⟩

theorem store_of_not_fits (array : CharArray n) {off : ℕ} {src : List UInt8}
    (h : n < off + src.length) : array.store off src = .error .outOfBounds :=
  dif_neg (Nat.not_le.mpr h)

/-- Storing nothing changes nothing. -/
@[simp] theorem store_zero_nil (array : CharArray n) : array.store 0 [] = .ok array := by
  rw [store, dif_pos (by simp)]
  simp

/-- `std::reverse(array + first, array + last)`. -/
def reverse (array : CharArray n) (first last : ℕ) : Exec (CharArray n) :=
  if h : first ≤ last ∧ last ≤ n then
    .ok ⟨overwrite array.bytes first ((array.bytes.take last).drop first).reverse, by
      rw [length_overwrite (by
        rw [List.length_reverse, List.length_drop, List.length_take, array.length_eq]
        omega)]
      exact array.length_eq⟩
  else .error .outOfBounds

theorem reverse_of_fits (array : CharArray n) {first last : ℕ} (h : first ≤ last)
    (hlast : last ≤ n) :
    ∃ array', array.reverse first last = .ok array' ∧
      array'.bytes = overwrite array.bytes first ((array.bytes.take last).drop first).reverse :=
  ⟨_, dif_pos ⟨h, hlast⟩, rfl⟩

/-- `memcpy(array, src, len)`. -/
def memcpy (array : CharArray n) (src : List UInt8) (len : UInt64) : Exec (CharArray n) :=
  if h : len.toNat ≤ src.length ∧ len.toNat ≤ n then
    .ok ⟨overwrite array.bytes 0 (src.take len.toNat), by
      rw [length_overwrite (by rw [List.length_take, array.length_eq]; omega)]
      exact array.length_eq⟩
  else .error .outOfBounds

theorem memcpy_of_fits (array : CharArray n) {src : List UInt8} {len : UInt64}
    (hsrc : len.toNat ≤ src.length) (hdst : len.toNat ≤ n) :
    ∃ array', array.memcpy src len = .ok array' ∧
      array'.bytes = overwrite array.bytes 0 (src.take len.toNat) :=
  ⟨_, dif_pos ⟨hsrc, hdst⟩, rfl⟩

end CharArray

/-! ## Staged writes -/

/-- A `uv_buf_t` whose `base` is the start of an array: all that libuv keeps of the
bytes to write is where they are and how many. -/
structure UvBuf where
  len : UInt64
  deriving DecidableEq

/-- `uv_buf_init(array, len)`: the length is an `unsigned int`. -/
def uvBufInit (len : UInt64) : UvBuf := ⟨len.toUInt32.toUInt64⟩

/-- The bytes libuv finds in the array if it copies them out now. -/
def UvBuf.bytes {n : ℕ} (ub : UvBuf) (array : CharArray n) : List UInt8 :=
  array.bytes.take ub.len.toNat

/-- `memcpy(array, buf, len); uv_buf_init(array, len)`: what is to be written is put
into a staging array, and libuv is given the array. -/
def stage {n : ℕ} (array : CharArray n) (buf : List UInt8) (len : UInt64) :
    Exec (CharArray n × UvBuf) := do
  let array ← array.memcpy buf len
  return (array, uvBufInit len)

theorem uvBufInit_len {len : UInt64} (h : len.toNat < 2 ^ 32) : (uvBufInit len).len = len := by
  apply UInt64.toNat.inj
  rw [uvBufInit, UInt32.toNat_toUInt64, UInt64.toNat_toUInt32, Nat.mod_eq_of_lt h]

/-- What fits is staged at the front of the array. -/
theorem stage_of_fits {n : ℕ} (array : CharArray n) {buf : List UInt8} {len : UInt64}
    (hn : n < 2 ^ 32) (hbuf : len.toNat ≤ buf.length) (hfits : len.toNat ≤ n) :
    ∃ array', stage array buf len = .ok (array', ⟨len⟩) ∧
      array'.bytes = overwrite array.bytes 0 (buf.take len.toNat) ∧
        UvBuf.bytes ⟨len⟩ array' = buf.take len.toNat := by
  obtain ⟨array', hcopy, hbytes⟩ := array.memcpy_of_fits hbuf hfits
  refine ⟨array', ?_, hbytes, ?_⟩
  · have hlen : uvBufInit len = ⟨len⟩ := congrArg UvBuf.mk (uvBufInit_len (by omega))
    rw [stage, hcopy, AbortingRun.ok_bind, hlen]
    rfl
  · have hlength : (buf.take len.toNat).length = len.toNat := by
      rw [List.length_take]
      omega
    have hfront := @take_overwrite array.bytes (buf.take len.toNat) 0 (Nat.zero_le _)
    rw [hlength, Nat.zero_add, List.take_zero, List.nil_append] at hfront
    rw [UvBuf.bytes, hbytes]
    exact hfront

/-- What does not fit does not return. -/
theorem stage_of_not_fits {n : ℕ} {array : CharArray n} {buf : List UInt8} {len : UInt64}
    (h : n < len.toNat) : stage array buf len = .error .outOfBounds := by
  rw [stage, CharArray.memcpy, dif_neg (by omega), AbortingRun.error_bind]

/-! ## C strings -/

/-- The C string a pointer denotes: the bytes before the first NUL. -/
def cString (src : List UInt8) : List UInt8 := src.takeWhile (· ≠ 0)

/-- `strlen(src)`: reads up to the first NUL, which must be inside the object. -/
def strlen (src : List UInt8) : Exec UInt64 :=
  if 0 ∈ src then .ok (UInt64.ofNat (cString src).length) else .error .outOfBounds

/-- `s.c_str()`: the bytes of a `std::string`, and a NUL. -/
def cStr (s : List UInt8) : List UInt8 := s ++ [0]

/-- A C string is the front of the memory it lies in. -/
theorem take_length_cString (src : List UInt8) :
    src.take (cString src).length = cString src :=
  (List.prefix_iff_eq_take.mp (List.takeWhile_prefix _)).symm

/-- The C string goes on behind NUL-free bytes. -/
theorem cString_append {s : List UInt8} (hnul : 0 ∉ s) (tail : List UInt8) :
    cString (s ++ tail) = s ++ cString tail := by
  have hall : ∀ c ∈ s, decide (c ≠ 0) = true := by
    intro c hc
    have hne : c ≠ 0 := fun h => hnul (h ▸ hc)
    simpa using hne
  rw [cString, List.takeWhile_append_of_pos hall, cString]

/-- The C string of memory with a NUL after NUL-free bytes. -/
theorem cString_append_zero {s tail : List UInt8} (hnul : 0 ∉ s) :
    cString (s ++ 0 :: tail) = s := by
  rw [cString_append hnul, cString, List.takeWhile_cons_of_neg (by decide), List.append_nil]

/-- Memory starts with a NUL exactly when it has one and its C string is empty. -/
theorem cString_eq_nil_iff {tail : List UInt8} :
    (0 ∈ tail ∧ cString tail = []) ↔ tail.head? = some 0 := by
  cases tail with
  | nil => simp
  | cons c tail =>
      rw [List.head?_cons, Option.some_inj]
      constructor
      · rintro ⟨-, hnil⟩
        by_contra hc
        rw [cString, List.takeWhile_cons_of_pos (by simpa using hc)] at hnil
        cases hnil
      · rintro rfl
        exact ⟨List.mem_cons_self, rfl⟩

/-- `c_str()` of a string: what is before its first NUL. -/
theorem cString_cStr (s : List UInt8) : cString (cStr s) = cString s := by
  induction s with
  | nil => rfl
  | cons c s ih =>
      by_cases hc : c = 0
      · subst hc
        rfl
      · simp only [cString, cStr, List.cons_append, List.takeWhile_cons, ne_eq, hc,
          not_false_eq_true, decide_true, if_true] at ih ⊢
        rw [ih]

theorem cString_of_notMem {s : List UInt8} (hnul : 0 ∉ s) : cString s = s := by
  rw [← cString_cStr, cStr, cString_append_zero hnul]

/-- A byte string is a C string exactly when it has no NUL. -/
theorem cString_eq_self_iff {s : List UInt8} : cString s = s ↔ 0 ∉ s := by
  constructor
  · intro h hnul
    rw [← h] at hnul
    exact absurd (List.mem_takeWhile_imp hnul) (by decide)
  · exact cString_of_notMem

theorem notMem_cString (src : List UInt8) : 0 ∉ cString src :=
  fun hnul => absurd (List.mem_takeWhile_imp hnul) (by decide)

theorem zero_mem_cStr (s : List UInt8) : 0 ∈ cStr s := by simp [cStr]

theorem length_cString_le (src : List UInt8) : (cString src).length ≤ src.length :=
  (List.takeWhile_prefix _).length_le

/-! ## Network byte order -/

/-- The bytes in memory of `htonl(n)`: most significant first, on every host. -/
def uint32Bytes (n : UInt32) : List UInt8 := BigEndian.digits 4 n.toNat

/-- The value `ntohl` gives to four bytes of memory. -/
def ntohl (bytes : List UInt8) : UInt32 := UInt32.ofNat (BigEndian.value bytes)

@[simp] theorem length_uint32Bytes (n : UInt32) : (uint32Bytes n).length = 4 :=
  BigEndian.length_digits 4 n.toNat

@[simp] theorem ntohl_uint32Bytes (n : UInt32) : ntohl (uint32Bytes n) = n := by
  rw [ntohl, uint32Bytes, BigEndian.value_digits 4 n.toNat n.toNat_lt, UInt32.ofNat_toNat]

theorem uint32Bytes_ntohl {bytes : List UInt8} (h : bytes.length = 4) :
    uint32Bytes (ntohl bytes) = bytes := by
  have hlt : BigEndian.value bytes < 2 ^ 32 := by
    simpa [h] using BigEndian.value_lt bytes
  rw [uint32Bytes, ntohl, UInt32.toNat_ofNat', Nat.mod_eq_of_lt hlt, ← h]
  exact BigEndian.digits_value bytes

end LearnUv
