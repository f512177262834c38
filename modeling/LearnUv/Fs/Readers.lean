import LearnUv.Common.Memory
import Mathlib.Algebra.Order.BigOperators.Group.List

/-!
# The three readers of `fs`

`libuv_readfile`, `libuv_readfile_sync` and `system_read` read a file to its end and print
how many bytes there were.  Each has a counter of its own type and a loop of its own shape:
a callback that starts the next read, a `do`-`while`, and a `while` with a `break`.

What a loop sees of the file is the sequence of the results of its reads.  A loop is a
function of those that are still to come, so it says itself where it stops.

The results of the reads are as wide as the source has them, and a sum is taken modulo the
width of the counter it is added to.  So the totals agree when the sum is in the range of the
narrowest counter, an `int`; and when the last read brings nothing, because one of the loops
adds the error code of a read that fails.

## Main Definitions

* `libuvReadfile`, `libuvReadfileSync`, `systemRead` — the totals of the three programs
* `TotalsAgree` — all of them are the sum of the positive results

## Main Results

* `totalsAgree_iff` — the totals agree exactly when the file is read to its end and the sum
  is an `int`
-/

namespace LearnUv.Fs

/-! ## `libuv_readfile.cpp` -/

/-- What a callback has libuv do next. -/
inductive Request
  | fsRead
  /-- The total is printed before. -/
  | fsClose
  deriving DecidableEq, Repr

/-- `on_read`. -/
def onRead (count : UInt64) (result : Int64) : UInt64 × Option Request :=
  if result < 0 then (count, none)
  else if result = 0 then (count, some .fsClose)
  else (count + result.toUInt64, some .fsRead)

/-- `on_file_open`. -/
def onFileOpen (result : Int64) : Option Request :=
  if result ≥ 0 then some .fsRead else none

/-- `count` after the callbacks of the reads, as long as each one starts another. -/
def readChain (count : UInt64) : List Int64 → UInt64
  | [] => count
  | result :: results =>
      match onRead count result with
      | (count, some .fsRead) => readChain count results
      | (count, some .fsClose) => count
      | (count, none) => count

/-- The total of `libuv_readfile`. -/
def libuvReadfile (opened : Int64) (results : List Int64) : UInt64 :=
  match onFileOpen opened with
  | some .fsRead => readChain 0 results
  | some .fsClose => 0
  | none => 0

/-! ## `libuv_readfile_sync.cpp` -/

/-- The loop of `main`. -/
def syncLoop (count : UInt64) : List Int64 → UInt64
  | [] => count
  | result :: results =>
      -- the result is counted before it is looked at
      let count := count + result.toUInt64
      if result > 0 then syncLoop count results else count

/-- The total of `libuv_readfile_sync`. -/
def libuvReadfileSync (opened : Int32) (results : List Int64) : Exec UInt64 := do
  checkUv opened
  return syncLoop 0 results

/-! ## `system_read.cpp` -/

/-- The loop of `main`. -/
def systemLoop (count : Int32) : List Int64 → Int32
  | [] => count
  | result :: results =>
      let n := result.toInt32
      if n ≤ 0 then count else systemLoop (count + n) results

/-- The total of `system_read`. -/
def systemRead (results : List Int64) : Int32 := systemLoop 0 results

/-! ## The results of the reads of a file -/

/-- How the reads of a file turn out. -/
structure Reads where
  /-- The buffer is a `malloc` of that many bytes. -/
  bufSize : Int32
  /-- The reads that brought something. -/
  positive : List Int32
  /-- The result of the last read, an error code if it is not the end of the file. -/
  final : Int32
  bufSize_pos : 0 < bufSize
  positive_pos : ∀ n ∈ positive, 0 < n ∧ n ≤ bufSize
  final_le : final ≤ 0

namespace Reads

/-- What `uv_fs_read` gives. -/
def libuvResults (r : Reads) : List Int64 := r.positive.map Int32.toInt64 ++ [r.final.toInt64]

/-- What `read` returns: an error is `-1`. -/
def systemResults (r : Reads) : List Int64 :=
  r.positive.map Int32.toInt64 ++ [if r.final < 0 then -1 else 0]

/-- The bytes that were read. -/
def total (r : Reads) : ℤ := (r.positive.map Int32.toInt).sum

end Reads

/-- All three totals are the sum of the positive results, whatever reads would come after the
last one (`libuvLater`, `systemLater`). -/
def TotalsAgree (r : Reads) : Prop :=
  ∀ opened : Int64, 0 ≤ opened → ∀ fd : Int32, 0 ≤ fd → ∀ libuvLater systemLater : List Int64,
    (libuvReadfile opened (r.libuvResults ++ libuvLater)).toNat = r.total ∧
      (∃ count, libuvReadfileSync fd (r.libuvResults ++ libuvLater) = .ok count ∧
        count.toNat = r.total) ∧
        (systemRead (r.systemResults ++ systemLater)).toInt = r.total

/-! ## The loops -/

theorem toNat_toUInt64_cases (result : Int64) :
    (result.toUInt64.toNat : ℤ) = result.toInt ∨
      (result.toUInt64.toNat : ℤ) = result.toInt + 2 ^ 64 := by
  have hint := BitVec.toInt_eq_toNat_cond result.toBitVec
  rw [Int64.toInt_toBitVec, Int64.toNat_toBitVec] at hint
  split at hint
  · exact Or.inl hint.symm
  · right
    omega

/-- Counting a result, modulo the width of the counter. -/
theorem toNat_add_toUInt64 (count : UInt64) (result : Int64) :
    ((count + result.toUInt64).toNat : ℤ) = (count.toNat + result.toInt) % 2 ^ 64 := by
  have hcount := count.toNat_lt
  rw [UInt64.toNat_add]
  rcases toNat_toUInt64_cases result with hresult | hresult
  · omega
  · omega

theorem toInt64_pos {n : Int32} (h : 0 < n) : 0 < n.toInt64 := by
  rw [Int64.lt_iff_toInt_lt, Int32.toInt_toInt64]
  exact Int32.lt_iff_toInt_lt.mp h

theorem toInt64_le_zero {n : Int32} (h : n ≤ 0) : n.toInt64 ≤ 0 := by
  rw [Int64.le_iff_toInt_le, Int32.toInt_toInt64]
  exact Int32.le_iff_toInt_le.mp h

/-- The counters of the libuv programs after the reads that brought something. -/
def counted (count : UInt64) (positive : List Int32) : UInt64 :=
  positive.foldl (fun count n => count + n.toInt64.toUInt64) count

section Loops

variable {positive : List Int32}

theorem toNat_counted (count : UInt64) (positive : List Int32) :
    ((counted count positive).toNat : ℤ) =
      (count.toNat + (positive.map Int32.toInt).sum) % 2 ^ 64 := by
  induction positive generalizing count with
  | nil =>
      have hlt := count.toNat_lt
      rw [List.map_nil, List.sum_nil, Int.add_zero, Int.emod_eq_of_lt (by omega) (by omega)]
      rfl
  | cons n positive ih =>
      have hstep := toNat_add_toUInt64 count n.toInt64
      have hrest := ih (count + n.toInt64.toUInt64)
      rw [Int32.toInt_toInt64] at hstep
      rw [hstep, Int.emod_add_emod] at hrest
      rw [List.map_cons, List.sum_cons, ← Int.add_assoc]
      exact hrest

/-- **The chain of callbacks** counts each result that brings something and goes on. -/
theorem readChain_append (hpos : ∀ n ∈ positive, 0 < n) (count : UInt64)
    (rest : List Int64) :
    readChain count (positive.map Int32.toInt64 ++ rest) =
      readChain (counted count positive) rest := by
  induction positive generalizing count with
  | nil => rfl
  | cons n positive ih =>
      have hn := toInt64_pos (hpos n List.mem_cons_self)
      have hread : onRead count n.toInt64 = (count + n.toInt64.toUInt64, some .fsRead) := by
        rw [onRead, if_neg (Int64.not_lt.mpr (Int64.le_of_lt hn)), if_neg (Int64.ne_of_lt hn).symm]
      rw [List.map_cons, List.cons_append, readChain, hread]
      exact ih (fun m hm => hpos m (List.mem_cons_of_mem _ hm)) _

/-- So does the `do`-`while`. -/
theorem syncLoop_append (hpos : ∀ n ∈ positive, 0 < n) (count : UInt64)
    (rest : List Int64) :
    syncLoop count (positive.map Int32.toInt64 ++ rest) =
      syncLoop (counted count positive) rest := by
  induction positive generalizing count with
  | nil => rfl
  | cons n positive ih =>
      rw [List.map_cons, List.cons_append, syncLoop,
        if_pos (toInt64_pos (hpos n List.mem_cons_self))]
      exact ih (fun m hm => hpos m (List.mem_cons_of_mem _ hm)) _

/-- And the `while`. -/
theorem systemLoop_append (hpos : ∀ n ∈ positive, 0 < n) (count : Int32)
    (rest : List Int64) :
    systemLoop count (positive.map Int32.toInt64 ++ rest) =
      systemLoop (positive.foldl (· + ·) count) rest := by
  induction positive generalizing count with
  | nil => rfl
  | cons n positive ih =>
      have hn := hpos n List.mem_cons_self
      rw [List.map_cons, List.cons_append, systemLoop, Int32.toInt32_toInt64,
        if_neg (Int32.not_le.mpr hn)]
      exact ih (fun m hm => hpos m (List.mem_cons_of_mem _ hm)) _

theorem toInt_foldl_add (count : Int32) (positive : List Int32) :
    (positive.foldl (· + ·) count).toInt =
      (count.toInt + (positive.map Int32.toInt).sum).bmod (2 ^ 32) := by
  induction positive generalizing count with
  | nil =>
      rw [List.map_nil, List.sum_nil, Int.add_zero]
      exact (Int32.toInt_bmod_size count).symm
  | cons n positive ih =>
      rw [List.foldl_cons, ih, Int32.toInt_add, Int.bmod_add_bmod, List.map_cons, List.sum_cons,
        Int.add_assoc]

end Loops

/-! ## The totals -/

namespace Reads

variable (r : Reads)

theorem pos_of_mem : ∀ n ∈ r.positive, 0 < n := fun n hn => (r.positive_pos n hn).1

theorem total_nonneg : 0 ≤ r.total := by
  refine List.sum_nonneg ?_
  intro k hk
  obtain ⟨n, hn, rfl⟩ := List.mem_map.mp hk
  exact Int.le_of_lt (Int32.lt_iff_toInt_lt.mp (r.pos_of_mem n hn))

/-- `libuv_readfile` stops at the last result, and does not count it. -/
theorem libuvReadfile_eq {opened : Int64} (hopened : 0 ≤ opened) (later : List Int64) :
    libuvReadfile opened (r.libuvResults ++ later) = counted 0 r.positive := by
  have hfinal := toInt64_le_zero r.final_le
  rw [libuvReadfile, onFileOpen, if_pos hopened, libuvResults, List.append_assoc]
  show readChain 0 _ = _
  rw [readChain_append r.pos_of_mem, List.singleton_append, readChain, onRead]
  rcases Int64.lt_or_eq_of_le hfinal with hneg | hzero
  · rw [if_pos hneg]
  · rw [if_neg (by rw [hzero]; decide), if_pos hzero]

/-- `libuv_readfile_sync` stops there too, but it counts it. -/
theorem libuvReadfileSync_eq {fd : Int32} (hfd : 0 ≤ fd) (later : List Int64) :
    libuvReadfileSync fd (r.libuvResults ++ later) =
      .ok (counted 0 r.positive + r.final.toInt64.toUInt64) := by
  have hfinal := toInt64_le_zero r.final_le
  have hopen : checkUv fd = .ok () := if_neg (Int32.not_lt.mpr hfd)
  rw [libuvReadfileSync, hopen, AbortingRun.ok_bind, libuvResults, List.append_assoc,
    syncLoop_append r.pos_of_mem, List.singleton_append, syncLoop,
    if_neg (Int64.not_lt.mpr hfinal)]
  rfl

/-- `system_read` leaves the loop at the last result. -/
theorem systemRead_eq (later : List Int64) :
    systemRead (r.systemResults ++ later) = r.positive.foldl (· + ·) 0 := by
  have hlast : (if r.final < 0 then (-1 : Int64) else 0).toInt32 ≤ 0 := by
    split <;> decide
  rw [systemRead, systemResults, List.append_assoc, systemLoop_append r.pos_of_mem,
    List.singleton_append, systemLoop, if_pos hlast]

end Reads

/-- **The totals agree** exactly when the file was read to its end and an `int` can hold the
sum: the loop of `libuv_readfile_sync` also counts an error code, and `system_read` counts
in an `int`. -/
theorem totalsAgree_iff (r : Reads) (htotal : r.total < 2 ^ 64) :
    TotalsAgree r ↔ r.final = 0 ∧ r.total < 2 ^ 31 := by
  have hnonneg := r.total_nonneg
  have hcounted : ((counted 0 r.positive).toNat : ℤ) = r.total := by
    have hsum := toNat_counted 0 r.positive
    rw [UInt64.toNat_zero, Int.natCast_zero, Int.zero_add] at hsum
    rw [hsum]
    exact Int.emod_eq_of_lt hnonneg htotal
  have hsystem : (r.positive.foldl (· + ·) 0).toInt = r.total.bmod (2 ^ 32) := by
    rw [toInt_foldl_add, Int32.toInt_zero, Int.zero_add]
    rfl
  have hsync : ((counted 0 r.positive + r.final.toInt64.toUInt64).toNat : ℤ) =
      (r.total + r.final.toInt) % 2 ^ 64 := by
    rw [toNat_add_toUInt64, hcounted, Int32.toInt_toInt64]
  have hfinal := Int32.le_iff_toInt_le.mp r.final_le
  have hlow := r.final.le_toInt
  rw [Int32.toInt_zero] at hfinal
  constructor
  · intro hagree
    obtain ⟨-, ⟨count, hcount, hsum⟩, hint⟩ := hagree 0 (by decide) 0 (by decide) [] []
    rw [r.libuvReadfileSync_eq (by decide), Except.ok.injEq] at hcount
    rw [r.systemRead_eq, hsystem] at hint
    rw [← hcount, hsync] at hsum
    refine ⟨?_, ?_⟩
    · apply Int32.toInt_inj.mp
      rw [Int32.toInt_zero]
      omega
    · have hlt := Int.bmod_lt (x := r.total) (m := 2 ^ 32) (by decide)
      omega
  · rintro ⟨hzero, hlt⟩ opened hopened fd hfd libuvLater systemLater
    refine ⟨?_, ⟨_, r.libuvReadfileSync_eq hfd _, ?_⟩, ?_⟩
    · rw [r.libuvReadfile_eq hopened, hcounted]
    · rw [hsync, hzero, Int32.toInt_zero, Int.add_zero, Int.emod_eq_of_lt hnonneg htotal]
    · rw [r.systemRead_eq, hsystem, Int.bmod_eq_of_le (by omega) (by omega)]

/-- A file of five bytes, read in two parts. -/
def twoParts : Reads where
  bufSize := 4096
  positive := [4, 1]
  final := 0
  bufSize_pos := by decide
  positive_pos := by
    intro n hn
    rcases List.mem_pair.mp hn with rfl | rfl
    · exact ⟨by decide, by decide⟩
    · exact ⟨by decide, by decide⟩
  final_le := by decide

theorem totalsAgree_iff_twoParts : TotalsAgree twoParts :=
  (totalsAgree_iff twoParts (by decide)).mpr ⟨rfl, by decide⟩

/-- A read of four bytes, and one that fails with `EIO`. -/
def failing : Reads where
  bufSize := 4096
  positive := [4]
  final := -5
  bufSize_pos := by decide
  positive_pos := by
    intro n hn
    obtain rfl := List.mem_singleton.mp hn
    exact ⟨by decide, by decide⟩
  final_le := by decide

theorem not_totalsAgree_failing : ¬TotalsAgree failing := by
  intro hagree
  obtain ⟨-, ⟨count, hcount, hsum⟩, -⟩ := hagree 0 (by decide) 0 (by decide) [] []
  rw [failing.libuvReadfileSync_eq (by decide), Except.ok.injEq] at hcount
  rw [← hcount] at hsum
  exact absurd hsum (by decide)

end LearnUv.Fs
