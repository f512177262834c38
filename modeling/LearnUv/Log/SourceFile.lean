import LearnUv.Log.LogStream

/-!
# `Logger::SourceFile`

The name of a source file in a log line: the part of its path behind the last slash, as a
pointer into the path and a length.  There are two constructors: one for an array, whose
length is that of the literal it is called with, and one for a `const char *`.

Both look for the last slash with `strrchr`.  The constructor for an array has stored the
length of the path by then, and subtracts what is in front of the slash.  The other one has
stored nothing: it subtracts the length of the name from whatever the memory of the object
held, so what it stores is that length only by chance.

## Main Definitions

* `SourceFile.ofArray`, `SourceFile.ofFilename` — the constructors
* `baseName` — the part of a path behind its last slash
* `ComputesBaseName` — both constructors give that part

## Main Results

* `SourceFile.ofArray_spec` — the constructor for an array does
* `computesBaseName_iff` — the other one subtracts the length from what the memory held, so
  it does only if that was twice the length
-/

namespace LearnUv.Log

/-- `'/'`. -/
def slashChar : UInt8 := 47

/-- The last place of a C string where `c` is, as the memory from there on. -/
def lastOccurrence (c : UInt8) : List UInt8 → Option (List UInt8)
  | [] => none
  | b :: rest =>
      match if b = 0 then none else lastOccurrence c rest with
      | some found => some found
      | none => if b = c then some (b :: rest) else none

/-- `strrchr(str, c)`: reads up to the first NUL, which must be inside the object. -/
def strrchr (str : List UInt8) (c : UInt8) : Exec (Option (List UInt8)) :=
  if 0 ∈ str then .ok (lastOccurrence c str) else .error .outOfBounds

/-- `class SourceFile`. -/
structure SourceFile where
  /-- The memory from where `data_` points to. -/
  data_ : List UInt8
  size_ : Int32
  deriving DecidableEq

namespace SourceFile

/-- `SourceFile(const char (&arr)[N])`. -/
def ofArray {N : ℕ} (arr : CharArray N) : Exec SourceFile := do
  let data_ := arr.bytes
  let size_ : Int32 := Int32.ofNat N - 1
  match ← strrchr data_ slashChar with
  | some slash =>
      let data_ := slash.drop 1
      return ⟨data_, size_ - Int32.ofNat (arr.bytes.length - data_.length)⟩
  | none => return ⟨data_, size_⟩

/-- `SourceFile(const char *filename)`.  `memory` is what the memory of `size_` holds, which
is not initialised. -/
def ofFilename (memory : Int32) (filename : List UInt8) : Exec SourceFile := do
  let data_ := filename
  let data_ := match ← strrchr data_ slashChar with
    | some slash => slash.drop 1
    | none => data_
  let len ← strlen data_
  return ⟨data_, memory - intOfSize len⟩

/-- The pointer and the length are those of a string. -/
structure Names (file : SourceFile) (name : List UInt8) : Prop where
  zero_mem : 0 ∈ file.data_
  data : cString file.data_ = name
  size : file.size_.toInt = name.length

end SourceFile

/-- The part of a path behind its last slash. -/
def baseName (path : List UInt8) : List UInt8 :=
  (path.reverse.takeWhile (· ≠ slashChar)).reverse

/-- The array of a literal. -/
abbrev literalArray (text : List UInt8) : CharArray (cStr text).length := ⟨cStr text, rfl⟩

/-- Both constructors give the base name of a path, the second one in memory that held
`memory` where `size_` is.  Behind the NUL of the path there may be anything (`tail`). -/
def ComputesBaseName (memory : Int32) (path tail : List UInt8) : Prop :=
  (∃ file, SourceFile.ofArray (literalArray path) = .ok file ∧ file.Names (baseName path)) ∧
    ∃ file, SourceFile.ofFilename memory (cStr path ++ tail) = .ok file ∧
      file.Names (baseName path)

/-! ## The last slash -/

theorem ne_slash_of_mem_reverse {name : List UInt8} (h : slashChar ∉ name) :
    ∀ c ∈ name.reverse, decide (c ≠ slashChar) = true := by
  intro c hc
  refine decide_eq_true ?_
  rintro rfl
  exact h (List.mem_reverse.mp hc)

theorem baseName_of_notMem {path : List UInt8} (h : slashChar ∉ path) :
    baseName path = path := by
  have hall := ne_slash_of_mem_reverse h
  rw [baseName, List.takeWhile_eq_self_iff.mpr hall, List.reverse_reverse]

theorem baseName_append (dir : List UInt8) {name : List UInt8} (h : slashChar ∉ name) :
    baseName (dir ++ slashChar :: name) = name := by
  have hall := ne_slash_of_mem_reverse h
  rw [baseName, List.reverse_append, List.reverse_cons, List.append_assoc,
    List.takeWhile_append_of_pos hall, List.singleton_append,
    List.takeWhile_cons_of_neg (by decide), List.append_nil, List.reverse_reverse]

/-- A path has no slash, or a last one. -/
theorem path_cases (path : List UInt8) :
    slashChar ∉ path ∨ ∃ dir name, path = dir ++ slashChar :: name ∧ slashChar ∉ name := by
  by_cases hmem : slashChar ∈ path
  · right
    obtain ⟨name, dir, hsplit, hname⟩ :=
      List.eq_append_cons_of_mem (List.mem_reverse.mpr hmem)
    refine ⟨dir.reverse, name.reverse, ?_, fun h => hname (List.mem_reverse.mp h)⟩
    have hpath := congrArg List.reverse hsplit
    rw [List.reverse_reverse, List.reverse_append, List.reverse_cons, List.append_assoc,
      List.singleton_append] at hpath
    exact hpath
  · exact Or.inl hmem

section LastOccurrence

variable {c : UInt8}

theorem lastOccurrence_eq_none {str tail : List UInt8} (hc : c ∉ str) (hzero : c ≠ 0) :
    lastOccurrence c (str ++ 0 :: tail) = none := by
  induction str with
  | nil => simp [lastOccurrence, hzero.symm]
  | cons b str ih =>
      have hb : b ≠ c := fun h => hc (h ▸ List.mem_cons_self)
      have hrest := ih fun h => hc (List.mem_cons_of_mem _ h)
      simp [lastOccurrence, hb, hrest]

/-- What is in front of the last occurrence does not matter. -/
theorem lastOccurrence_append {front rest found : List UInt8} (hnul : 0 ∉ front)
    (h : lastOccurrence c rest = some found) :
    lastOccurrence c (front ++ rest) = some found := by
  induction front with
  | nil => exact h
  | cons b front ih =>
      have hb : b ≠ 0 := fun h => hnul (h ▸ List.mem_cons_self)
      have hrest := ih fun h => hnul (List.mem_cons_of_mem _ h)
      simp [lastOccurrence, hb, hrest]

/-- **The last slash** of a path. -/
theorem strrchr_slash {dir name : List UInt8} (hdir : 0 ∉ dir) (hname : slashChar ∉ name)
    (tail : List UInt8) :
    strrchr (dir ++ slashChar :: name ++ 0 :: tail) slashChar =
      .ok (some (slashChar :: name ++ 0 :: tail)) := by
  have hlast : lastOccurrence slashChar (slashChar :: (name ++ 0 :: tail)) =
      some (slashChar :: (name ++ 0 :: tail)) := by
    have hnone : lastOccurrence slashChar (name ++ 0 :: tail) = none :=
      lastOccurrence_eq_none hname (by decide)
    simp [lastOccurrence, hnone]
  rw [strrchr, if_pos (by simp), List.append_assoc]
  exact congrArg Except.ok (lastOccurrence_append hdir hlast)

theorem strrchr_none {path : List UInt8} (h : slashChar ∉ path) (tail : List UInt8) :
    strrchr (path ++ 0 :: tail) slashChar = .ok none := by
  rw [strrchr, if_pos (by simp), lastOccurrence_eq_none h (by decide)]

end LastOccurrence

/-! ## The constructors -/

section Constructors

variable {path : List UInt8}

theorem length_baseName_le (path : List UInt8) : (baseName path).length ≤ path.length := by
  rcases path_cases path with hnone | ⟨dir, name, rfl, hname⟩
  · rw [baseName_of_notMem hnone]
  · rw [baseName_append dir hname, List.length_append, List.length_cons]
    omega

theorem zero_notMem_baseName (hnul : 0 ∉ path) : 0 ∉ baseName path := by
  intro h
  have hmem := (List.takeWhile_prefix _).subset (List.mem_reverse.mp h)
  exact hnul (List.mem_reverse.mp hmem)

/-- **The search for a slash** leaves the pointer at the base name. -/
theorem strrchr_slash_spec (hnul : 0 ∉ path) (tail : List UInt8) :
    ∃ found, strrchr (path ++ 0 :: tail) slashChar = .ok found ∧
      (found = none ∧ baseName path = path ∨
        ∃ slash, found = some slash ∧ slash.drop 1 = baseName path ++ 0 :: tail) := by
  rcases path_cases path with hnone | ⟨dir, name, rfl, hname⟩
  · exact ⟨none, strrchr_none hnone tail, Or.inl ⟨rfl, baseName_of_notMem hnone⟩⟩
  · have hdir : 0 ∉ dir := fun h => hnul (List.mem_append_left _ h)
    refine ⟨_, strrchr_slash hdir hname tail, Or.inr ⟨_, rfl, ?_⟩⟩
    rw [baseName_append dir hname]
    rfl

theorem toInt_ofNat_sub_one {n : ℕ} (h : n + 1 < 2 ^ 31) :
    Int32.ofNat (n + 1) - 1 = Int32.ofNat n := by
  apply Int32.toInt_inj.mp
  rw [Int32.toInt_sub, Int32.toInt_ofNat_of_lt h, Int32.toInt_ofNat_of_lt (by omega),
    Int32.toInt_one, Int.bmod_eq_of_le (by omega) (by omega)]
  omega

/-- **The constructor for an array** gives the base name. -/
theorem SourceFile.ofArray_spec (hnul : 0 ∉ path) (hlen : path.length + 1 < 2 ^ 31) :
    ∃ file, ofArray (literalArray path) = .ok file ∧ file.data_ = cStr (baseName path) ∧
      file.size_.toInt = (baseName path).length := by
  have hle := length_baseName_le path
  have hsize : Int32.ofNat (cStr path).length - 1 = Int32.ofNat path.length := by
    rw [cStr, List.length_append, List.length_singleton]
    exact toInt_ofNat_sub_one hlen
  obtain ⟨found, hfound, ⟨rfl, hbase⟩ | ⟨slash, rfl, hdrop⟩⟩ := strrchr_slash_spec hnul []
  · refine ⟨⟨cStr path, Int32.ofNat path.length⟩, ?_, ?_, ?_⟩
    · rw [ofArray, hsize]
      exact congrArg (· >>= _) hfound
    · rw [hbase]
    · rw [hbase]
      exact Int32.toInt_ofNat_of_lt (by omega)
  · refine ⟨⟨cStr (baseName path),
      Int32.ofNat path.length - Int32.ofNat (path.length - (baseName path).length)⟩, ?_, rfl, ?_⟩
    · have hdist : (cStr path).length - (slash.drop 1).length =
          path.length - (baseName path).length := by
        rw [hdrop, cStr]
        simp only [List.length_append, List.length_singleton]
        omega
      rw [ofArray, hsize]
      refine (congrArg (· >>= _) hfound).trans ?_
      show Except.ok (SourceFile.mk (slash.drop 1)
        (Int32.ofNat path.length - Int32.ofNat ((cStr path).length - (slash.drop 1).length))) = _
      rw [hdist, hdrop]
      rfl
    · show (Int32.ofNat _ - Int32.ofNat _).toInt = _
      rw [Int32.toInt_sub, Int32.toInt_ofNat_of_lt (by omega), Int32.toInt_ofNat_of_lt (by omega),
        Int.bmod_eq_of_le (by omega) (by omega)]
      omega

/-- **The constructor for a `const char *`** subtracts the length from what was there. -/
theorem SourceFile.ofFilename_spec (hnul : 0 ∉ path) (memory : Int32) (tail : List UInt8) :
    ofFilename memory (cStr path ++ tail) =
      .ok ⟨baseName path ++ 0 :: tail,
        memory - intOfSize (UInt64.ofNat (baseName path).length)⟩ := by
  have hmem : cStr path ++ tail = path ++ 0 :: tail := by
    rw [cStr, List.append_assoc, List.singleton_append]
  have hstrlen : strlen (baseName path ++ 0 :: tail) =
      .ok (UInt64.ofNat (baseName path).length) := by
    rw [strlen, if_pos (by simp), cString_append_zero (zero_notMem_baseName hnul)]
  obtain ⟨found, hfound, ⟨rfl, hbase⟩ | ⟨slash, rfl, hdrop⟩⟩ := strrchr_slash_spec hnul tail
  · rw [ofFilename, hmem, hfound, AbortingRun.ok_bind]
    rw [hbase] at hstrlen ⊢
    show strlen (path ++ 0 :: tail) >>= _ = _
    rw [hstrlen]
    rfl
  · rw [ofFilename, hmem, hfound, AbortingRun.ok_bind]
    show (strlen (slash.drop 1) >>= fun len =>
      Except.ok (SourceFile.mk (slash.drop 1) (memory - intOfSize len))) = _
    rw [hdrop, hstrlen]
    rfl

theorem SourceFile.Names.of_cStr {file : SourceFile} {name tail : List UInt8} (hnul : 0 ∉ name)
    (hdata : file.data_ = name ++ 0 :: tail) (hsize : file.size_.toInt = name.length) :
    file.Names name where
  zero_mem := by
    rw [hdata]
    simp
  data := by rw [hdata, cString_append_zero hnul]
  size := hsize

/-- **Both constructors compute the base name** exactly when the memory of the second one's
`size_` held twice the length of it. -/
theorem computesBaseName_iff (hnul : 0 ∉ path) (hlen : path.length + 1 < 2 ^ 31)
    (memory : Int32) (tail : List UInt8) :
    ComputesBaseName memory path tail ↔
      memory = Int32.ofNat (2 * (baseName path).length) := by
  have hle := length_baseName_le path
  have hbase := zero_notMem_baseName hnul
  have hdouble : Int32.ofNat (2 * (baseName path).length) =
      Int32.ofNat (baseName path).length + Int32.ofNat (baseName path).length := by
    rw [Nat.two_mul, Int32.ofNat_add]
  have hcast : intOfSize (UInt64.ofNat (baseName path).length) =
      Int32.ofNat (baseName path).length := by
    have hsize : (UInt64.ofNat (baseName path).length).toNat = (baseName path).length := by
      rw [UInt64.toNat_ofNat', Nat.mod_eq_of_lt (by omega)]
    apply Int32.toInt_inj.mp
    rw [toInt_intOfSize (by omega), hsize, Int32.toInt_ofNat_of_lt (by omega)]
  have hint := Int32.toInt_ofNat_of_lt (show (baseName path).length < 2 ^ 31 by omega)
  have hsub : memory - Int32.ofNat (baseName path).length = Int32.ofNat (baseName path).length ↔
      memory = Int32.ofNat (2 * (baseName path).length) := by
    rw [hdouble]
    constructor
    · intro h
      have hadd := Int32.sub_add_cancel memory (Int32.ofNat (baseName path).length)
      rw [h] at hadd
      exact hadd.symm
    · rintro rfl
      exact Int32.add_sub_cancel _ _
  rw [← hsub]
  constructor
  · rintro ⟨-, file, hfile, hnames⟩
    rw [SourceFile.ofFilename_spec hnul, Except.ok.injEq] at hfile
    subst hfile
    apply Int32.toInt_inj.mp
    rw [hint, ← hcast]
    exact hnames.size
  · intro hmemory
    obtain ⟨file, hfile, hdata, hsize⟩ := SourceFile.ofArray_spec hnul hlen
    refine ⟨⟨file, hfile, .of_cStr hbase hdata hsize⟩, _,
      SourceFile.ofFilename_spec hnul memory tail, .of_cStr hbase rfl ?_⟩
    rw [hcast, hmemory, hint]

end Constructors

/-- The length is computed from ten, twice the length of `a.cpp`. -/
theorem computesBaseName_iff_ten : ComputesBaseName 10 (literal "src/a.cpp") [] :=
  (computesBaseName_iff (by decide) (by decide) 10 []).mpr (by decide)

/-- In zeroed memory the length is a negative one. -/
theorem not_computesBaseName_zeroed : ¬ComputesBaseName 0 (literal "src/a.cpp") [] := by
  rintro ⟨-, file, hfile, hnames⟩
  rw [SourceFile.ofFilename_spec (by decide), Except.ok.injEq] at hfile
  subst hfile
  exact absurd hnames.size (by decide)

end LearnUv.Log
