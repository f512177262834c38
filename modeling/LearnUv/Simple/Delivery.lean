import LearnUv.Simple.FileTransfer

/-!
# What a client receives

One transfer, with no other client: the file is read in pieces, each piece is written
before the next one is read, and at the end of the file the connection is shut down.  Each
piece is written with a NUL behind it, for which there is no room behind a piece that fills
the buffer.

The run is followed piece by piece: after each piece the transfer waits for the next read, has
handed on what was read so far, and stands behind it in the file (`Reading`).  A piece that
fills the buffer ends the run with the store of its NUL.  A file that is not empty has a first
piece, and what is handed on of it is one byte longer than it is.

## Main Definitions

* `transferRun` — the events of one transfer, up to the end of the file
* `cut` — the pieces
* `Delivers` — the run returns, and what was handed to `uv_write` is the file

## Main Results

* `handed_of_run` — what is handed to `uv_write` instead
* `delivers_iff` — the file is delivered exactly when it is empty
-/

namespace LearnUv.FileTransfer

variable {file : List UInt8}

/-- A list in pieces of the given sizes. -/
def cut (bytes : List UInt8) : List ℕ → List (List UInt8)
  | [] => []
  | n :: sizes => bytes.take n :: cut (bytes.drop n) sizes

/-- A piece is read and written.  `piece.2` is what the memory of `tBuf` holds before. -/
def pieceEvents (piece : ℕ × CharArray fileBuf) : List (ℕ × Event) :=
  [(0, .fill piece.1), (0, .read piece.2 0), (0, .written 0 0)]

/-- One transfer up to the end of the file, with no error. -/
def transferRun (descriptor : Int64) (pieces : List (ℕ × CharArray fileBuf))
    (tBuf : CharArray fileBuf) : List (ℕ × Event) :=
  [(0, .connection 0 0 0), (0, .opened descriptor 0)] ++ pieces.flatMap pieceEvents ++
    [(0, .fill 0), (0, .read tBuf 0)]

/-- Every store is inside of its array, and what was handed to `uv_write` is the file. -/
def Delivers (file : List UInt8) (memory : CharArray fileBuf) (events : List (ℕ × Event)) :
    Prop :=
  ∃ s, AbortingRun.run (System.step file) (.start memory) events = .ok s ∧
    (s.handed 0).flatten = file

/-! ## Reading -/

/-- The next request of the client is a read, and these buffers were handed on. -/
structure Reading (s : System) (position : ℕ) (handed : List (List UInt8)) : Prop where
  exists_transfer : ∃ t, s.transfer 0 = some t ∧ t.pending = some .fsRead ∧
    t.position = position ∧ t.handed = handed

theorem Transfer.handed_react (t : Transfer) (started : Int32) (actions : List Action) :
    (t.react started actions).handed = t.handed ++ (Transfer.mk 0 none 0 actions).handed :=
  List.filterMap_append

theorem reading_of_opened (file : List UInt8) (memory : CharArray fileBuf)
    {descriptor : Int64} (h : 0 ≤ descriptor) : ∃ s,
    AbortingRun.run (System.step file) (.start memory)
      [(0, .connection 0 0 0), (0, .opened descriptor 0)] = .ok s ∧ Reading s 0 [] := by
  have hbegun : (System.start memory).step file (0, .connection 0 0 0) =
      .ok ((System.start memory).put 0 (some .begun)) := rfl
  let t : Transfer := { Transfer.begun with openResult := descriptor }.react 0
    [.useCtx, .fsRead descriptor]
  have hopened : ((System.start memory).put 0 (some .begun)).step file
      (0, .opened descriptor 0) =
        .ok (((System.start memory).put 0 (some .begun)).put 0 (some t)) := by
    refine System.step_eq_ok (System.transfer_put_self _ _ _) rfl rfl ?_
    rw [Transfer.step, onFileOpen, if_pos h]
    rfl
  refine ⟨((System.start memory).put 0 (some .begun)).put 0 (some t), ?_,
    ⟨t, System.transfer_put_self _ _ _, rfl, rfl, rfl⟩⟩
  rw [AbortingRun.run_cons, hbegun, AbortingRun.ok_bind, AbortingRun.run_cons, hopened]
  rfl

/-- The next bytes of the file are at the front of the buffer, for `on_read` to be called. -/
structure Filled (s : System) (t : Transfer) (chunk : Chunk) : Prop where
  transfer_eq : s.transfer 0 = some t
  pending : t.pending = some (.fsReadDone (.read chunk))
  front : s.buf.bytes.take chunk.bytes.length = chunk.bytes

/-- A read of `n` bytes that the file still has. -/
theorem step_fill {s : System} {position n : ℕ} {handed : List (List UInt8)}
    (hs : Reading s position handed) (hpos : 1 ≤ n) (hle : n ≤ fileBuf)
    (hfile : position + n ≤ file.length) :
    ∃ s' t chunk, s.step file (0, .fill n) = .ok s' ∧ Filled s' t chunk ∧
      chunk.bytes = (file.drop position).take n ∧ chunk.bytes.length = n ∧
      t.position = position + n ∧ t.handed = handed := by
  obtain ⟨t, ht, hpending, rfl, rfl⟩ := hs
  have hfill : t.Awaits file (.fill n) := ⟨hpending, fun h => absurd h (by omega)⟩
  have hchunk : (chunkAt file t.position n).bytes = (file.drop t.position).take n := by
    show (file.drop t.position).take (min n fileBuf) = _
    rw [Nat.min_eq_left hle]
  have hlen : (chunkAt file t.position n).bytes.length = n := by
    rw [hchunk, List.length_take, List.length_drop]
    omega
  have hroom : 0 + (chunkAt file t.position n).bytes.length ≤ fileBuf := by
    rw [hlen]
    omega
  obtain ⟨buf, hstore, hbuf⟩ := s.buf.store_of_fits hroom
  let t₁ : Transfer := { t with
    pending := some (.fsReadDone (.read (chunkAt file t.position n)))
    position := t.position + (chunkAt file t.position n).bytes.length }
  refine ⟨{ s with buf }.put 0 (some t₁), t₁, chunkAt file t.position n, ?_,
    ⟨System.transfer_put_self _ _ _, rfl, ?_⟩, hchunk, hlen, ?_, rfl⟩
  · rw [System.step_of_awaits ht hfill]
    show (s.buf.store 0 (chunkAt file t.position n).bytes >>= _) = _
    rw [hstore]
    rfl
  · show buf.bytes.take _ = _
    rw [hbuf]
    exact take_overwrite_zero _ _
  · show t.position + (chunkAt file t.position n).bytes.length = _
    rw [hlen]

/-- `on_read` and `on_write_end` for a read with room for the NUL. -/
theorem run_handOn {s : System} {t : Transfer} {chunk : Chunk} (hs : Filled s t chunk)
    (hne : chunk.bytes ≠ []) (hfits : chunk.bytes.length < fileBuf) (tBuf : CharArray fileBuf) :
    ∃ s', AbortingRun.run (System.step file) s [(0, .read tBuf 0), (0, .written 0 0)] = .ok s' ∧
      Reading s' t.position (t.handed ++ [chunk.bytes ++ [0]]) := by
  have hawaits : t.Awaits file (.read tBuf 0) := by
    rw [Transfer.Awaits, hs.pending]
    rfl
  have hread : t.step file s.buf (.read tBuf 0) =
      .ok (t.react 0 [.useCtx, .write (chunk.bytes ++ [0])]) := by
    rw [Transfer.step, hs.pending]
    show (onRead s.buf tBuf _ >>= _) = _
    rw [onRead_chunk hne hfits, hs.front]
    rfl
  let t₁ : Transfer := t.react 0 [.useCtx, .write (chunk.bytes ++ [0])]
  let t₂ : Transfer := t₁.react 0 [.useCtx, .fsRead t.openResult]
  have hs₁ : s.step file (0, .read tBuf 0) = .ok (s.put 0 (some t₁)) :=
    System.step_eq_ok hs.transfer_eq hawaits rfl hread
  have hs₂ : (s.put 0 (some t₁)).step file (0, .written 0 0) =
      .ok ((s.put 0 (some t₁)).put 0 (some t₂)) :=
    System.step_eq_ok (System.transfer_put_self _ _ _) rfl rfl rfl
  refine ⟨(s.put 0 (some t₁)).put 0 (some t₂), ?_,
    ⟨t₂, System.transfer_put_self _ _ _, rfl, rfl, ?_⟩⟩
  · rw [AbortingRun.run_cons, hs₁, AbortingRun.ok_bind, AbortingRun.run_cons, hs₂]
    rfl
  · rw [Transfer.handed_react, Transfer.handed_react]
    simp [Transfer.handed]

/-- `on_read` for a read that has filled the buffer. -/
theorem step_full {s : System} {t : Transfer} {chunk : Chunk} (hs : Filled s t chunk)
    (hfull : chunk.bytes.length = fileBuf) (tBuf : CharArray fileBuf) :
    s.step file (0, .read tBuf 0) = .error .outOfBounds := by
  have hawaits : t.Awaits file (.read tBuf 0) := by
    rw [Transfer.Awaits, hs.pending]
    rfl
  have habort : t.step file s.buf (.read tBuf 0) = .error .outOfBounds := by
    rw [Transfer.step, hs.pending]
    show (onRead s.buf tBuf _ >>= _) = _
    rw [onRead_full hfull]
    rfl
  rw [System.step_of_awaits hs.transfer_eq hawaits]
  show (s.buf.store 0 [] >>= _) = _
  rw [CharArray.store_zero_nil, AbortingRun.ok_bind, habort]
  rfl

/-- **One piece** is handed on with a NUL behind it, if there is room for it. -/
theorem run_piece {s : System} {position : ℕ} {handed : List (List UInt8)}
    (hs : Reading s position handed) (piece : ℕ × CharArray fileBuf) (hpos : 1 ≤ piece.1)
    (hle : piece.1 ≤ fileBuf) (hfile : position + piece.1 ≤ file.length) :
    (piece.1 = fileBuf ∧
      AbortingRun.run (System.step file) s (pieceEvents piece) = .error .outOfBounds) ∨
    ∃ s', AbortingRun.run (System.step file) s (pieceEvents piece) = .ok s' ∧
      Reading s' (position + piece.1)
        (handed ++ [(file.drop position).take piece.1 ++ [0]]) := by
  obtain ⟨s₁, t, chunk, hfill, hfilled, hchunk, hlen, hposition, hhanded⟩ :=
    step_fill hs hpos hle hfile
  rw [pieceEvents, AbortingRun.run_cons, hfill, AbortingRun.ok_bind]
  rcases hle.eq_or_lt with hfull | hfits
  · -- `tBuf[req->result] = 0` is behind the array
    refine Or.inl ⟨hfull, ?_⟩
    rw [AbortingRun.run_cons, step_full hfilled (hlen.trans hfull)]
    rfl
  · have hne : chunk.bytes ≠ [] := by
      rw [← List.length_pos_iff, hlen]
      exact hpos
    obtain ⟨s', hrun, hreading⟩ := run_handOn hfilled hne (hlen.trans_lt hfits) piece.2
    rw [hposition, hhanded, hchunk] at hreading
    exact Or.inr ⟨s', hrun, hreading⟩

/-- At the end of the file the connection is shut down. -/
theorem run_eof {s : System} {handed : List (List UInt8)}
    (hs : Reading s file.length handed) (tBuf : CharArray fileBuf) :
    ∃ s', AbortingRun.run (System.step file) s [(0, .fill 0), (0, .read tBuf 0)] = .ok s' ∧
      s'.handed 0 = handed := by
  obtain ⟨t, ht, hpending, hposition, rfl⟩ := hs
  have hnil : (chunkAt file t.position 0).bytes = [] := by
    simp [chunkAt]
  let t₁ : Transfer := { t with
    pending := some (.fsReadDone (.read (chunkAt file t.position 0)))
    position := t.position + (chunkAt file t.position 0).bytes.length }
  let t₂ : Transfer := t₁.react 0 [.useCtx, .shutdown]
  have hs₁ : s.step file (0, .fill 0) = .ok (s.put 0 (some t₁)) :=
    System.step_eq_ok ht ⟨hpending, fun _ => hposition.ge⟩ hnil rfl
  have hs₂ : (s.put 0 (some t₁)).step file (0, .read tBuf 0) =
      .ok ((s.put 0 (some t₁)).put 0 (some t₂)) := by
    refine System.step_eq_ok (System.transfer_put_self _ _ _) rfl rfl ?_
    show (onRead s.buf tBuf _ >>= _) = _
    rw [onRead_eof _ _ hnil]
    rfl
  refine ⟨(s.put 0 (some t₁)).put 0 (some t₂), ?_, ?_⟩
  · rw [AbortingRun.run_cons, hs₁, AbortingRun.ok_bind, AbortingRun.run_cons, hs₂]
    rfl
  · rw [System.handed, System.transfer_put_self]
    show t₂.handed = t.handed
    rw [Transfer.handed_react]
    simp [Transfer.handed, t₁]

/-! ## The whole file -/

/-- **What is handed on** by a run that returns: each piece with a NUL behind it. -/
theorem handed_of_pieces {s s' : System} {position : ℕ} {handed : List (List UInt8)}
    (hs : Reading s position handed) {pieces : List (ℕ × CharArray fileBuf)}
    (hsizes : ∀ piece ∈ pieces, 1 ≤ piece.1 ∧ piece.1 ≤ fileBuf)
    (hfile : position + (pieces.map Prod.fst).sum ≤ file.length)
    (hrun : AbortingRun.run (System.step file) s (pieces.flatMap pieceEvents) = .ok s') :
    Reading s' (position + (pieces.map Prod.fst).sum)
      (handed ++ (cut (file.drop position) (pieces.map Prod.fst)).map (· ++ [0])) := by
  induction pieces generalizing s position handed with
  | nil =>
      cases hrun
      simpa [cut] using hs
  | cons piece pieces ih =>
      obtain ⟨hpos, hle⟩ := hsizes piece List.mem_cons_self
      rw [List.map_cons, List.sum_cons] at hfile
      rw [List.flatMap_cons] at hrun
      obtain ⟨s₁, hpiece, hrest⟩ := (AbortingRun.run_append_eq_ok _).mp hrun
      have hinside : position + piece.1 ≤ file.length := by omega
      rcases run_piece hs piece hpos hle hinside with ⟨-, habort⟩ | ⟨u, hu, hreading⟩
      · rw [habort] at hpiece
        cases hpiece
      · obtain rfl := AbortingRun.ok_unique hu hpiece
        have hnext := ih hreading (fun p hp => hsizes p (List.mem_cons_of_mem _ hp))
          (by omega) hrest
        rw [List.map_cons, List.sum_cons, cut, List.map_cons, ← Nat.add_assoc]
        rw [List.append_assoc, List.singleton_append, ← List.drop_drop] at hnext
        exact hnext

theorem length_cut {bytes : List UInt8} {sizes : List ℕ} (h : sizes.sum ≤ bytes.length) :
    ((cut bytes sizes).map (· ++ [0])).flatten.length = sizes.sum + sizes.length := by
  induction sizes generalizing bytes with
  | nil => rfl
  | cons n sizes ih =>
      rw [List.sum_cons] at h
      have hfits : sizes.sum ≤ (bytes.drop n).length := by
        rw [List.length_drop]
        omega
      have hrest := ih hfits
      rw [cut, List.map_cons, List.flatten_cons, List.length_append, hrest, List.length_append,
        List.length_take, List.length_singleton, List.sum_cons, List.length_cons]
      omega

/-- What a run of the whole transfer hands on. -/
theorem handed_of_run {memory : CharArray fileBuf} {descriptor : Int64}
    (hdescriptor : 0 ≤ descriptor) {pieces : List (ℕ × CharArray fileBuf)}
    (hsizes : ∀ piece ∈ pieces, 1 ≤ piece.1 ∧ piece.1 ≤ fileBuf)
    (hsum : (pieces.map Prod.fst).sum = file.length) {tBuf : CharArray fileBuf} {s : System}
    (hrun : AbortingRun.run (System.step file) (.start memory)
      (transferRun descriptor pieces tBuf) = .ok s) :
    s.handed 0 = (cut file (pieces.map Prod.fst)).map (· ++ [0]) := by
  obtain ⟨s₂, hbefore, heof⟩ := (AbortingRun.run_append_eq_ok _).mp hrun
  obtain ⟨s₁, hopened, hpieces⟩ := (AbortingRun.run_append_eq_ok _).mp hbefore
  obtain ⟨u, hu, hreading⟩ := reading_of_opened file memory hdescriptor
  obtain rfl := AbortingRun.ok_unique hu hopened
  have hread := handed_of_pieces hreading hsizes (by omega) hpieces
  rw [Nat.zero_add, hsum] at hread
  obtain ⟨v, hv, hhanded⟩ := run_eof hread tBuf
  obtain rfl := AbortingRun.ok_unique hv heof
  rw [hhanded, List.nil_append, List.drop_zero]

/-- **The file is delivered exactly when it is empty**: any other file comes with a NUL
behind each piece, if the transfer gets that far. -/
theorem delivers_iff (file : List UInt8) (memory : CharArray fileBuf) {descriptor : Int64}
    (hdescriptor : 0 ≤ descriptor) {pieces : List (ℕ × CharArray fileBuf)}
    (hsizes : ∀ piece ∈ pieces, 1 ≤ piece.1 ∧ piece.1 ≤ fileBuf)
    (hsum : (pieces.map Prod.fst).sum = file.length) (tBuf : CharArray fileBuf) :
    Delivers file memory (transferRun descriptor pieces tBuf) ↔ file = [] := by
  constructor
  · rintro ⟨s, hrun, hfile⟩
    rw [handed_of_run hdescriptor hsizes hsum hrun] at hfile
    -- one NUL too many for each piece
    have hlength := congrArg List.length hfile
    rw [length_cut (by omega), hsum, List.length_map] at hlength
    have hpieces : pieces = [] := List.length_eq_zero_iff.mp (by omega)
    rw [hpieces] at hsum
    exact List.length_eq_zero_iff.mp hsum.symm
  · rintro rfl
    have hpieces : pieces = [] := by
      cases pieces with
      | nil => rfl
      | cons piece pieces =>
          have hpos := (hsizes piece List.mem_cons_self).1
          rw [List.map_cons, List.sum_cons, List.length_nil] at hsum
          omega
    subst hpieces
    obtain ⟨s, hopened, hreading⟩ := reading_of_opened [] memory hdescriptor
    have hend : Reading s ([] : List UInt8).length [] := hreading
    obtain ⟨s', heof, hhanded⟩ := run_eof hend tBuf
    refine ⟨s', ?_, by rw [hhanded]; rfl⟩
    exact (AbortingRun.run_append_eq_ok _).mpr ⟨s, hopened, heof⟩

/-- The whole of a file of one byte at once. -/
def onePiece : List (ℕ × CharArray fileBuf) := [(1, CharArray.zeros fileBuf)]

theorem onePiece_sizes : ∀ piece ∈ onePiece, 1 ≤ piece.1 ∧ piece.1 ≤ fileBuf := by
  intro piece hmem
  rw [List.mem_singleton.mp hmem]
  exact ⟨Nat.le_refl 1, by decide⟩

theorem delivers_iff_onePiece :
    Delivers [1] (CharArray.zeros fileBuf) (transferRun 3 onePiece (CharArray.zeros fileBuf)) ↔
      ([1] : List UInt8) = [] :=
  delivers_iff [1] _ (by decide) onePiece_sizes rfl _

/-- Two bytes leave for a file of one. -/
theorem not_delivers_onePiece :
    ¬Delivers [1] (CharArray.zeros fileBuf)
      (transferRun 3 onePiece (CharArray.zeros fileBuf)) := by
  rintro ⟨s, hrun, hfile⟩
  rw [handed_of_run (by decide) onePiece_sizes rfl hrun] at hfile
  exact absurd hfile (by decide)

end LearnUv.FileTransfer
