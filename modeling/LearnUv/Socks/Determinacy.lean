import LearnUv.Socks.Connecting

/-!
# What a read from the client depends on

`on_client_read` looks at `client_buf` without regard to how much of it was read: at the
first two bytes, at the address behind them, and at the user name.  Two buffers that agree
on what was read may therefore be treated differently, and this module says when.

One direction is by cases: with two bytes the first test is decided, with eight the address
and the port, and with nine whether there is a user name, so whatever is behind them does not
matter.  For the other direction a read that decides less is completed in two ways, with one
byte everywhere behind it and with another (`padded`), and the callback is seen to differ.

The text of the user name is printed and not used otherwise, so it is not part of what the
callback does here; only the test whether there is one is.

## Main Definitions

* `visible` — a session, up to what is in `client_buf`
* `Determined` — what was read decides the branches of `on_client_read`

## Main Results

* `onClientRead_visible_iff` — the callback depends only on what was read exactly when
  that decides its branches
-/

namespace LearnUv.Socks

/-- What was read is enough to decide what to do: it is not empty, it is not the byte 4
alone, and if it begins like a request it goes on to the first byte of the user name. -/
def Determined (data : List UInt8) : Prop :=
  data ≠ [] ∧ data ≠ [4] ∧ (OpensRequest data → 9 ≤ data.length)

/-- Two bytes decide whether a buffer begins like a request. -/
theorem opensRequest_append {data : List UInt8} (hlen : 2 ≤ data.length) (rest : List UInt8) :
    OpensRequest (data ++ rest) ↔ OpensRequest data := by
  rw [OpensRequest, OpensRequest, List.getElem?_append_left (by omega),
    List.getElem?_append_left (by omega)]

/-- One byte does, if it is not a 4. -/
theorem not_opensRequest_append {data : List UInt8} (hnil : data ≠ []) (hfour : data ≠ [4])
    (hdata : ¬OpensRequest data) (rest : List UInt8) : ¬OpensRequest (data ++ rest) := by
  match data with
  | [] => exact absurd rfl hnil
  | [byte] =>
      rintro ⟨hbyte, -⟩
      exact hfour (congrArg (fun b => [b]) (Option.some.inj hbyte))
  | byte :: byte' :: data => rwa [opensRequest_append (by simp)]

theorem byteAt_append {data : List UInt8} {i : ℕ} (hi : i < data.length) (rest : List UInt8) :
    byteAt (data ++ rest) i = byteAt data i := by
  rw [byteAt, byteAt, List.getD_eq_getElem?_getD, List.getElem?_append_left hi,
    List.getD_eq_getElem?_getD]

/-- Eight bytes decide the address and the port. -/
theorem parseAddr_append {data : List UInt8} (hlen : 8 ≤ data.length) (rest : List UInt8) :
    parseAddr (data ++ rest) 2 = parseAddr data 2 := by
  simp only [parseAddr, readPort]
  rw [byteAt_append (by omega), byteAt_append (by omega), byteAt_append (by omega),
    byteAt_append (by omega), byteAt_append (by omega), byteAt_append (by omega)]

/-- The first byte decides whether a string is empty. -/
theorem length_cString_cons (byte : UInt8) (rest : List UInt8) :
    0 < (cString (byte :: rest)).length ↔ byte ≠ 0 := by
  by_cases h : byte = 0
  · subst h
    simp [cString]
  · simp [cString, h]

/-- Nine bytes decide whether there is a user name. -/
theorem username_append {data : List UInt8} (hlen : 9 ≤ data.length) (rest : List UInt8) :
    0 < (cString ((data ++ rest).drop 8)).length ↔ 0 < (cString (data.drop 8)).length := by
  obtain ⟨byte, tail, htail⟩ : ∃ byte tail, data.drop 8 = byte :: tail :=
    List.exists_cons_of_length_pos (by rw [List.length_drop]; omega)
  rw [List.drop_append_of_le_length (by omega), htail, List.cons_append, length_cString_cons,
    length_cString_cons]

/-- `client_buf` with some bytes at its start, and one value behind them. -/
def padded (data : List UInt8) (byte : UInt8) (h : data.length ≤ maxSize) :
    CharArray maxSize where
  bytes := data ++ List.replicate (maxSize - data.length) byte
  length_eq := by
    rw [List.length_append, List.length_replicate]
    omega

theorem take_padded (data : List UInt8) (byte : UInt8) (h : data.length ≤ maxSize) :
    (padded data byte h).bytes.take data.length = data := by
  simp [padded]

/-- Behind at most eight bytes, the ninth byte is the value. -/
theorem drop_padded {data : List UInt8} (byte : UInt8) (h : data.length ≤ 8) :
    ∃ tail, (padded data byte (h.trans (by decide))).bytes.drop 8 = byte :: tail := by
  have hlong : data.length < maxSize := lt_of_le_of_lt h (by decide)
  obtain ⟨k, hk⟩ : ∃ k, maxSize - data.length - (8 - data.length) = k + 1 :=
    ⟨maxSize - data.length - (8 - data.length) - 1, by unfold maxSize at hlong ⊢; omega⟩
  refine ⟨List.replicate k byte, ?_⟩
  show (data ++ List.replicate (maxSize - data.length) byte).drop 8 = _
  rw [List.drop_append, List.drop_eq_nil_of_le h, List.nil_append, List.drop_replicate, hk,
    List.replicate_succ]

theorem opensRequest_padded : OpensRequest (padded [4, 1] 0 (by decide)).bytes := ⟨rfl, rfl⟩

/-- With a 0 behind it, the byte 4 is no request. -/
theorem not_opensRequest_padded_four :
    ¬OpensRequest (padded [4] 0 (by decide)).bytes := fun h => absurd h.2 (by decide)

theorem not_opensRequest_padded_nil :
    ¬OpensRequest (padded [] 0 (by decide)).bytes := fun h => absurd h.1 (by decide)

/-- A buffer is what was read, and something behind it. -/
theorem exists_eq_append {data base : List UInt8} (h : base.take data.length = data) :
    ∃ rest, base = data ++ rest := by
  refine ⟨base.drop data.length, ?_⟩
  have hsplit := List.take_append_drop data.length base
  rw [h] at hsplit
  exact hsplit.symm

namespace Session

variable {gap : ℕ}

/-- The session, up to what is in `client_buf`: its state, its record, what it has kept and
what is being written. -/
def visible (s : Session gap) : Session gap := s.received (CharArray.zeros _)

@[simp] theorem visible_log (s : Session gap) : s.visible.log = s.log := rfl

/-- Bytes are kept without regard to `client_buf`. -/
theorem stash_received (s : Session gap) (buf : CharArray maxSize) (bytes : List UInt8) :
    ((s.received buf).stash bytes).map visible = (s.stash bytes).map visible := by
  simp only [stash, received]
  cases s.tunnel.serverBuf.store s.tunnel.serverBufOffset bytes with
  | error abort => rfl
  | ok serverBuf =>
      simp only [AbortingRun.ok_bind]
      cases serverBuf.store (s.tunnel.serverBufOffset + bytes.length) [0] with
      | error abort => rfl
      | ok serverBuf' => rfl

/-- A request of which nine bytes were read. -/
theorem request_received {s : Session gap} {data : List UInt8} (hlen : 9 ≤ data.length)
    {buf : CharArray maxSize} {rest : List UInt8} (hbuf : buf.bytes = data ++ rest) :
    ((s.received buf).request buf.bytes).visible = (s.request data).visible := by
  have haddr := parseAddr_append (show 8 ≤ data.length by omega) rest
  have hname := username_append hlen rest
  rw [hbuf]
  simp only [visible, received, request, requestDest, haddr, hname]

/-- What the callback does, when what was read decides it. -/
theorem onClientRead_determined (s : Session gap) {data : List UInt8}
    (hdata : Determined data) {buf : CharArray maxSize}
    (hbuf : buf.bytes.take data.length = data) :
    (onClientRead (s.received buf) data.length).map visible =
      if OpensRequest data then .ok (s.request data).visible
      else if s.tunnel.status = .connectedToServer then .ok (s.forward data).visible
      else if s.tunnel.status = .connectingToServer then (s.stash data).map visible
      else .ok (s.record .unexpectedStatus).visible := by
  obtain ⟨hnil, hfour, hlen⟩ := hdata
  obtain ⟨rest, hrest⟩ := exists_eq_append hbuf
  have hnonneg : ¬(data.length : ℤ) < 0 := by omega
  have hbase : (s.received buf).tunnel.clientBuf.bytes = buf.bytes := rfl
  have hstatus : (s.received buf).tunnel.status = s.tunnel.status := rfl
  rw [onClientRead, if_neg hnonneg, hbase, Int.toNat_natCast, hbuf, hstatus]
  by_cases hopens : OpensRequest data
  · have hnine := hlen hopens
    have hbufOpens : OpensRequest buf.bytes := by
      rw [hrest, opensRequest_append (by omega)]
      exact hopens
    rw [if_pos hbufOpens, if_pos hopens]
    exact congrArg Except.ok (request_received hnine hrest)
  · have hbufOpens : ¬OpensRequest buf.bytes := by
      rw [hrest]
      exact not_opensRequest_append hnil hfour hopens rest
    rw [if_neg hbufOpens, if_neg hopens]
    split
    · rfl
    · split
      · exact s.stash_received buf data
      · rfl

/-! ## Stale bytes that decide -/

/-- How many things a request does. -/
theorem length_request_log (s : Session gap) (base : List UInt8) :
    (s.request base).log.length =
      s.log.length + 3 + if 0 < (cString (base.drop 8)).length then 1 else 0 := by
  rw [request]
  split
  · simp
  · simp

/-- Every other branch does one thing. -/
theorem length_onClientRead_log {s t : Session gap} {nread : ℕ}
    (hopens : ¬OpensRequest s.tunnel.clientBuf.bytes) (h : onClientRead s nread = .ok t) :
    t.log.length = s.log.length + 1 := by
  have hnonneg : ¬(nread : ℤ) < 0 := by omega
  rw [onClientRead, if_neg hnonneg, if_neg hopens] at h
  split at h
  · cases h
    simp [Session.forward]
  · split at h
    · obtain ⟨-, serverBuf, rfl⟩ := stash_eq_ok h
      simp [kept]
    · cases h
      simp [record]

theorem onClientRead_request {s : Session gap} (nread : ℕ)
    (hopens : OpensRequest s.tunnel.clientBuf.bytes) :
    onClientRead s nread = .ok (s.request s.tunnel.clientBuf.bytes) := by
  have hnonneg : ¬(nread : ℤ) < 0 := by omega
  rw [onClientRead, if_neg hnonneg, if_pos hopens]

/-- A request, and a read that is none, are not treated alike. -/
theorem visible_ne_of_request {s : Session gap} {nread : ℕ} {buf buf' : CharArray maxSize}
    (hopens : OpensRequest buf.bytes) (hopens' : ¬OpensRequest buf'.bytes) :
    (onClientRead (s.received buf) nread).map visible ≠
      (onClientRead (s.received buf') nread).map visible := by
  intro hsame
  rw [onClientRead_request (s := s.received buf) nread hopens] at hsame
  obtain ⟨t, ht, hvisible⟩ := AbortingRun.exists_of_map_eq_ok hsame.symm
  have hlen := length_onClientRead_log (s := s.received buf') hopens' ht
  have hlog : t.visible.log = ((s.received buf).request buf.bytes).visible.log :=
    congrArg Session.log hvisible
  rw [visible_log, visible_log] at hlog
  have hrequest := (s.received buf).length_request_log buf.bytes
  have hbuf : (s.received buf).log = s.log := rfl
  have hbuf' : (s.received buf').log = s.log := rfl
  rw [hlog, hrequest, hbuf, hbuf'] at hlen
  omega

/-- Two requests, with and without a user name, are not treated alike. -/
theorem visible_ne_of_username {s : Session gap} {nread : ℕ} {buf buf' : CharArray maxSize}
    (hopens : OpensRequest buf.bytes) (hopens' : OpensRequest buf'.bytes)
    (hname : 0 < (cString (buf.bytes.drop 8)).length)
    (hname' : ¬0 < (cString (buf'.bytes.drop 8)).length) :
    (onClientRead (s.received buf) nread).map visible ≠
      (onClientRead (s.received buf') nread).map visible := by
  intro hsame
  rw [onClientRead_request (s := s.received buf) nread hopens,
    onClientRead_request (s := s.received buf') nread hopens'] at hsame
  have hlog : ((s.received buf).request buf.bytes).visible.log =
      ((s.received buf').request buf'.bytes).visible.log :=
    congrArg Session.log (Except.ok.inj hsame)
  have hlen := congrArg List.length hlog
  rw [visible_log, visible_log] at hlen
  rw [length_request_log, length_request_log] at hlen
  have hbuf : (s.received buf).log = s.log := rfl
  have hbuf' : (s.received buf').log = s.log := rfl
  rw [hbuf, hbuf', if_pos hname, if_neg hname'] at hlen
  omega

/-- **The callback depends only on what was read exactly when that decides its branches**:
for every session, and every two buffers that begin with what was read. -/
theorem onClientRead_visible_iff (s : Session gap) {data : List UInt8}
    (hfits : data.length ≤ maxSize) :
    (∀ buf buf' : CharArray maxSize, buf.bytes.take data.length = data →
      buf'.bytes.take data.length = data →
      (onClientRead (s.received buf) data.length).map visible =
        (onClientRead (s.received buf') data.length).map visible) ↔
      Determined data := by
  constructor
  · intro hsame
    refine ⟨?_, ?_, ?_⟩
    · rintro rfl
      exact visible_ne_of_request opensRequest_padded not_opensRequest_padded_nil
        (hsame _ _ rfl rfl)
    · rintro rfl
      exact visible_ne_of_request opensRequest_padded not_opensRequest_padded_four
        (hsame _ _ rfl rfl)
    · intro hopens
      by_contra hshort
      have hlen : data.length ≤ 8 := by omega
      have htwo : 2 ≤ data.length := (List.getElem?_eq_some_iff.mp hopens.2).1
      obtain ⟨tail, htail⟩ := drop_padded 1 hlen
      obtain ⟨tail', htail'⟩ := drop_padded 0 hlen
      have hpadded : ∀ byte, OpensRequest (padded data byte hfits).bytes :=
        fun byte => (opensRequest_append htwo _).mpr hopens
      refine visible_ne_of_username (hpadded 1) (hpadded 0) ?_ ?_
        (hsame _ _ (take_padded _ _ _) (take_padded _ _ _))
      · rw [htail, length_cString_cons]
        decide
      · rw [htail', length_cString_cons]
        decide
  · intro hdata buf buf' hbuf hbuf'
    rw [onClientRead_determined s hdata hbuf, onClientRead_determined s hdata hbuf']

/-- A read of two bytes that are not those of a request. -/
theorem onClientRead_visible_iff_plain :
    (∀ buf buf' : CharArray maxSize, buf.bytes.take [72, 105].length = [72, 105] →
      buf'.bytes.take [72, 105].length = [72, 105] →
      (onClientRead ((accept zeroTunnel).received buf) [72, 105].length).map visible =
        (onClientRead ((accept zeroTunnel).received buf') [72, 105].length).map visible) ↔
      Determined [72, 105] :=
  onClientRead_visible_iff _ (show [72, 105].length ≤ maxSize by decide)

/-- The byte 4 is read: what is behind it in `client_buf` decides whether that is a
request. -/
theorem not_determined_oneByte :
    ¬∀ buf buf' : CharArray maxSize, buf.bytes.take [(4 : UInt8)].length = [4] →
      buf'.bytes.take [(4 : UInt8)].length = [4] →
      (onClientRead ((accept zeroTunnel).received buf) [(4 : UInt8)].length).map visible =
        (onClientRead ((accept zeroTunnel).received buf') [(4 : UInt8)].length).map visible := by
  intro hsame
  exact visible_ne_of_request opensRequest_padded not_opensRequest_padded_four
    (hsame _ _ rfl rfl)

end Session

end LearnUv.Socks
