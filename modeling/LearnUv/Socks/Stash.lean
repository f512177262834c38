import LearnUv.Socks.Connecting

/-!
# Stores into `server_buf`

While a tunnel is being connected, `on_client_read` copies what it reads behind what
`server_buf` holds already, and stores a NUL behind that.  It does not look at the room
there is, and `on_new_client_connection` does not set the offset it starts from.  So the
stores stay inside `server_buf` as long as few bytes come, and if `malloc` returned memory
with a zero there.

## Main Definitions

* `StoresInside` — the stores a callback makes into `server_buf` stay inside it
* `StashNeverOverruns` — the offset starts at 0, and all stores stay inside
* `stashedBytes` — the bytes a history asks a tunnel to keep

## Main Results

* `Session.step_keeps` — what one callback adds to what is kept
* `Session.eachStep_storesInside_iff` — from any session, the stores stay inside as long as
  the offset and the bytes to be kept are less than `MAXSIZE`
* `stashNeverOverruns_iff` — when the stash of a new client never overruns
-/

namespace LearnUv.Socks

/-- The bytes that come while a tunnel is being connected, in reads that leave no request
in `client_buf`.  They depend on what `client_buf` held at the start, and on the status.
After a connect that failed there is no tunnel, and nothing is known of one that a read of
the server has overrun. -/
def stashedBytes {gap : ℕ} : List UInt8 → Status → List (Session.Event gap) → List UInt8
  | _, _, [] => []
  | base, status, .clientData data :: events =>
      if OpensRequest (overwrite base 0 data) then
        stashedBytes (overwrite base 0 data) .connectingToServer events
      else if status = .connectingToServer then
        data ++ stashedBytes (overwrite base 0 data) status events
      else stashedBytes (overwrite base 0 data) status events
  | base, _, .connectDone _ result :: events =>
      -- a connect that failed frees the tunnel
      if result < 0 then [] else stashedBytes base .connectedToServer events
  | base, status, .serverData data _ :: events =>
      if gap + data.length ≤ maxSize then stashedBytes base status events else []
  | base, status, _ :: events => stashedBytes base status events

namespace Session

variable {gap : ℕ}

/-- The callback is a read whose bytes are to be kept. -/
def Stashes (s : Session gap) (data : List UInt8) : Prop :=
  s.Connecting ∧ ¬OpensRequest (overwrite s.tunnel.clientBuf.bytes 0 data)

/-- What a read copies ends inside `server_buf`, and the NUL behind it is stored there. -/
def StoresInside (s : Session gap) : Event gap → Prop
  | .clientData data => s.Stashes data →
      s.tunnel.serverBufOffset + data.length ≤ maxSize ∧
        s.tunnel.serverBufOffset + data.length < maxSize
  | _ => True

/-- **The stash never overruns**: the offset of a new client is 0, and in each callback the
stores into `server_buf` stay inside it. -/
def StashNeverOverruns (memory : Tunnel gap) (history : List (Event gap)) : Prop :=
  (accept memory).tunnel.serverBufOffset = 0 ∧
    AbortingRun.EachStep step StoresInside (accept memory) history

/-! ## One callback -/

theorem Connecting.step_stashes {s : Session gap} (hs : s.Connecting) {data : List UInt8}
    (hfits : data.length ≤ maxSize)
    (hbase : ¬OpensRequest (overwrite s.tunnel.clientBuf.bytes 0 data)) :
    ∃ clientBuf : CharArray maxSize,
      clientBuf.bytes = overwrite s.tunnel.clientBuf.bytes 0 data ∧
      s.step (.clientData data) = (s.received clientBuf).stash data := by
  obtain ⟨clientBuf, hbytes, hstep⟩ := step_clientData hs.live hfits
  rw [if_neg hbase, if_neg (by simp [hs.status]), if_pos hs.status] at hstep
  exact ⟨clientBuf, hbytes, hstep⟩

/-- The callback of a read returns exactly when its stores stay inside. -/
theorem step_clientData_returns_iff {s : Session gap} (hlive : s.freed = false)
    {data : List UInt8} (hfits : data.length ≤ maxSize) :
    (∃ t, s.step (.clientData data) = .ok t) ↔ s.StoresInside (.clientData data) := by
  obtain ⟨clientBuf, -, hstep⟩ := step_clientData hlive hfits
  rw [hstep]
  by_cases hbase : OpensRequest (overwrite s.tunnel.clientBuf.bytes 0 data)
  · rw [if_pos hbase]
    exact iff_of_true ⟨_, rfl⟩ fun h => absurd hbase h.2
  · rw [if_neg hbase]
    by_cases hconnecting : s.tunnel.status = .connectingToServer
    · rw [if_neg (by simp [hconnecting]), if_pos hconnecting]
      constructor
      · rintro ⟨t, hstash⟩ -
        have hroom := (stash_eq_ok hstash).1
        exact ⟨Nat.le_of_lt hroom, hroom⟩
      · intro h
        obtain ⟨serverBuf, hstash⟩ :=
          (s.received clientBuf).stash_of_fits (h ⟨⟨hlive, hconnecting⟩, hbase⟩).2
        exact ⟨_, hstash⟩
    · rw [if_neg hconnecting]
      refine iff_of_true ?_ fun h => absurd h.1.status hconnecting
      split
      · exact ⟨_, rfl⟩
      · exact ⟨_, rfl⟩

/-- In a tunnel that is not being connected no read is kept. -/
theorem step_unstashed {s : Session gap} (hlive : s.freed = false) {data : List UInt8}
    (hfits : data.length ≤ maxSize) (hstatus : s.tunnel.status ≠ .connectingToServer)
    (hbase : ¬OpensRequest (overwrite s.tunnel.clientBuf.bytes 0 data)) :
    ∃ t, s.step (.clientData data) = .ok t ∧ t.freed = false ∧
      t.tunnel.status = s.tunnel.status ∧
      t.tunnel.clientBuf.bytes = overwrite s.tunnel.clientBuf.bytes 0 data ∧
      t.tunnel.serverBufOffset = s.tunnel.serverBufOffset := by
  obtain ⟨clientBuf, hbytes, hstep⟩ := step_clientData hlive hfits
  rw [if_neg hbase, if_neg hstatus] at hstep
  split at hstep
  · exact ⟨_, hstep, hlive, rfl, hbytes, rfl⟩
  · exact ⟨_, hstep, hlive, rfl, hbytes, rfl⟩

/-- After the event in the session `s` the tunnel is that of `t`, and `bytes` have been
kept. -/
structure Keeps (s t : Session gap) (event : Event gap) (bytes : List UInt8) : Prop where
  step_eq : s.step event = .ok t
  inside : s.StoresInside event
  live : t.freed = false
  offset : t.tunnel.serverBufOffset = s.tunnel.serverBufOffset + bytes.length
  room : s.tunnel.serverBufOffset < maxSize → t.tunnel.serverBufOffset < maxSize
  stashed : ∀ events,
    stashedBytes s.tunnel.clientBuf.bytes s.tunnel.status (event :: events) =
      bytes ++ stashedBytes t.tunnel.clientBuf.bytes t.tunnel.status events

/-- A read of the client keeps its bytes, or none, or does not stay inside. -/
theorem clientData_keeps {s : Session gap} (hlive : s.freed = false) {data : List UInt8}
    (hfits : data.length ≤ maxSize) :
    (∃ t bytes, s.Keeps t (.clientData data) bytes) ∨
      ¬s.StoresInside (.clientData data) ∧ ∀ events : List (Event gap),
        maxSize ≤ s.tunnel.serverBufOffset + (stashedBytes s.tunnel.clientBuf.bytes
          s.tunnel.status (.clientData data :: events)).length := by
  by_cases hbase : OpensRequest (overwrite s.tunnel.clientBuf.bytes 0 data)
  · obtain ⟨clientBuf, hbytes, hstep⟩ := step_request hlive hfits hbase
    -- a request is answered, and what came with it is dropped
    refine Or.inl ⟨_, [], hstep, fun h => absurd hbase h.2, hlive, rfl, id, fun events => ?_⟩
    rw [stashedBytes, if_pos hbase, ← hbytes]
    rfl
  · by_cases hstatus : s.tunnel.status = .connectingToServer
    · have hstashes : s.Stashes data := ⟨⟨hlive, hstatus⟩, hbase⟩
      obtain ⟨clientBuf, hbytes, hstep⟩ := hstashes.1.step_stashes hfits hbase
      rcases Nat.lt_or_ge (s.tunnel.serverBufOffset + data.length) maxSize with hroom | hlong
      · obtain ⟨serverBuf, hstash⟩ := (s.received clientBuf).stash_of_fits hroom
        refine Or.inl ⟨_, data, hstep.trans hstash, fun _ => ⟨Nat.le_of_lt hroom, hroom⟩, hlive,
          rfl, fun _ => hroom, fun events => ?_⟩
        rw [stashedBytes, if_neg hbase, if_pos hstatus, ← hbytes]
        rfl
      · -- the NUL at the latest is stored behind `server_buf`
        refine Or.inr ⟨fun h => absurd (h hstashes).2 (Nat.not_lt.mpr hlong), fun events => ?_⟩
        rw [stashedBytes, if_neg hbase, if_pos hstatus, List.length_append]
        omega
    · obtain ⟨t, hstep, hlive', hstatus', hbytes, hoffset⟩ :=
        step_unstashed hlive hfits hstatus hbase
      refine Or.inl ⟨t, [], hstep, fun h => absurd h.1.status hstatus, hlive', hoffset,
        fun h => hoffset ▸ h, fun events => ?_⟩
      rw [stashedBytes, if_neg hbase, if_neg hstatus, hbytes, hstatus']
      rfl

/-- **One callback** ends the tunnel, or keeps some bytes, or does not stay inside; and then
too much is to be kept.  It also ends when a read of the server overruns it. -/
theorem step_keeps {s : Session gap} (hlive : s.freed = false) {event : Event gap}
    (henabled : s.Enabled event) :
    ((∀ t, s.step event = .ok t → t.freed = true) ∧ s.StoresInside event ∧
      ∀ events, stashedBytes s.tunnel.clientBuf.bytes s.tunnel.status (event :: events) = []) ∨
    (∃ t bytes, s.Keeps t event bytes) ∨
    ¬s.StoresInside event ∧ ∀ events,
      maxSize ≤ s.tunnel.serverBufOffset +
        (stashedBytes s.tunnel.clientBuf.bytes s.tunnel.status (event :: events)).length := by
  cases event with
  | clientData data => exact Or.inr (clientData_keeps hlive henabled.2)
  | clientEnd nread =>
      exact Or.inr (Or.inl ⟨_, [], step_clientEnd hlive nread, trivial, hlive, rfl, id,
        fun _ => rfl⟩)
  | connectDone dest status =>
      by_cases hfails : status < 0
      · refine Or.inl ⟨?_, trivial, fun _ => by rw [stashedBytes, if_pos hfails]⟩
        intro t hstep
        rw [step_connectFailed hlive dest hfails] at hstep
        cases hstep
        rfl
      · refine Or.inr (Or.inl ⟨_, [], step_connected hlive dest hfails, trivial, hlive, rfl, id,
          fun _ => ?_⟩)
        rw [stashedBytes, if_neg hfails]
        rfl
  | serverData data behind =>
      rcases Nat.lt_or_ge maxSize (gap + data.length) with hlong | hinside
      · refine Or.inl ⟨?_, trivial, fun _ => by rw [stashedBytes, if_neg (Nat.not_le.mpr hlong)]⟩
        intro t hstep
        rw [step_serverData_outside hlive hlong] at hstep
        cases hstep
      · -- the read is stored over what was kept, but the offset stays
        obtain ⟨serverBuf, stale, -, hstep⟩ := step_serverData hlive behind hinside
        refine Or.inr (Or.inl ⟨_, [], hstep, trivial, hlive, rfl, id, fun _ => ?_⟩)
        rw [stashedBytes, if_pos hinside]
        rfl
  | serverEnd nread =>
      exact Or.inr (Or.inl ⟨_, [], step_serverEnd hlive nread, trivial, hlive, rfl, id,
        fun _ => rfl⟩)
  | clientWriteEnd i =>
      exact Or.inr (Or.inl ⟨_, [], step_clientWriteEnd hlive i, trivial, hlive, rfl, id,
        fun _ => rfl⟩)

/-! ## Runs -/

/-- After a connect that failed nothing is kept. -/
theorem eachStep_storesInside_of_freed {s : Session gap} (hfreed : s.freed = true)
    (events : List (Event gap)) : AbortingRun.EachStep step StoresInside s events := by
  induction events generalizing s with
  | nil => trivial
  | cons event events ih =>
      rw [AbortingRun.eachStep_cons_of_ok (step_of_freed hfreed event)]
      refine ⟨?_, ih hfreed⟩
      cases event with
      | clientData data =>
          intro h
          rw [h.1.live] at hfreed
          cases hfreed
      | _ => trivial

/-- **From any session**, the stores stay inside `server_buf` exactly when the offset and
what is to be kept are less than `MAXSIZE`. -/
theorem eachStep_storesInside_iff {s : Session gap} (hlive : s.freed = false)
    (hoffset : s.tunnel.serverBufOffset < maxSize) {events : List (Event gap)}
    (hdelivered : s.Delivered events) :
    AbortingRun.EachStep step StoresInside s events ↔
      s.tunnel.serverBufOffset +
        (stashedBytes s.tunnel.clientBuf.bytes s.tunnel.status events).length < maxSize := by
  induction events generalizing s with
  | nil => exact iff_of_true trivial hoffset
  | cons event events ih =>
      obtain ⟨henabled, hrest⟩ := hdelivered
      -- with the offset below `MAXSIZE`, each callback leaves the same question for the rest
      rcases step_keeps hlive henabled with
        ⟨hfreed, hinside, hnone⟩ | ⟨t, bytes, hkeeps⟩ | ⟨houtside, hlong⟩
      · rw [hnone]
        exact iff_of_true
          ⟨hinside, fun t hstep => eachStep_storesInside_of_freed (hfreed t hstep) events⟩ hoffset
      · have hnext := ih hkeeps.live (hkeeps.room hoffset) (hrest t hkeeps.step_eq)
        rw [AbortingRun.eachStep_cons_of_ok hkeeps.step_eq, and_iff_right hkeeps.inside,
          hkeeps.stashed, List.length_append, ← Nat.add_assoc, ← hkeeps.offset]
        exact hnext
      · exact iff_of_false (fun h => houtside h.1) (Nat.not_lt.mpr (hlong events))

/-- **When the stash never overruns.**  `malloc` has to have put a zero where the offset is,
and what the client sends while the tunnel is being connected, in reads that leave no
request in `client_buf`, has to be less than `MAXSIZE` bytes altogether. -/
theorem stashNeverOverruns_iff {memory : Tunnel gap} {history : List (Event gap)}
    (hdelivered : (accept memory).Delivered history) :
    StashNeverOverruns memory history ↔
      memory.serverBufOffset = 0 ∧
        (stashedBytes memory.clientBuf.bytes .tunnelStart history).length < maxSize := by
  refine and_congr_right fun hzero => ?_
  have hzero' : memory.serverBufOffset = 0 := hzero
  have hoffset : (accept memory).tunnel.serverBufOffset < maxSize := by
    rw [hzero]
    decide
  rw [eachStep_storesInside_iff rfl hoffset hdelivered, hzero, Nat.zero_add]
  rfl

/-- The connect is done after two bytes have been kept, and the server sends one. -/
def twoBytes : List (Event 248) :=
  [.clientData plainRequest.bytes, .clientData [72, 105], .connectDone localDest 0,
    .serverData [7] (CharArray.zeros _)]

theorem stashNeverOverruns_iff_twoBytes :
    StashNeverOverruns zeroTunnel twoBytes ↔
      zeroTunnel.serverBufOffset = 0 ∧
        (stashedBytes zeroTunnel.clientBuf.bytes .tunnelStart twoBytes).length < maxSize :=
  stashNeverOverruns_iff (delivered_of_runEvents (by decide +kernel))

/-- A request, and then as much as one read brings: there is no room for the NUL. -/
def fullRead : List (Event 248) :=
  [.clientData plainRequest.bytes, .clientData (List.replicate maxSize 65)]

/-- libuv may make the second read, too. -/
theorem delivered_fullRead : (accept zeroTunnel).Delivered fullRead := by
  rw [show fullRead = [.clientData plainRequest.bytes] ++
    [.clientData (List.replicate maxSize 65)] from rfl]
  have hfirst : (accept zeroTunnel).Delivered [.clientData plainRequest.bytes] :=
    delivered_of_runEvents (by decide +kernel)
  refine AbortingRun.eachStep_append.mpr
    ⟨hfirst, fun t hrun => ⟨⟨?_, List.length_replicate.le⟩, fun _ _ => trivial⟩⟩
  have hreading : ((accept zeroTunnel).run [.clientData plainRequest.bytes]).map
      clientReading = .ok true := by decide +kernel
  rw [run, hrun] at hreading
  exact Except.ok.inj hreading

/-- The offset is 0, and a full read while the tunnel is being connected overruns. -/
theorem not_stashNeverOverruns_fullRead :
    (accept zeroTunnel).Delivered fullRead ∧
      (accept zeroTunnel).tunnel.serverBufOffset = 0 ∧
      ¬StashNeverOverruns zeroTunnel fullRead := by
  refine ⟨delivered_fullRead, rfl, fun h => ?_⟩
  have hoffset : (accept zeroTunnel).tunnel.serverBufOffset < maxSize := by decide
  have hlt := (eachStep_storesInside_iff rfl hoffset delivered_fullRead).mp h.2
  have hlen : (stashedBytes (accept zeroTunnel).tunnel.clientBuf.bytes
      (accept zeroTunnel).tunnel.status fullRead).length = maxSize := by decide +kernel
  rw [hlen] at hlt
  exact absurd hlt (Nat.not_lt.mpr (Nat.le_add_left _ _))

end Session

end LearnUv.Socks
