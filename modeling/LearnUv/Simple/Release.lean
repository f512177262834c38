import LearnUv.Simple.FileTransfer
import LearnUv.Library.AbortingRun

/-!
# What a transfer releases

A transfer takes a handle, a descriptor and a context.  It releases them at the end of the
chain of its callbacks, and only there: the callback of a request that failed stops the
chain, and nothing is called back any more.

While nothing has failed the request that is pending tells how far the chain has come, and so
what was released by then; `OnTrack` says it, one line for each request.  A failure leads to
a transfer that is `Stuck`: nothing is pending, or only a read that has failed, and the handle
was not closed.  A stuck transfer stays so, because `on_read` returns at once for a read that
has failed.  Every transfer that is reached is one or the other, and the two are told apart
by what libuv has reported.

## Main Definitions

* `Transfer.Released` — each of the three was released once, and the context not used since
* `Event.Succeeds` — libuv reports no error

## Main Results

* `released_iff` — a transfer that waits for nothing has released what it took exactly when
  nothing failed
-/

namespace LearnUv.FileTransfer

/-- What was taken is released, once. -/
structure Transfer.Released (t : Transfer) : Prop where
  handle : t.done.count .uvClose = 1
  /-- The descriptor, if there is one. -/
  file : 0 ≤ t.openResult → t.done.count (.fsClose t.openResult) = 1
  ctx : t.done.count .freeCtx = 1
  unused : ∀ before after, t.done = before ++ .freeCtx :: after → .useCtx ∉ after

/-- The event reports success: of a request that is over, and of the one that the callback
starts. -/
def Event.Succeeds : Event → Prop
  | .connection _ _ _ => True
  | .opened result started => 0 ≤ result ∧ 0 ≤ started
  | .fill _ => True
  | .readFails _ => False
  | .read _ started => 0 ≤ started
  | .written status started => 0 ≤ status ∧ 0 ≤ started
  | .shutDown status started => 0 ≤ status ∧ 0 ≤ started
  | .fsClosed => True
  | .tcpClosed => True

/-! ## The chain -/

/-- The actions that release something. -/
def Action.releases : Action → Bool
  | .fsClose _ => true
  | .uvClose => true
  | .freeCtx => true
  | _ => false

namespace Transfer

/-- What was released, in order. -/
def releases (t : Transfer) : List Action := t.done.filter Action.releases

/-- Nothing has failed: what was released depends on the request that is pending. -/
def OnTrack (t : Transfer) : Prop :=
  match t.pending with
  | some .fsOpen => t.releases = []
  | some .fsRead => 0 ≤ t.openResult ∧ t.releases = []
  | some (.fsReadDone (.read _)) => 0 ≤ t.openResult ∧ t.releases = []
  | some (.fsReadDone (.failed _)) => False
  | some .write => 0 ≤ t.openResult ∧ t.releases = []
  | some .shutdown => 0 ≤ t.openResult ∧ t.releases = []
  | some .fsClose => 0 ≤ t.openResult ∧ t.releases = [.fsClose t.openResult]
  | some .uvClose => 0 ≤ t.openResult ∧ t.releases = [.fsClose t.openResult, .uvClose]
  | none => 0 ≤ t.openResult ∧ ∃ rest, t.done = rest ++ [.freeCtx] ∧
      rest.filter Action.releases = [.fsClose t.openResult, .uvClose]

/-- Something has failed: the handle stays open. -/
def Stuck (t : Transfer) : Prop :=
  .uvClose ∉ t.done ∧
    (t.pending = none ∨ ∃ error, t.pending = some (.fsReadDone (.failed error)))

theorem onTrack_begun : begun.OnTrack := rfl

/-- The end of the chain. -/
theorem OnTrack.released {t : Transfer} (h : t.OnTrack) (hdone : t.pending = none) :
    t.Released := by
  rw [OnTrack, hdone] at h
  obtain ⟨-, rest, hrest, hreleases⟩ := h
  have hcount : ∀ {action : Action}, action.releases = true →
      rest.count action = [Action.fsClose t.openResult, .uvClose].count action := by
    intro action haction
    rw [← hreleases, List.count_filter haction]
  refine ⟨?_, ?_, ?_, ?_⟩
  · rw [hrest, List.count_append, hcount rfl]
    rfl
  · intro _
    rw [hrest, List.count_append, hcount rfl]
    simp
  · rw [hrest, List.count_append, hcount rfl]
    rfl
  · intro before after hsplit
    have hfree : Action.freeCtx ∉ rest := by
      rw [← List.count_eq_zero, hcount rfl]
      rfl
    -- the context is freed once, at the end, so nothing comes after it
    rcases List.eq_nil_or_concat after with rfl | ⟨after, last, rfl⟩
    · exact List.not_mem_nil
    · exfalso
      rw [hrest, List.concat_eq_append, ← List.cons_append, ← List.append_assoc] at hsplit
      obtain ⟨hrest', -⟩ := List.append_inj' hsplit rfl
      rw [hrest'] at hfree
      simp at hfree

/-- A handle that was not closed was not released. -/
theorem Stuck.not_released {t : Transfer} (h : t.Stuck) : ¬t.Released := by
  intro hreleased
  have hcount := List.count_eq_zero.mpr h.1
  rw [hreleased.handle] at hcount
  cases hcount

/-- What a callback releases is put behind what was released before. -/
theorem releases_react (t : Transfer) (started : Int32) (actions : List Action) :
    (t.react started actions).releases = t.releases ++ actions.filter Action.releases :=
  List.filter_append _ _

/-- The handle is open as long as nothing was released. -/
theorem notMem_done {t : Transfer} (h : t.releases = []) : .uvClose ∉ t.done := by
  intro hmem
  have hreleases : Action.uvClose ∈ t.releases := List.mem_filter.mpr ⟨hmem, rfl⟩
  rw [h] at hreleases
  cases hreleases

/-- A callback that neither closes the handle nor starts a request that libuv accepts ends
the chain. -/
theorem stuck_react {t : Transfer} (h : t.releases = []) {started : Int32}
    {actions : List Action} (hclose : .uvClose ∉ actions)
    (hstarts : started < 0 ∨ actions.findSome? Action.request = none) :
    (t.react started actions).Stuck := by
  refine ⟨?_, Or.inl ?_⟩
  · show Action.uvClose ∉ t.done ++ actions
    rw [List.mem_append, not_or]
    exact ⟨notMem_done h, hclose⟩
  · show (if started < 0 then none else actions.findSome? Action.request) = none
    rcases hstarts with hneg | hnone
    · rw [if_pos hneg]
    · rw [hnone, ite_self]

/-- `Stuck` is for ever. -/
theorem Stuck.step {file : List UInt8} {buf : CharArray fileBuf} {t t' : Transfer}
    {event : Event} (h : t.Stuck) (hawaits : t.Awaits file event)
    (hstep : t.step file buf event = .ok t') : t'.Stuck := by
  obtain ⟨hopen, hpending⟩ := h
  -- only `on_read` for the failed read may still come
  have hread : ∃ tBuf started error, event = .read tBuf started ∧
      t.pending = some (.fsReadDone (.failed error)) := by
    rcases hpending with hnone | ⟨error, hfailed⟩
    · cases event <;> simp [Awaits, hnone] at hawaits
    · cases event with
      | read tBuf started => exact ⟨tBuf, started, error, rfl, hfailed⟩
      | _ => simp [Awaits, hfailed] at hawaits
  obtain ⟨tBuf, started, error, rfl, hfailed⟩ := hread
  simp only [Transfer.step, hfailed, onRead_failed, AbortingRun.ok_bind] at hstep
  cases hstep
  refine ⟨?_, Or.inl ?_⟩
  · simp [react, hopen]
  · simp [react, Action.request]

/-- What the read callback does when the read has not failed. -/
theorem OnTrack.read {file : List UInt8} {buf tBuf : CharArray fileBuf} {t t' : Transfer}
    {started : Int32} (h : t.OnTrack) (hawaits : t.Awaits file (.read tBuf started))
    (hstep : t.step file buf (.read tBuf started) = .ok t') :
    0 ≤ t.openResult ∧ t.releases = [] ∧ ∃ action,
      (action = .shutdown ∨ ∃ bytes, action = .write bytes) ∧
        t' = t.react started [.useCtx, action] := by
  obtain ⟨outcome, hpending⟩ := exists_outcome_of_awaits hawaits
  rw [OnTrack, hpending] at h
  cases outcome with
  | failed error => exact h.elim
  | read chunk =>
      obtain ⟨hopen, hreleases⟩ := h
      refine ⟨hopen, hreleases, ?_⟩
      simp only [Transfer.step, hpending] at hstep
      by_cases hnil : chunk.bytes = []
      · rw [onRead_eof _ _ hnil] at hstep
        cases hstep
        exact ⟨.shutdown, Or.inl rfl, rfl⟩
      · rcases chunk.length_le.lt_or_eq with hfits | hfull
        · rw [onRead_chunk hnil hfits] at hstep
          cases hstep
          exact ⟨_, Or.inr ⟨_, rfl⟩, rfl⟩
        · rw [onRead_full hfull] at hstep
          cases hstep

/-- If libuv accepts the request that a callback starts, it is the one that is pending. -/
theorem pending_react {t : Transfer} {started : Int32} (h : 0 ≤ started)
    (actions : List Action) :
    (t.react started actions).pending = actions.findSome? Action.request :=
  if_neg (Int32.not_lt.mpr h)

/-- A callback that is told a status does nothing if it is an error, and else it starts a
request. -/
theorem followed_status {t : Transfer} (h : t.releases = []) {status started : Int32}
    {action : Action} (hclose : action ≠ .uvClose)
    (htrack : 0 ≤ started → (t.react started [.useCtx, action]).OnTrack) :
    (0 ≤ status ∧ 0 ≤ started →
      (t.react started (if status < 0 then [] else [.useCtx, action])).OnTrack) ∧
    (¬(0 ≤ status ∧ 0 ≤ started) →
      (t.react started (if status < 0 then [] else [.useCtx, action])).Stuck) := by
  constructor
  · rintro ⟨hstatus, hstarted⟩
    rw [if_neg (Int32.not_lt.mpr hstatus)]
    exact htrack hstarted
  · intro hfails
    by_cases hstatus : status < 0
    · rw [if_pos hstatus]
      exact stuck_react h List.not_mem_nil (Or.inr rfl)
    · rw [if_neg hstatus]
      refine stuck_react h (by simp [hclose.symm]) (Or.inl (Int32.not_le.mp fun hstarted => ?_))
      exact hfails ⟨Int32.not_lt.mp hstatus, hstarted⟩

/-- `on_file_open`. -/
theorem followed_opened {t : Transfer} (h : t.releases = []) (result : Int64)
    (started : Int32) :
    (0 ≤ result ∧ 0 ≤ started →
      ({ t with openResult := result }.react started (onFileOpen result)).OnTrack) ∧
    (¬(0 ≤ result ∧ 0 ≤ started) →
      ({ t with openResult := result }.react started (onFileOpen result)).Stuck) := by
  have hreleases : releases { t with openResult := result } = [] := h
  constructor
  · rintro ⟨hresult, hstarted⟩
    rw [onFileOpen, if_pos hresult, OnTrack, pending_react hstarted, releases_react, hreleases]
    exact ⟨hresult, rfl⟩
  · intro hfails
    by_cases hresult : 0 ≤ result
    · rw [onFileOpen, if_pos hresult]
      refine stuck_react hreleases (by simp) (Or.inl (Int32.not_le.mp fun hstarted => ?_))
      exact hfails ⟨hresult, hstarted⟩
    · -- the context is freed, but not the handle
      rw [onFileOpen, if_neg hresult]
      exact stuck_react hreleases (by simp) (Or.inr rfl)

/-- **One callback**: with success the transfer stays on track, and with a failure it is
stuck. -/
theorem OnTrack.step {file : List UInt8} {buf : CharArray fileBuf} {t t' : Transfer}
    {event : Event} (h : t.OnTrack) (hawaits : t.Awaits file event)
    (hstep : t.step file buf event = .ok t') :
    (event.Succeeds → t'.OnTrack) ∧ (¬event.Succeeds → t'.Stuck) := by
  cases event with
  | connection status accepted opened => cases hawaits
  | opened result started =>
      rw [OnTrack, show t.pending = some .fsOpen from hawaits] at h
      cases hstep
      exact followed_opened h result started
  | fill n =>
      rw [OnTrack, show t.pending = some .fsRead from hawaits.1] at h
      cases hstep
      exact ⟨fun _ => h, fun hfails => (hfails trivial).elim⟩
  | readFails error =>
      rw [OnTrack, show t.pending = some .fsRead from hawaits] at h
      cases hstep
      exact ⟨False.elim, fun _ => ⟨notMem_done h.2, Or.inr ⟨error, rfl⟩⟩⟩
  | read tBuf started =>
      obtain ⟨hopen, hreleases, action, haction, rfl⟩ := h.read hawaits hstep
      constructor
      · intro hstarted
        rw [OnTrack, pending_react hstarted, releases_react, hreleases]
        rcases haction with rfl | ⟨bytes, rfl⟩
        · exact ⟨hopen, rfl⟩
        · exact ⟨hopen, rfl⟩
      · intro hfails
        refine stuck_react hreleases ?_ (Or.inl (Int32.not_le.mp hfails))
        rcases haction with rfl | ⟨bytes, rfl⟩
        · simp
        · simp
  | written status started =>
      rw [OnTrack, show t.pending = some .write from hawaits] at h
      cases hstep
      refine followed_status h.2 (by simp) fun hstarted => ?_
      rw [OnTrack, pending_react hstarted, releases_react, h.2]
      exact ⟨h.1, rfl⟩
  | shutDown status started =>
      rw [OnTrack, show t.pending = some .shutdown from hawaits] at h
      cases hstep
      refine followed_status h.2 (by simp) fun hstarted => ?_
      rw [OnTrack, pending_react hstarted, releases_react, h.2]
      exact ⟨h.1, rfl⟩
  | fsClosed =>
      rw [OnTrack, show t.pending = some .fsClose from hawaits] at h
      cases hstep
      refine ⟨fun _ => ?_, fun hfails => (hfails trivial).elim⟩
      rw [OnTrack, pending_react (by decide), releases_react, h.2]
      exact ⟨h.1, rfl⟩
  | tcpClosed =>
      rw [OnTrack, show t.pending = some .uvClose from hawaits] at h
      cases hstep
      refine ⟨fun _ => ?_, fun hfails => (hfails trivial).elim⟩
      rw [OnTrack, pending_react (by decide)]
      refine ⟨h.1, t.done ++ [.useCtx, .cleanup .openReq, .useCtx, .cleanup .readReq], ?_, ?_⟩
      · rw [List.append_assoc]
        rfl
      · rw [List.filter_append, show t.done.filter Action.releases = _ from h.2]
        rfl

end Transfer

/-! ## Every run -/

section Runs

variable {file : List UInt8} {memory : CharArray fileBuf} {history : List (ℕ × Event)}
  {s : System}

/-- Nothing that has happened to a client was a failure. -/
def AllSucceed (history : List (ℕ × Event)) (i : ℕ) : Prop :=
  ∀ event, (i, event) ∈ history → event.Succeeds

/-- An event of the client has to succeed, too. -/
theorem allSucceed_concat_self {i : ℕ} {event : Event} :
    AllSucceed (history ++ [(i, event)]) i ↔ AllSucceed history i ∧ event.Succeeds := by
  simp only [AllSucceed, List.mem_append, List.mem_singleton, Prod.mk.injEq, true_and]
  constructor
  · intro h
    exact ⟨fun e he => h e (Or.inl he), h event (Or.inr rfl)⟩
  · rintro ⟨hbefore, hlast⟩ e (he | rfl)
    · exact hbefore e he
    · exact hlast

/-- A connection never counts as a failure, -/
theorem allSucceed_connection {i : ℕ} (h : AllSucceed history i)
    (status accepted opened : Int32) :
    AllSucceed (history ++ [(i, .connection status accepted opened)]) i :=
  allSucceed_concat_self.mpr ⟨h, trivial⟩

/-- and neither does what happens to another client. -/
theorem allSucceed_concat_of_ne {i j : ℕ} (hj : j ≠ i) {event : Event} :
    AllSucceed (history ++ [(i, event)]) j ↔ AllSucceed history j := by
  simp [AllSucceed, hj]

/-- What a history says about a transfer: it is on track, or something has failed and it is
stuck. -/
structure Followed (history : List (ℕ × Event)) (i : ℕ) (t : Transfer) : Prop where
  onTrack : AllSucceed history i → t.OnTrack
  stuck : ¬AllSucceed history i → t.Stuck

/-- **A step follows the chain**: what is on track stays so exactly when the event succeeds,
and what is stuck stays stuck. -/
theorem Followed.step {i : ℕ} {t t' : Transfer} (h : Followed history i t)
    {buf : CharArray fileBuf} {event : Event} (hawaits : t.Awaits file event)
    (hstep : t.step file buf event = .ok t') : Followed (history ++ [(i, event)]) i t' := by
  constructor
  · intro hall
    obtain ⟨hbefore, hlast⟩ := allSucceed_concat_self.mp hall
    exact ((h.onTrack hbefore).step hawaits hstep).1 hlast
  · intro hfails
    by_cases hbefore : AllSucceed history i
    · have hlast : ¬event.Succeeds := fun hlast =>
        hfails (allSucceed_concat_self.mpr ⟨hbefore, hlast⟩)
      exact ((h.onTrack hbefore).step hawaits hstep).2 hlast
    · exact (h.stuck hbefore).step hawaits hstep

/-- Every transfer of a state that is reached is on track or stuck. -/
theorem followed_of_reaches (h : System.Reaches file memory history s) (i : ℕ) :
    (s.transfer i = none → AllSucceed history i) ∧
      ∀ t, s.transfer i = some t → Followed history i t := by
  induction h with
  | start =>
      refine ⟨fun _ event hmem => absurd hmem List.not_mem_nil, fun t ht => ?_⟩
      cases ht
  | @event history s s' occurrence before hevent hstep ih =>
      obtain ⟨j, event⟩ := occurrence
      have houtcome := System.step_cases hevent hstep
      rcases eq_or_ne i j with rfl | hne
      · cases houtcome with
        | refused status accepted opened hevent hnew _ hs =>
            subst hevent hs
            have hall := allSucceed_connection (ih.1 hnew) status accepted opened
            refine ⟨fun _ => hall, ?_⟩
            intro t ht
            rw [hnew] at ht
            cases ht
        | begun status accepted opened hevent hnew _ hs =>
            subst hevent hs
            have hall := allSucceed_connection (ih.1 hnew) status accepted opened
            refine ⟨fun _ => hall, ?_⟩
            intro t ht
            cases (System.transfer_put_self s i _).symm.trans ht
            exact ⟨fun _ => Transfer.onTrack_begun, fun hfails => (hfails hall).elim⟩
        | next t t' buf ht hawaits hstore hnext hs =>
            subst hs
            rw [System.transfer_put_self]
            refine ⟨fun hnone => (Option.some_ne_none _ hnone).elim, fun u hu => ?_⟩
            cases hu
            exact (ih.2 t ht).step hawaits hnext
      · rw [houtcome.transfer_of_ne hne, allSucceed_concat_of_ne hne]
        refine ⟨ih.1, fun t ht => ?_⟩
        have hbefore := ih.2 t ht
        exact ⟨fun hall => hbefore.onTrack ((allSucceed_concat_of_ne hne).mp hall),
          fun hfails => hbefore.stuck fun hall => hfails ((allSucceed_concat_of_ne hne).mpr hall)⟩

/-- **A transfer that waits for nothing has released what it took exactly when libuv has
reported no error for it**, in every run of the server. -/
theorem released_iff (h : System.Reaches file memory history s) {i : ℕ} {t : Transfer}
    (ht : s.transfer i = some t) (hdone : t.pending = none) :
    t.Released ↔ AllSucceed history i := by
  have hfollowed := (followed_of_reaches h i).2 t ht
  constructor
  · intro hreleased
    by_contra hfails
    exact (hfollowed.stuck hfails).not_released hreleased
  · intro hall
    exact (hfollowed.onTrack hall).released hdone

end Runs

/-- The transfer of a file of two bytes, which are read and written in two pieces. -/
def twoPieces : List (ℕ × Event) :=
  [(0, .connection 0 0 0), (0, .opened 3 0), (0, .fill 1), (0, .read (CharArray.zeros fileBuf) 0),
    (0, .written 0 0), (0, .fill 1), (0, .read (CharArray.zeros fileBuf) 0), (0, .written 0 0),
    (0, .fill 0), (0, .read (CharArray.zeros fileBuf) 0), (0, .shutDown 0 0), (0, .fsClosed),
    (0, .tcpClosed)]

theorem released_iff_twoPieces : ∃ (s : System) (t : Transfer), s.transfer 0 = some t ∧
    (t.Released ↔ AllSucceed twoPieces 0) := by
  have hrun : (System.runEvents [7, 8] (CharArray.zeros fileBuf) twoPieces).map
      (fun s => (s.transfer 0).map Transfer.pending) = some (some none) := by decide +kernel
  obtain ⟨s, hreach, hs⟩ := System.exists_reaches_of_map [7, 8] hrun
  obtain ⟨t, ht, hdone⟩ := Option.map_eq_some_iff.mp hs
  exact ⟨s, t, ht, released_iff hreach ht hdone⟩

/-- The file cannot be opened, and nothing is called back any more. -/
def missingRun : List (ℕ × Event) := [(0, .connection 0 0 0), (0, .opened (-2) 0)]

theorem not_released_missingRun : ∃ s t,
    System.Reaches [] (CharArray.zeros fileBuf) missingRun s ∧ s.transfer 0 = some t ∧
      t.pending = none ∧ ¬t.Released := by
  have hrun : (System.runEvents [] (CharArray.zeros fileBuf) missingRun).map
      (fun s => (s.transfer 0).map fun t => (t.pending, t.done.count .uvClose)) =
        some (some (none, 0)) := by decide +kernel
  obtain ⟨s, hreach, hs⟩ := System.exists_reaches_of_map [] hrun
  obtain ⟨t, ht, hdone⟩ := Option.map_eq_some_iff.mp hs
  refine ⟨s, t, hreach, ht, congrArg Prod.fst hdone, ?_⟩
  intro hreleased
  have hcount := hreleased.handle
  rw [show t.done.count .uvClose = 0 from congrArg Prod.snd hdone] at hcount
  cases hcount

end LearnUv.FileTransfer
