import LearnUv.Socks.Connecting
import Mathlib.Data.List.Perm.Basic

/-!
# What becomes of everything that is read

A read of the client is answered as a request, forwarded, kept, or dropped.  Which of these
happens to it depends on two things only: what is in `client_buf` then, and the state of the
tunnel.  So the history says where each read has gone, and this module proves that the
proxy does with the reads just that, as long as the tunnel exists.

`Control` is the part of a session that decides: it is computed from the history alone, and
`routes` follows the reads with it.  The invariant compares the record of the session with
these routes, one list of the record with one kind of route, and each callback extends both
sides in the same way.  Reads of the server do not take part in this; each of them is a block
of its own.

## Main Definitions

* `Control` — what decides about a read
* `Control.routes` — the reads of a history, with what is done with each
* `Session.Accounted` — everything in the record is there for one event of the history

## Main Results

* `Control.map_routes` — each read of the client has one route
* `Session.accounted_of_reaches` — every read and every connect is accounted for
-/

namespace LearnUv.Socks

/-! ## More about the record -/

/-- What was written to the server, read by read. -/
def forwards (log : List Action) : List (List UInt8) :=
  log.filterMap fun
    | .forward bytes => some bytes
    | _ => none

/-- What was kept, read by read. -/
def stashes (log : List Action) : List (List UInt8) :=
  log.filterMap fun
    | .stash bytes => some bytes
    | _ => none

/-- What `on_server_read` wrote to the client, read by read. -/
def relays (log : List Action) : List (List UInt8) :=
  log.filterMap fun
    | .relay bytes => some bytes
    | _ => none

/-- The destinations of the connects that are done. -/
def finished (log : List Action) : List (Option SockAddrIn) :=
  log.filterMap fun
    | .connectDone dest _ => some dest
    | _ => none

/-- What the server sent, read by read, with what was behind the tunnel at each. -/
def serverReads {gap : ℕ} (events : List (Session.Event gap)) :
    List (List UInt8 × CharArray gap) :=
  events.filterMap fun
    | .serverData data behind => some (data, behind)
    | _ => none

section Append

variable {gap : ℕ} (log log' : List Action)

@[simp] theorem forwards_append : forwards (log ++ log') = forwards log ++ forwards log' := by
  simp [forwards]

@[simp] theorem stashes_append : stashes (log ++ log') = stashes log ++ stashes log' := by
  simp [stashes]

@[simp] theorem relays_append : relays (log ++ log') = relays log ++ relays log' := by
  simp [relays]

@[simp] theorem finished_append : finished (log ++ log') = finished log ++ finished log' := by
  simp [finished]

@[simp] theorem serverReads_append (events events' : List (Session.Event gap)) :
    serverReads (events ++ events') = serverReads events ++ serverReads events' := by
  simp [serverReads]

end Append

/-- What is done for no read of the client. -/
def Action.IsOther : Action → Prop
  | .connectDone _ _ => True
  | .readStart _ => True
  | .relay _ => True
  | _ => False

/-- The other actions do not count for the account. -/
theorem other_log {added : List Action} (h : ∀ action ∈ added, action.IsOther) :
    forwards added = [] ∧ stashes added = [] ∧ added.count .unexpectedStatus = 0 ∧
      replies added = [] ∧ connects added = [] := by
  induction added with
  | nil => exact ⟨rfl, rfl, rfl, rfl, rfl⟩
  | cons action added ih =>
      obtain ⟨haction, hrest⟩ := List.forall_mem_cons.mp h
      obtain ⟨hforwards, hstashes, hdropped, hreplies, hconnects⟩ := ih hrest
      cases action with
      | connectDone dest status =>
          exact ⟨hforwards, hstashes, by simpa using hdropped, hreplies, hconnects⟩
      | readStart side =>
          exact ⟨hforwards, hstashes, by simpa using hdropped, hreplies, hconnects⟩
      | relay bytes =>
          exact ⟨hforwards, hstashes, by simpa using hdropped, hreplies, hconnects⟩
      | _ => exact haction.elim

/-! ## Routes -/

/-- What `on_client_read` does with a read. -/
inductive Route
  | request
  | forward
  | stash
  | drop
  deriving DecidableEq, Repr

/-- What it does for a route, with `base` in `client_buf`. -/
def Route.actions (base data : List UInt8) : Route → List Action
  | .request => .reply (requestDest base) grantedReply ::
      (if 0 < (cString (base.drop 8)).length then [.username] else []) ++
        [.tcpInit .server, .connect (requestDest base)]
  | .forward => [.forward data]
  | .stash => [.stash data]
  | .drop => [.unexpectedStatus]

namespace Route

variable (base data : List UInt8) (route : Route)

/-- What can be seen of a route, for whom the user name and the new stream do not count. -/
theorem filterMap_actions {α : Type} (f : Action → Option α) (husername : f .username = none)
    (hinit : f (.tcpInit .server) = none) :
    (route.actions base data).filterMap f =
      match route with
      | .request => (f (.reply (requestDest base) grantedReply)).toList ++
          (f (.connect (requestDest base))).toList
      | .forward => (f (.forward data)).toList
      | .stash => (f (.stash data)).toList
      | .drop => (f .unexpectedStatus).toList := by
  have hsingle : ∀ action, [action].filterMap f = (f action).toList := by
    intro action
    cases haction : f action with
    | none => exact List.filterMap_cons_none haction
    | some a => exact List.filterMap_cons_some haction
  cases route with
  | request =>
      have hprinted : (if 0 < (cString (base.drop 8)).length then [Action.username]
          else []).filterMap f = [] := by
        split
        · rw [hsingle, husername]
          rfl
        · rfl
      have hmiddle : [Action.tcpInit .server, .connect (requestDest base)].filterMap f =
          (f (.connect (requestDest base))).toList := by
        rw [List.filterMap_cons_none hinit, hsingle]
      rw [actions, List.cons_append, ← List.singleton_append, List.filterMap_append,
        List.filterMap_append, hprinted, hmiddle, hsingle, List.nil_append]
  | forward => exact hsingle _
  | stash => exact hsingle _
  | drop => exact hsingle _

/-- Only a read that is routed to the server is forwarded, -/
theorem forwards_actions :
    forwards (route.actions base data) = if route = .forward then [data] else [] := by
  refine (filterMap_actions base data route _ rfl rfl).trans ?_
  cases route <;> rfl

/-- only one that comes while the tunnel connects is kept, -/
theorem stashes_actions :
    stashes (route.actions base data) = if route = .stash then [data] else [] := by
  refine (filterMap_actions base data route _ rfl rfl).trans ?_
  cases route <;> rfl

/-- and only a request connects -/
theorem connects_actions : connects (route.actions base data) =
    if route = .request then [requestDest base] else [] := by
  refine (filterMap_actions base data route _ rfl rfl).trans ?_
  cases route <;> rfl

/-- and is replied to. -/
theorem replies_actions : replies (route.actions base data) =
    if route = .request then [grantedReply] else [] := by
  refine (filterMap_actions base data route _ rfl rfl).trans ?_
  cases route <;> rfl

/-- What the client sends is not relayed to the client, -/
theorem relays_actions : relays (route.actions base data) = [] := by
  refine (filterMap_actions base data route _ rfl rfl).trans ?_
  cases route <;> rfl

/-- and finishes no write. -/
theorem finished_actions : finished (route.actions base data) = [] := by
  refine (filterMap_actions base data route _ rfl rfl).trans ?_
  cases route <;> rfl

/-- A read that comes in no expected state is reported. -/
theorem count_actions : (route.actions base data).count .unexpectedStatus =
    if route = .drop then 1 else 0 := by
  cases route with
  | request => by_cases h : 0 < (cString (base.drop 8)).length <;> simp [actions, h]
  | forward => rfl
  | stash => rfl
  | drop => rfl

end Route

/-- What decides about a read: what is in `client_buf`, and the state of the tunnel. -/
structure Control where
  base : List UInt8
  status : Status
  deriving DecidableEq

namespace Control

open Session (Event)

variable {gap : ℕ}

/-- What is done with a read. -/
def route (c : Control) (data : List UInt8) : Route :=
  if OpensRequest (overwrite c.base 0 data) then .request
  else if c.status = .connectedToServer then .forward
  else if c.status = .connectingToServer then .stash
  else .drop

/-- What an event makes of it. -/
def next (c : Control) : Event gap → Control
  | .clientData data =>
      { base := overwrite c.base 0 data
        status := if OpensRequest (overwrite c.base 0 data) then .connectingToServer
          else c.status }
  | .connectDone _ status => if status < 0 then c else { c with status := .connectedToServer }
  | .clientEnd _ => c
  | .serverData _ _ => c
  | .serverEnd _ => c
  | .clientWriteEnd _ => c

/-- The reads of a history, with what is done with each. -/
def routes : Control → List (Event gap) → List (Route × List UInt8)
  | _, [] => []
  | c, event :: events =>
      (clientReads [event]).map (fun data => (c.route data, data)) ++ routes (c.next event) events

/-- What a history makes of it. -/
def after (c : Control) (events : List (Event gap)) : Control := events.foldl next c

/-- The control state follows the events one by one. -/
theorem after_concat (c : Control) (events : List (Event gap)) (event : Event gap) :
    c.after (events ++ [event]) = (c.after events).next event := by
  simp [after]

/-- Each read is routed by the state in which it comes. -/
theorem routes_concat (c : Control) (events : List (Event gap)) (event : Event gap) :
    c.routes (events ++ [event]) = c.routes events ++
      (clientReads [event]).map fun data => ((c.after events).route data, data) := by
  induction events generalizing c with
  | nil => simp [routes, after]
  | cons first events ih =>
      rw [List.cons_append, routes, ih, routes, List.append_assoc]
      rfl

/-- **Each read of the client has one route.** -/
theorem map_routes (c : Control) (events : List (Event gap)) :
    (c.routes events).map Prod.snd = clientReads events := by
  induction events generalizing c with
  | nil => rfl
  | cons event events ih =>
      rw [routes, List.map_append, ih, List.map_map, clientReads_cons event events]
      exact congrArg (· ++ clientReads events) (List.map_id _)

end Control

/-- The reads that take a route. -/
def routed (route : Route) (routes : List (Route × List UInt8)) : List (List UInt8) :=
  (routes.filter fun read => read.1 = route).map Prod.snd

/-- What went one route, one read later. -/
theorem routed_concat (route : Route) (routes : List (Route × List UInt8)) (route' : Route)
    (data : List UInt8) : routed route (routes ++ [(route', data)]) =
      routed route routes ++ if route' = route then [data] else [] := by
  by_cases h : route' = route <;> simp [routed, h]

namespace Session

variable {gap : ℕ}

/-- What decides about the next read of a session. -/
def control (s : Session gap) : Control := ⟨s.tunnel.clientBuf.bytes, s.tunnel.status⟩

/-- **A read from the client**: what is done with it is its route. -/
theorem step_routed {s t : Session gap} (hlive : s.freed = false) {data : List UInt8}
    (hstep : s.step (.clientData data) = .ok t) :
    ∃ actions, actions = (s.control.route data).actions
        (overwrite s.tunnel.clientBuf.bytes 0 data) data ∧
      t.log = s.log ++ actions ∧
      t.control = s.control.next (.clientData data : Event gap) ∧
      t.connecting = s.connecting ++ connects actions ∧
      t.tunnel.serverBufOffset =
        s.tunnel.serverBufOffset + (stashes actions).flatten.length := by
  obtain ⟨clientBuf, hbytes, hcases⟩ := clientData_eq_ok hlive hstep
  rw [hbytes] at hcases
  refine ⟨_, rfl, ?_⟩
  rw [Route.connects_actions, Route.stashes_actions]
  rcases hcases with ⟨hopens, rfl⟩ | ⟨hopens, ⟨hstatus, rfl⟩ | ⟨hstatus, -, serverBuf, rfl⟩ |
    ⟨hconnected, hconnecting, rfl⟩⟩
  · have hroute : s.control.route data = .request := if_pos hopens
    rw [hroute]
    refine ⟨List.append_assoc _ _ _, ?_, rfl, rfl⟩
    rw [Control.next, control, control, if_pos hopens]
    exact congrArg (Control.mk · _) hbytes
  · have hroute : s.control.route data = .forward := (if_neg hopens).trans (if_pos hstatus)
    rw [hroute]
    refine ⟨rfl, ?_, (List.append_nil _).symm, rfl⟩
    rw [Control.next, control, control, if_neg hopens]
    exact congrArg (Control.mk · _) hbytes
  · have hconnected : s.tunnel.status ≠ .connectedToServer := by
      rw [hstatus]
      decide
    have hroute : s.control.route data = .stash :=
      (if_neg hopens).trans ((if_neg hconnected).trans (if_pos hstatus))
    rw [hroute]
    refine ⟨rfl, ?_, (List.append_nil _).symm, ?_⟩
    · rw [Control.next, control, control, if_neg hopens]
      exact congrArg (Control.mk · _) hbytes
    · simp [kept, received]
  · have hroute : s.control.route data = .drop :=
      (if_neg hopens).trans ((if_neg hconnected).trans (if_neg hconnecting))
    rw [hroute]
    refine ⟨rfl, ?_, (List.append_nil _).symm, rfl⟩
    rw [Control.next, control, control, if_neg hopens]
    exact congrArg (Control.mk · _) hbytes

/-- What decides about the first read. -/
def initial (memory : Tunnel gap) : Control := ⟨memory.clientBuf.bytes, .tunnelStart⟩

/-- A read of the server, and the block that was written for it: what was read, what
`server_buf` held behind it, and what lies behind the tunnel. -/
def Answers (read : List UInt8 × CharArray gap) (block : List UInt8) : Prop :=
  (∃ stale, block = read.1 ++ stale ++ read.2.bytes) ∧ block.length = maxSize

/-- Everything that was done was done for one event of the history. -/
structure Accounted (memory : Tunnel gap) (history : List (Event gap)) (s : Session gap) : Prop where
  control : s.control = (initial memory).after history
  /-- The reads with this route were forwarded, each once, whole and in their order. -/
  forwards : forwards s.log = routed .forward ((initial memory).routes history)
  stashes : stashes s.log = routed .stash ((initial memory).routes history)
  dropped : s.log.count .unexpectedStatus =
    (routed .drop ((initial memory).routes history)).length
  /-- Every request is answered once, and one connect is started for it. -/
  replies : replies s.log =
    List.replicate (routed .request ((initial memory).routes history)).length grantedReply
  connects : connects s.log =
    ((clientBuffers memory.clientBuf.bytes (clientReads history)).filter
      fun base => OpensRequest base).map requestDest
  /-- Every connect is done once, or not yet. -/
  settled : (Socks.connects s.log).Perm (finished s.log ++ s.connecting)
  stashed : s.tunnel.serverBufOffset =
    memory.serverBufOffset + (Socks.stashes s.log).flatten.length
  /-- Every read of the server is answered by one block that begins with it. -/
  relays : List.Forall₂ Answers (serverReads history) (relays s.log)

/-- A tunnel that was just accepted has nothing to account for. -/
theorem accounted_accept (memory : Tunnel gap) : Accounted memory [] (accept memory) where
  control := rfl
  forwards := rfl
  stashes := rfl
  dropped := rfl
  replies := rfl
  connects := rfl
  settled := List.Perm.refl _
  stashed := rfl
  relays := List.Forall₂.nil

namespace Accounted

variable {memory : Tunnel gap} {history : List (Event gap)} {s t : Session gap}

/-- The client buffer holds what the reads have left in it. -/
theorem base_eq (h : Accounted memory history s) : s.tunnel.clientBuf.bytes =
    bufferAfter memory.clientBuf.bytes (clientReads history) := by
  have hbase : s.tunnel.clientBuf.bytes = ((initial memory).after history).base := by
    rw [← h.control]
    rfl
  rw [hbase]
  clear h hbase
  induction history using List.reverseRecOn with
  | nil => rfl
  | append_singleton history event ih =>
      rw [Control.after_concat, clientReads_append, bufferAfter_append, ← ih]
      cases event with
      | clientData data => rfl
      | connectDone dest status =>
          rw [Control.next]
          split
          · rfl
          · rfl
      | clientEnd nread => rfl
      | serverData data behind => rfl
      | serverEnd nread => rfl
      | clientWriteEnd i => rfl

/-- A read of the client. -/
theorem clientData (h : Accounted memory history s) (hlive : s.freed = false)
    {data : List UInt8} (hstep : s.step (.clientData data) = .ok t) :
    Accounted memory (history ++ [.clientData data]) t := by
  obtain ⟨actions, hactions, hlog, hcontrol, hconnecting, hoffset⟩ := step_routed hlive hstep
  have hreads : clientReads [(.clientData data : Event gap)] = [data] := rfl
  have hroutes : (initial memory).routes (history ++ [.clientData data]) =
      (initial memory).routes history ++ [(s.control.route data, data)] := by
    rw [Control.routes_concat, hreads, ← h.control]
    rfl
  have hserver : serverReads (history ++ [.clientData data]) = serverReads history :=
    (serverReads_append _ _).trans (List.append_nil _)
  refine ⟨?_, ?_, ?_, ?_, ?_, ?_, ?_, ?_, ?_⟩
  · rw [hcontrol, Control.after_concat, h.control]
  · rw [hlog, forwards_append, h.forwards, hactions, Route.forwards_actions, hroutes,
      routed_concat]
  · rw [hlog, stashes_append, h.stashes, hactions, Route.stashes_actions, hroutes,
      routed_concat]
  · rw [hlog, List.count_append, h.dropped, hactions, Route.count_actions, hroutes,
      routed_concat, List.length_append]
    split
    · rfl
    · rfl
  · rw [hlog, replies_append, h.replies, hactions, Route.replies_actions, hroutes,
      routed_concat, List.length_append]
    split
    · exact List.replicate_succ'.symm
    · exact List.append_nil _
  · have hopens : s.control.route data = .request ↔
        OpensRequest (overwrite s.tunnel.clientBuf.bytes 0 data) := by
      rw [Control.route]
      split_ifs with hopens
      · exact iff_of_true rfl hopens
      · exact iff_of_false (by decide) hopens
      · exact iff_of_false (by decide) hopens
      · exact iff_of_false (by decide) hopens
    rw [hlog, connects_append, h.connects, hactions, Route.connects_actions,
      clientReads_append, hreads, clientBuffers_append, List.filter_append, List.map_append,
      ← h.base_eq]
    refine congrArg (_ ++ ·) ?_
    by_cases hbase : OpensRequest (overwrite s.tunnel.clientBuf.bytes 0 data)
    · rw [if_pos (hopens.mpr hbase)]
      simp [clientBuffers, hbase]
    · rw [if_neg (mt hopens.mp hbase)]
      simp [clientBuffers, hbase]
  · have hfinished : finished actions = [] := by
      rw [hactions]
      exact Route.finished_actions _ _ _
    rw [hlog, connects_append, finished_append, hfinished, List.append_nil, hconnecting,
      ← List.append_assoc]
    exact h.settled.append_right _
  · rw [hoffset, h.stashed, hlog, stashes_append, List.flatten_append, List.length_append,
      Nat.add_assoc]
  · have hrelays : Socks.relays actions = [] := by
      rw [hactions]
      exact Route.relays_actions _ _ _
    rw [hlog, relays_append, hrelays, List.append_nil, hserver]
    exact h.relays

/-- An event that is no read of the client. -/
theorem other (h : Accounted memory history s) {event : Event gap}
    (hclient : clientReads [event] = []) (hcontrol : t.control = s.control.next event)
    (added : List Action) (hlog : t.log = s.log ++ added)
    (hadded : ∀ action ∈ added, action.IsOther)
    (hsettled : (finished s.log ++ s.connecting).Perm (finished t.log ++ t.connecting))
    (hoffset : t.tunnel.serverBufOffset = s.tunnel.serverBufOffset)
    (hrelays : List.Forall₂ Answers (serverReads [event]) (Socks.relays added)) :
    Accounted memory (history ++ [event]) t := by
  obtain ⟨hforwards, hstashes, hdropped, hreplies, hconnects⟩ := other_log hadded
  have hroutes : (initial memory).routes (history ++ [event]) =
      (initial memory).routes history := by
    rw [Control.routes_concat, hclient, List.map_nil, List.append_nil]
  refine ⟨?_, ?_, ?_, ?_, ?_, ?_, ?_, ?_, ?_⟩
  · rw [hcontrol, Control.after_concat, h.control]
  · rw [hlog, forwards_append, hforwards, List.append_nil, hroutes, h.forwards]
  · rw [hlog, stashes_append, hstashes, List.append_nil, hroutes, h.stashes]
  · rw [hlog, List.count_append, hdropped, Nat.add_zero, hroutes, h.dropped]
  · rw [hlog, replies_append, hreplies, List.append_nil, hroutes, h.replies]
  · rw [hlog, connects_append, hconnects, List.append_nil, clientReads_append, hclient,
      List.append_nil, h.connects]
  · have hsame : Socks.connects t.log = Socks.connects s.log := by
      rw [hlog, connects_append, hconnects, List.append_nil]
    rw [hsame]
    exact h.settled.trans hsettled
  · rw [hoffset, h.stashed, hlog, stashes_append, hstashes, List.append_nil]
  · rw [hlog, relays_append, serverReads_append]
    exact List.rel_append h.relays hrelays

/-- **The step.** -/
theorem step (h : Accounted memory history s) (hlive : s.freed = false) {event : Event gap}
    (henabled : s.Enabled event) (hstep : s.step event = .ok t) (hafter : t.freed = false) :
    Accounted memory (history ++ [event]) t := by
  cases event with
  | clientData data => exact h.clientData hlive hstep
  | clientEnd nread =>
      rw [step_clientEnd hlive] at hstep
      cases hstep
      exact h.other rfl rfl [] (List.append_nil _).symm (List.forall_mem_nil _) (List.Perm.refl _)
        rfl .nil
  | connectDone dest status =>
      have hstatus : ¬status < 0 := by
        intro hfails
        rw [step_connectFailed hlive dest hfails] at hstep
        cases hstep
        cases hafter
      rw [step_connected hlive dest hstatus] at hstep
      cases hstep
      refine h.other rfl ?_ [.connectDone dest status, .readStart .server]
        (List.append_assoc _ _ _) ?_ ?_ rfl .nil
      · rw [Control.next, if_neg hstatus]
        rfl
      · simp [Action.IsOther]
      · -- the connect moves from those under way to those that are done
        have hfinished : finished (s.log ++ [.connectDone dest status] ++
            [.readStart .server]) = finished s.log ++ [dest] := by
          simp [finished]
        rw [hfinished, List.append_assoc]
        exact (List.perm_cons_erase henabled).append_left _
  | serverData data behind =>
      obtain ⟨-, serverBuf, stale, hlen, rfl⟩ := serverData_eq_ok hlive hstep
      refine h.other rfl rfl [.relay (data ++ stale ++ behind.bytes)] rfl ?_ ?_ rfl ?_
      · simp [Action.IsOther]
      · simp [record, finished]
      · refine List.Forall₂.cons ⟨⟨stale, rfl⟩, ?_⟩ .nil
        rw [List.length_append, List.length_append, behind.length_eq]
        exact hlen
  | serverEnd nread =>
      rw [step_serverEnd hlive] at hstep
      cases hstep
      exact h.other rfl rfl [] (List.append_nil _).symm (List.forall_mem_nil _) (List.Perm.refl _)
        rfl .nil
  | clientWriteEnd i =>
      rw [step_clientWriteEnd hlive] at hstep
      cases hstep
      exact h.other rfl rfl [] (List.append_nil _).symm (List.forall_mem_nil _) (List.Perm.refl _)
        rfl .nil

end Accounted

/-- A tunnel that exists was not freed before. -/
theorem live_of_step {s t : Session gap} {event : Event gap} (hstep : s.step event = .ok t)
    (hafter : t.freed = false) : s.freed = false := by
  rcases Bool.eq_false_or_eq_true s.freed with hfreed | hlive
  · rw [step_of_freed hfreed] at hstep
    cases hstep
    exact absurd (hfreed.symm.trans hafter) (by decide)
  · exact hlive

/-- **Everything is accounted for**, in every run, as long as the tunnel exists: each read of
the client is taken for a request, forwarded, kept or dropped, as `client_buf` and the state
of the tunnel say at that time, and the record holds each once, unchanged and in order; a
request is answered once and connected once; and each read of the server is one block of
`MAXSIZE` bytes for the client, the last `gap` of which do not belong to the tunnel. -/
theorem accounted_of_reaches {memory : Tunnel gap} {history : List (Event gap)} {s : Session gap}
    (hreaches : Reaches memory history s) (hlive : s.freed = false) :
    Accounted memory history s := by
  induction hreaches with
  | start => exact accounted_accept memory
  | @event history s t event before henabled hstep ih =>
      have hbefore := live_of_step hstep hlive
      exact (ih hbefore).step hbefore henabled hstep hlive

/-- A client that sends one byte too early, and one when it may. -/
def earlyAndLate : List (Event 248) :=
  [.clientData localRequest, .clientData [72], .connectDone localDest 0, .clientData [73],
    .serverData [7] (CharArray.zeros _)]

theorem accounted_of_reaches_earlyAndLate : ∃ s : Session 248,
    Reaches zeroTunnel earlyAndLate s ∧ forwards s.log = [[73]] ∧
      Accounted zeroTunnel earlyAndLate s := by
  have hrun : (runEvents zeroTunnel earlyAndLate).map (fun s => (s.freed, forwards s.log)) =
      some (false, [[73]]) := by decide +kernel
  obtain ⟨s, hreach, hs⟩ := exists_reaches_of_map hrun
  exact ⟨s, hreach, congrArg Prod.snd hs, accounted_of_reaches hreach (congrArg Prod.fst hs)⟩

end Session

end LearnUv.Socks
