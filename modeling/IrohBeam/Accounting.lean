/-
IrohBeam/Accounting.lean

The counters of `native/iroh_beam_nif/src`: the connection and accept limits of
an endpoint (`endpoint.rs`), `ACTIVE_CONNECTIONS` and the datagram flags
(`connection.rs`), `ACTIVE_STREAMS` and `QUEUED_BYTES` (`stream.rs`).

Design.  The state has every endpoint, connection and stream resource ever made
and every NIF call ever started, each with its place in its own code.  A call
goes through the checks of its NIF, takes its guards, is spawned as a future,
may wrap a connection or a stream, and is left on any path by dropping the
guards it still holds.  One action is one atomic operation on a counter or a
flag, so a schedule is an interleaving of all of them, and a close may stop for
as long as it likes between its `swap` and its last decrement.

A counter is right when it equals the total of what each object contributes to
it (`Accounts.Inv`).  Each action changes one object and one counter by the
same amount, which gives

* `accounts_exact` — every counter equals the number of objects it is about,
  stays within its limit, is never decremented below zero, and is zero when
  everything has ended.

The global counters are integers here: a decrement below zero would show as a
negative value.
-/
import IrohBeam.Ledger
import IrohBeam.Run
import Mathlib.Tactic.Linarith

namespace IrohBeam

open Transition Ledger

/-! ### Resources -/

/-- The part of an `EndpointResource` that is counted with; `slot` says that the
mutex still has the endpoint. -/
structure EndpointCell where
  slot : Bool
  pendingAccepts : ℕ
  maxPendingAccepts : ℕ
  activeConnections : ℕ
  maxConnections : ℕ
  deriving DecidableEq, Repr

namespace EndpointCell

def beginAccept (e : EndpointCell) : Option EndpointCell :=
  if e.pendingAccepts < e.maxPendingAccepts then
    some { e with pendingAccepts := e.pendingAccepts + 1 }
  else none

/-- The update with `checked_sub` leaves a zero alone. -/
def finishAccept (e : EndpointCell) : EndpointCell :=
  if 1 ≤ e.pendingAccepts then { e with pendingAccepts := e.pendingAccepts - 1 } else e

def claimConnection (e : EndpointCell) : Option EndpointCell :=
  if e.activeConnections < e.maxConnections then
    some { e with activeConnections := e.activeConnections + 1 }
  else none

def releaseConnection (e : EndpointCell) : EndpointCell :=
  if 1 ≤ e.activeConnections then { e with activeConnections := e.activeConnections - 1 } else e

/-- Both counters are within their limits. -/
def Bounded (e : EndpointCell) : Prop :=
  e.pendingAccepts ≤ e.maxPendingAccepts ∧ e.activeConnections ≤ e.maxConnections

end EndpointCell

/-- How far a connection's `close` has come: not begun; past the `swap` of
`released`; past `release_connection`; past the decrement. -/
inductive ConnectionPhase where
  | unreleased
  | swapped
  | unclaimed
  | released
  deriving DecidableEq, Repr

/-- A `ConnectionResource`. -/
structure ConnectionCell where
  endpoint : ℕ
  phase : ConnectionPhase
  datagramSendBusy : Bool
  datagramRecvBusy : Bool
  deriving DecidableEq, Repr

namespace ConnectionCell

def beginDatagramSend (c : ConnectionCell) : Option ConnectionCell :=
  if c.datagramSendBusy then none else some { c with datagramSendBusy := true }

def finishDatagramSend (c : ConnectionCell) : ConnectionCell := { c with datagramSendBusy := false }

def beginDatagramRecv (c : ConnectionCell) : Option ConnectionCell :=
  if c.datagramRecvBusy then none else some { c with datagramRecvBusy := true }

def finishDatagramRecv (c : ConnectionCell) : ConnectionCell := { c with datagramRecvBusy := false }

/-- The `swap` that `close` begins with; only the first one goes on. -/
def swap (c : ConnectionCell) : ConnectionCell :=
  match c.phase with
  | .unreleased => { c with phase := .swapped }
  | _ => c

end ConnectionCell

/-- How far a stream's `close` has come. -/
inductive StreamPhase where
  | unreleased
  | swapped
  | released
  deriving DecidableEq, Repr

/-- The `swap` of a stream's `close`. -/
def StreamPhase.swap : StreamPhase → StreamPhase
  | .unreleased => .swapped
  | p => p

/-! ### Calls -/

/-- An `AcceptPermit`, or a `DatagramPermit` of either kind. -/
inductive Permit where
  | accept (endpoint : ℕ)
  | datagramSend (connection : ℕ)
  | datagramRecv (connection : ℕ)
  deriving DecidableEq, Repr

/-- The NIFs whose calls are counted: `connection_connect_start`,
`connection_accept_start`, the four that open or accept a stream, the two that
send on one, `datagram_send_start` and `datagram_recv_start`. -/
inductive Nif where
  | connectionConnect (endpoint : ℕ)
  | connectionAccept (endpoint : ℕ)
  | streamOpen (connection : ℕ)
  | streamSend (bytes : ℕ)
  | datagramSend (connection bytes : ℕ)
  | datagramRecv (connection : ℕ)
  deriving DecidableEq, Repr

/-- The length of the data a call queues. -/
def Nif.bytes : Nif → Option ℕ
  | .streamSend bytes | .datagramSend _ bytes => some bytes
  | _ => none

/-- Where a call is.  Up to `spawning` it is in the NIF; from `running` on it is
in the future, at an await point in `running` and in `wrap_connection` or
`wrap_stream` in the next five; in `unwinding` its guards are dropped. -/
inductive Stage where
  | entered
  | checked
  | guarded
  | queueing
  | peaking (current : ℤ)
  | spawning
  | running
  | claimed (endpoint : ℕ)
  | monitoring (connection : ℕ)
  | closing (connection : ℕ)
  | monitoringStream (stream : ℕ)
  | closingStream (stream : ℕ)
  | unwinding
  | ended
  deriving DecidableEq, Repr

/-- A call with the guards it holds: a permit, and a `QueueGuard` with its
number of bytes. -/
structure Call where
  nif : Nif
  permit : Option Permit
  queued : Option ℕ
  stage : Stage
  deriving DecidableEq, Repr

def Call.start (nif : Nif) : Call := ⟨nif, none, none, .entered⟩

/-- All resources and calls, and the global counters. -/
structure Accounts where
  endpoints : List EndpointCell
  connections : List ConnectionCell
  streams : List StreamPhase
  calls : List Call
  activeConnections : ℤ
  activeStreams : ℤ
  queuedBytes : ℤ
  peakQueuedBytes : ℤ
  deriving DecidableEq, Repr

def Accounts.start : Accounts := ⟨[], [], [], [], 0, 0, 0, 0⟩

namespace Accounts

/-- `endpoint()` finds the endpoint in its slot. -/
def endpointOpen (s : Accounts) (e : ℕ) : Bool := (s.endpoints[e]?).elim false EndpointCell.slot

/-- `connection()` finds the connection not released. -/
def connectionOpen (s : Accounts) (c : ℕ) : Bool :=
  (s.connections[c]?).elim false fun conn => conn.phase == .unreleased

/-- The resource a call is given exists. -/
def allows (s : Accounts) : Nif → Bool
  | .connectionConnect e | .connectionAccept e => e < s.endpoints.length
  | .streamOpen c | .datagramSend c _ | .datagramRecv c => c < s.connections.length
  | .streamSend _ => true

def setEndpoint (s : Accounts) (e : ℕ) (cell : EndpointCell) : Accounts :=
  { s with endpoints := s.endpoints.set e cell }

def setConnection (s : Accounts) (c : ℕ) (cell : ConnectionCell) : Accounts :=
  { s with connections := s.connections.set c cell }

def setCall (s : Accounts) (i : ℕ) (call : Call) : Accounts :=
  { s with calls := s.calls.set i call }

/-- The call goes on to `stage` with the guards it has. -/
def goto (s : Accounts) (i : ℕ) (call : Call) (stage : Stage) : Accounts :=
  s.setCall i { call with stage := stage }

/-- The atomic operation that gives out a permit. -/
def beginPermit (s : Accounts) : Permit → Option Accounts
  | .accept e => do
      let cell ← s.endpoints[e]?
      return s.setEndpoint e (← cell.beginAccept)
  | .datagramSend c => do
      let cell ← s.connections[c]?
      return s.setConnection c (← cell.beginDatagramSend)
  | .datagramRecv c => do
      let cell ← s.connections[c]?
      return s.setConnection c (← cell.beginDatagramRecv)

/-- The drop of a permit. -/
def finishPermit (s : Accounts) : Permit → Option Accounts
  | .accept e => (s.endpoints[e]?).map fun cell => s.setEndpoint e cell.finishAccept
  | .datagramSend c => (s.connections[c]?).map fun cell => s.setConnection c cell.finishDatagramSend
  | .datagramRecv c => (s.connections[c]?).map fun cell => s.setConnection c cell.finishDatagramRecv

/-- A call asks for a permit: it goes on to `next` with it, or returns `busy`. -/
def takePermit (s : Accounts) (i : ℕ) (call : Call) (p : Permit) (next : Stage) : Accounts :=
  match s.beginPermit p with
  | some s' => s'.setCall i { call with permit := some p, stage := next }
  | none => s.goto i call .ended

/-- `claim_connection` in `wrap_connection`. -/
def claim (s : Accounts) (i : ℕ) (call : Call) (e : ℕ) : Option Accounts := do
  let cell ← s.endpoints[e]?
  match cell.claimConnection with
  | some cell' => return (s.setEndpoint e cell').goto i call (.claimed e)
  | none => return s.goto i call .unwinding

/-- `wrap_connection` counts the connection it has claimed and makes its
resource. -/
def addConnection (s : Accounts) (e : ℕ) : Accounts :=
  { s with
    activeConnections := s.activeConnections + 1
    connections := s.connections ++ [⟨e, .unreleased, false, false⟩] }

/-- `wrap_stream` counts a stream and makes its resource. -/
def addStream (s : Accounts) : Accounts :=
  { s with activeStreams := s.activeStreams + 1, streams := s.streams ++ [.unreleased] }

/-- The `swap` of a connection's `close`, from wherever it is called. -/
def swapConnection (s : Accounts) (c : ℕ) : Option Accounts :=
  (s.connections[c]?).map fun cell => s.setConnection c cell.swap

/-- The `swap` of a stream's `close`. -/
def swapStream (s : Accounts) (t : ℕ) : Option Accounts :=
  (s.streams[t]?).map fun phase => { s with streams := s.streams.set t phase.swap }

end Accounts

/-- A step of a call. -/
inductive CallAction where
  | fail
  | check
  | take
  | queue
  | peak
  | spawn (ok : Bool)
  | finish
  | wrap
  | count
  | monitor (alive : Bool)
  | leave
  | dropPermit
  | dropQueued
  | exit
  deriving DecidableEq, Repr

/-- One step of call `i`. -/
def callStep (s : Accounts) (i : ℕ) (call : Call) : CallAction → Option Accounts
  -- an argument is refused, or the half of the stream is
  | .fail =>
      match call.stage with
      | .entered | .checked => some (s.goto i call .ended)
      | _ => none
  | .check =>
      match call.stage, call.nif with
      | .entered, .connectionConnect e =>
          some (s.goto i call (if s.endpointOpen e then .spawning else .ended))
      | .entered, .connectionAccept _ => some (s.goto i call .checked)
      | .entered, .streamOpen c =>
          some (s.goto i call (if s.connectionOpen c then .spawning else .ended))
      | .entered, .streamSend _ => some (s.goto i call .queueing)
      | .entered, .datagramSend c _ | .entered, .datagramRecv c =>
          some (s.goto i call (if s.connectionOpen c then .checked else .ended))
      -- `connection_accept_start` looks at the endpoint with the permit in hand
      | .guarded, .connectionAccept e =>
          some (s.goto i call (if s.endpointOpen e then .spawning else .unwinding))
      | _, _ => none
  | .take =>
      match call.stage, call.nif with
      | .checked, .connectionAccept e => some (s.takePermit i call (.accept e) .guarded)
      | .checked, .datagramSend c _ => some (s.takePermit i call (.datagramSend c) .queueing)
      | .checked, .datagramRecv c => some (s.takePermit i call (.datagramRecv c) .spawning)
      | _, _ => none
  | .queue =>
      match call.stage, call.nif.bytes with
      | .queueing, some n =>
          let current := s.queuedBytes + n
          some ({ s with queuedBytes := current }.setCall i
            { call with queued := some n, stage := .peaking current })
      | _, _ => none
  -- the loop of compare-and-swaps takes effect once, as a maximum
  | .peak =>
      match call.stage with
      | .peaking current =>
          some ({ s with peakQueuedBytes := max s.peakQueuedBytes current }.goto i call .spawning)
      | _ => none
  -- without a runtime or a caller the future is dropped at once
  | .spawn ok =>
      match call.stage with
      | .spawning => some (s.goto i call (if ok then .running else .unwinding))
      | _ => none
  -- the future ends with a value or an error, is aborted, or panics
  | .finish =>
      match call.stage with
      | .running => some (s.goto i call .unwinding)
      | _ => none
  | .wrap =>
      match call.stage, call.nif with
      | .running, .connectionConnect e | .running, .connectionAccept e => s.claim i call e
      | .running, .streamOpen _ =>
          some (s.addStream.goto i call (.monitoringStream s.streams.length))
      | _, _ => none
  | .count =>
      match call.stage with
      | .claimed e =>
          some ((s.addConnection e).goto i call (.monitoring s.connections.length))
      | _ => none
  | .monitor alive =>
      match call.stage with
      | .monitoring c =>
          if alive then some (s.goto i call .unwinding)
          else (s.swapConnection c).map fun s' => s'.goto i call (.closing c)
      | .monitoringStream t =>
          if alive then some (s.goto i call .unwinding)
          else (s.swapStream t).map fun s' => s'.goto i call (.closingStream t)
      | _ => none
  -- `close` has returned to `wrap_connection` or `wrap_stream`
  | .leave =>
      match call.stage with
      | .closing c =>
          if (s.connections[c]?).map ConnectionCell.phase = some .released then
            some (s.goto i call .unwinding)
          else none
      | .closingStream t =>
          if s.streams[t]? = some .released then some (s.goto i call .unwinding) else none
      | _ => none
  | .dropPermit =>
      match call.stage, call.permit with
      | .unwinding, some p =>
          (s.finishPermit p).map fun s' => s'.setCall i { call with permit := none }
      | _, _ => none
  | .dropQueued =>
      match call.stage, call.queued with
      | .unwinding, some n =>
          some ({ s with queuedBytes := s.queuedBytes - n }.setCall i { call with queued := none })
      | _, _ => none
  | .exit =>
      match call.stage, call.permit, call.queued with
      | .unwinding, none, none => some (s.goto i call .ended)
      | _, _, _ => none

/-- A step of the whole.  `closeConnection` and `closeStream` are the `swap` of
a `close`, whether a NIF, a monitor, a future or a drop calls it. -/
inductive AccountAction where
  | bind (maxConnections maxPendingAccepts : ℕ)
  | takeEndpoint (e : ℕ)
  | start (nif : Nif)
  | call (i : ℕ) (action : CallAction)
  | closeConnection (c : ℕ)
  | releaseConnection (c : ℕ)
  | uncountConnection (c : ℕ)
  | closeStream (t : ℕ)
  | uncountStream (t : ℕ)
  deriving DecidableEq, Repr

/-- One step. -/
def accountStep (s : Accounts) : AccountAction → Option Accounts
  | .bind maxConnections maxPendingAccepts =>
      some { s with
        endpoints := s.endpoints ++ [⟨true, 0, maxPendingAccepts, 0, maxConnections⟩] }
  | .takeEndpoint e =>
      (s.endpoints[e]?).map fun cell => s.setEndpoint e { cell with slot := false }
  | .start nif =>
      if s.allows nif then some { s with calls := s.calls ++ [.start nif] } else none
  | .call i a =>
      match s.calls[i]? with
      | some call => callStep s i call a
      | none => none
  | .closeConnection c => s.swapConnection c
  | .releaseConnection c =>
      match s.connections[c]? with
      | some ⟨e, .swapped, send, recv⟩ =>
          (s.endpoints[e]?).map fun cell =>
            (s.setEndpoint e cell.releaseConnection).setConnection c ⟨e, .unclaimed, send, recv⟩
      | _ => none
  | .uncountConnection c =>
      match s.connections[c]? with
      | some ⟨e, .unclaimed, send, recv⟩ =>
          some ({ s with activeConnections := s.activeConnections - 1 }.setConnection c
            ⟨e, .released, send, recv⟩)
      | _ => none
  | .closeStream t => s.swapStream t
  | .uncountStream t =>
      match s.streams[t]? with
      | some .swapped =>
          some { s with
            activeStreams := s.activeStreams - 1
            streams := s.streams.set t .released }
      | _ => none

/-! ### What each object contributes -/

/-- The permit is live. -/
def Call.holds (p : Permit) (call : Call) : Bool := call.permit == some p

theorem Call.holds_none {call : Call} (h : call.permit = none) (p : Permit) :
    tally (call.holds p) = 0 := by
  rw [Call.holds, h]
  rfl

theorem Call.holds_some {call : Call} {p : Permit} (h : call.permit = some p) (q : Permit) :
    tally (call.holds q) = if q = p then 1 else 0 := by
  rw [Call.holds, h, tally]
  by_cases hq : q = p
  · rw [hq, beq_self_eq_true, if_pos rfl, if_pos rfl]
  · have hne : (some p == some q) = false := by simpa using Ne.symm hq
    rw [hne, if_neg Bool.false_ne_true, if_neg hq]

/-- The call has claimed a connection for which there is no resource yet. -/
def Call.claims (e : ℕ) (call : Call) : Bool := call.stage == .claimed e

/-- The stages in which a call has no permit: it is yet to ask for one, or over. -/
def Stage.permitless : Stage → Bool
  | .entered | .checked | .ended => true
  | _ => false

/-- The stages in which a call has no `QueueGuard`. -/
def Stage.queueless : Stage → Bool
  | .entered | .checked | .guarded | .queueing | .ended => true
  | _ => false

/-- A call between `claim_connection` and the resource. -/
def Stage.claiming : Stage → Bool
  | .claimed _ => true
  | _ => false

/-- A call can go from one stage to the other with the guards it has. -/
def Stage.leadsTo (stage stage' : Stage) : Bool :=
  !stage.claiming && !stage'.claiming && (!stage'.permitless || stage.permitless) &&
    (!stage'.queueless || stage.queueless)

/-- A call has no guard before it takes one and none when it has ended. -/
structure Call.Tidy (call : Call) : Prop where
  permit : call.stage.permitless = true → call.permit = none
  queued : call.stage.queueless = true → call.queued = none

/-- The bytes of a live `QueueGuard`. -/
def Call.queuedBytes (call : Call) : ℤ := (call.queued.getD 0 : ℕ)

/-- The connection is claimed from endpoint `e` and not yet released to it. -/
def ConnectionCell.claims (e : ℕ) (c : ConnectionCell) : Bool :=
  c.endpoint == e && (c.phase == .unreleased || c.phase == .swapped)

/-- The release of the connection is not finished. -/
def ConnectionCell.counted (c : ConnectionCell) : Bool := c.phase != .released

/-- The release of the stream is not finished. -/
def StreamPhase.counted (p : StreamPhase) : Bool := p != .released

namespace Accounts

/-- The counter, or the flag as a number, that a permit is counted by. -/
def permits (s : Accounts) : Permit → ℕ
  | .accept e => (s.endpoints[e]?).elim 0 EndpointCell.pendingAccepts
  | .datagramSend c => (s.connections[c]?).elim 0 fun c => c.datagramSendBusy.toNat
  | .datagramRecv c => (s.connections[c]?).elim 0 fun c => c.datagramRecvBusy.toNat

/-- An endpoint's `active_connections`. -/
def slots (s : Accounts) (e : ℕ) : ℕ := (s.endpoints[e]?).elim 0 EndpointCell.activeConnections

section Frame

variable {s : Accounts} {c e : ℕ}

theorem permits_setEndpoint {cell cell' : EndpointCell} (h : s.endpoints[e]? = some cell)
    (p : Permit) :
    (s.setEndpoint e cell').permits p =
      if p = .accept e then cell'.pendingAccepts else s.permits p := by
  cases p with
  | accept e' => simpa [permits, setEndpoint] using elim_set (d := 0) h e'
  | datagramSend c => rfl
  | datagramRecv c => rfl

theorem slots_setEndpoint {cell cell' : EndpointCell} (h : s.endpoints[e]? = some cell) (e' : ℕ) :
    (s.setEndpoint e cell').slots e' = if e' = e then cell'.activeConnections else s.slots e' :=
  elim_set h e'

theorem permits_setConnection {cell cell' : ConnectionCell} (h : s.connections[c]? = some cell)
    (p : Permit) :
    (s.setConnection c cell').permits p =
      if p = .datagramSend c then cell'.datagramSendBusy.toNat
      else if p = .datagramRecv c then cell'.datagramRecvBusy.toNat
      else s.permits p := by
  cases p with
  | accept e => rfl
  | datagramSend c' => simpa [permits, setConnection] using elim_set (d := 0) h c'
  | datagramRecv c' => simpa [permits, setConnection] using elim_set (d := 0) h c'

theorem permits_of_get {cell : EndpointCell} (h : s.endpoints[e]? = some cell) :
    s.permits (.accept e) = cell.pendingAccepts := by
  rw [permits, h]
  rfl

theorem slots_of_get {cell : EndpointCell} (h : s.endpoints[e]? = some cell) :
    s.slots e = cell.activeConnections := by
  rw [slots, h]
  rfl

theorem sends_of_get {cell : ConnectionCell} (h : s.connections[c]? = some cell) :
    s.permits (.datagramSend c) = cell.datagramSendBusy.toNat := by
  rw [permits, h]
  rfl

theorem recvs_of_get {cell : ConnectionCell} (h : s.connections[c]? = some cell) :
    s.permits (.datagramRecv c) = cell.datagramRecvBusy.toNat := by
  rw [permits, h]
  rfl

/-- A permit's counter does not see the connection counter of an endpoint. -/
theorem permits_claim {cell cell' : EndpointCell} (hcell : s.endpoints[e]? = some cell)
    (hpending : cell'.pendingAccepts = cell.pendingAccepts) (q : Permit) :
    (s.setEndpoint e cell').permits q = s.permits q := by
  rw [permits_setEndpoint hcell]
  split
  · next hq => rw [hq, permits_of_get hcell, hpending]
  · rfl

/-- Nor does it see how far the release of a connection has come. -/
theorem permits_phase {cell cell' : ConnectionCell} (hcell : s.connections[c]? = some cell)
    (hsend : cell'.datagramSendBusy = cell.datagramSendBusy)
    (hrecv : cell'.datagramRecvBusy = cell.datagramRecvBusy) (q : Permit) :
    (s.setConnection c cell').permits q = s.permits q := by
  rw [permits_setConnection hcell]
  split
  · next hq => rw [hq, sends_of_get hcell, hsend]
  · split
    · next hq => rw [hq, recvs_of_get hcell, hrecv]
    · rfl

/-- The connection counter of an endpoint does not see its pending accepts. -/
theorem slots_pending {cell cell' : EndpointCell} (hcell : s.endpoints[e]? = some cell)
    (hactive : cell'.activeConnections = cell.activeConnections) (e' : ℕ) :
    (s.setEndpoint e cell').slots e' = s.slots e' := by
  rw [slots_setEndpoint hcell]
  split
  · next he => rw [he, slots_of_get hcell, hactive]
  · rfl

end Frame

/-- Every counter equals the total of the contributions to it, endpoints are
within their limits, and calls hold guards only where they can. -/
structure Inv (s : Accounts) : Prop where
  permits : ∀ p, total (fun c => tally (c.holds p)) s.calls = s.permits p
  slots : ∀ e, total (fun c => tally (c.claims e)) s.calls +
    total (fun c => tally (c.claims e)) s.connections = s.slots e
  connections : s.activeConnections = total (fun c => tally c.counted) s.connections
  streams : s.activeStreams = total (fun p => tally p.counted) s.streams
  queued : s.queuedBytes = total Call.queuedBytes s.calls
  bounded : ∀ e ∈ s.endpoints, e.Bounded
  tidy : ∀ call ∈ s.calls, call.Tidy

theorem start_inv : Accounts.start.Inv where
  permits := fun p => by cases p <;> rfl
  slots := fun e => rfl
  connections := rfl
  streams := rfl
  queued := rfl
  bounded := fun e he => by cases he
  tidy := fun call hcall => by cases hcall

namespace Inv

variable {s : Accounts} {i e c t : ℕ} {d : ℤ} {call call' : Call}

/-- The queued bytes move together with the guard that holds them. -/
theorem requeue (h : s.Inv) (hcall : s.calls[i]? = some call) (hpermit : call'.permit = call.permit)
    (hqueued : call'.queuedBytes = call.queuedBytes + d)
    (hclaims : ∀ e, call'.claims e = call.claims e) (htidy : call'.Tidy) :
    Accounts.Inv ({ s with queuedBytes := s.queuedBytes + d }.setCall i call') := by
  refine { h with permits := ?_, slots := ?_, queued := ?_, tidy := forall_set h.tidy htidy }
  · intro q
    show total _ (s.calls.set i call') = _
    rw [total_set_of_eq hcall (by rw [Call.holds, hpermit, Call.holds])]
    exact h.permits q
  · intro e
    show total _ (s.calls.set i call') + _ = _
    rw [total_set_of_eq hcall (by rw [hclaims])]
    exact h.slots e
  · show s.queuedBytes + d = total _ (s.calls.set i call')
    rw [total_set _ hcall, h.queued, hqueued]
    ring

/-- A call that keeps its guards may move anywhere, as long as it does not move
across a claim. -/
theorem setCall (h : s.Inv) (hcall : s.calls[i]? = some call) (hpermit : call'.permit = call.permit)
    (hqueued : call'.queued = call.queued) (hclaims : ∀ e, call'.claims e = call.claims e)
    (htidy : call'.Tidy) : (s.setCall i call').Inv := by
  have hset := h.requeue (d := 0) hcall hpermit
    (by rw [Call.queuedBytes, hqueued, Call.queuedBytes, add_zero]) hclaims htidy
  rwa [add_zero] at hset

/-- The common case: only the stage changes, between stages outside a claim. -/
theorem goto (h : s.Inv) (hcall : s.calls[i]? = some call) {stage : Stage}
    (hfrom : ∀ e, call.stage ≠ .claimed e) (hto : ∀ e, stage ≠ .claimed e)
    (hpermit : stage.permitless = true → call.stage.permitless = true ∨ call.permit = none)
    (hqueued : stage.queueless = true → call.stage.queueless = true ∨ call.queued = none) :
    (s.goto i call stage).Inv := by
  have htidy := h.tidy call (List.mem_of_getElem? hcall)
  refine h.setCall hcall rfl rfl ?_ ⟨?_, ?_⟩
  rotate_left
  · intro hstage
    exact (hpermit hstage).elim htidy.permit id
  · intro hstage
    exact (hqueued hstage).elim htidy.queued id
  intro e
  rw [Call.claims, Call.claims, beq_eq_false_iff_ne.mpr (hto e), beq_eq_false_iff_ne.mpr (hfrom e)]

/-- A call goes on along its code. -/
theorem step (h : s.Inv) (hcall : s.calls[i]? = some call) {stage stage' : Stage}
    (hstage : call.stage = stage) {s' : Accounts} (hstep : some (s.goto i call stage') = some s')
    (hleads : stage.leadsTo stage' = true) : s'.Inv := by
  obtain rfl := Option.some.inj hstep
  subst hstage
  simp only [Stage.leadsTo, Bool.and_eq_true, Bool.or_eq_true, Bool.not_eq_true'] at hleads
  obtain ⟨⟨⟨hfrom, hto⟩, hpermit⟩, hqueued⟩ := hleads
  refine h.goto hcall ?_ ?_ ?_ ?_
  · intro e he
    rw [he] at hfrom
    cases hfrom
  · intro e he
    rw [he] at hto
    cases hto
  · intro hless
    exact .inl (hpermit.resolve_left (by simp [hless]))
  · intro hless
    exact .inl (hqueued.resolve_left (by simp [hless]))

/-- A call begins with no guards. -/
theorem startCall (h : s.Inv) (nif : Nif) :
    Accounts.Inv { s with calls := s.calls ++ [.start nif] } := by
  refine { h with permits := ?_, slots := ?_, queued := ?_, tidy := ?_ }
  · intro p
    show total _ (s.calls ++ [_]) = _
    rw [total_append, total_singleton]
    exact (add_zero _).trans (h.permits p)
  · intro e
    show total _ (s.calls ++ [_]) + _ = _
    rw [total_append, total_singleton]
    exact (congrArg (· + _) (add_zero _)).trans (h.slots e)
  · show s.queuedBytes = total _ (s.calls ++ [_])
    rw [total_append, total_singleton]
    exact h.queued.trans (add_zero _).symm
  · exact forall_append h.tidy ⟨fun _ => rfl, fun _ => rfl⟩

/-- `take_endpoint` moves no counter. -/
theorem slotTaken (h : s.Inv) {cell : EndpointCell} (hcell : s.endpoints[e]? = some cell) :
    (s.setEndpoint e { cell with slot := false }).Inv := by
  refine { h with permits := ?_, slots := ?_, bounded := ?_ }
  · intro p
    rw [permits_claim hcell (by rfl)]
    exact h.permits p
  · intro e'
    rw [slots_pending hcell (by rfl)]
    exact h.slots e'
  · exact forall_set h.bounded (h.bounded cell (List.mem_of_getElem? hcell))

/-- A new endpoint has nothing. -/
theorem bind (h : s.Inv) (maxConnections maxPendingAccepts : ℕ) :
    Accounts.Inv { s with
      endpoints := s.endpoints ++ [⟨true, 0, maxPendingAccepts, 0, maxConnections⟩] } := by
  refine { h with permits := ?_, slots := ?_, bounded := ?_ }
  · intro p
    rw [h.permits p]
    cases p with
    | accept e =>
        apply congrArg Nat.cast
        exact (elim_append (f := EndpointCell.pendingAccepts) (by rfl) e).symm
    | datagramSend c => rfl
    | datagramRecv c => rfl
  · intro e
    rw [h.slots e]
    apply congrArg Nat.cast
    exact (elim_append (f := EndpointCell.activeConnections) (by rfl) e).symm
  · exact forall_append h.bounded ⟨Nat.zero_le _, Nat.zero_le _⟩

end Inv

/-! ### Permits -/

/-- Nothing differs but the counter of permit `p`, which differs by `d`. -/
structure Moves (s s' : Accounts) (p : Permit) (d : ℤ) : Prop where
  permits : ∀ q, (s'.permits q : ℤ) = s.permits q + if q = p then d else 0
  slots : ∀ e, s'.slots e = s.slots e
  claims : ∀ e, total (fun c => tally (c.claims e)) s'.connections =
    total (fun c => tally (c.claims e)) s.connections
  counted : total (fun c => tally c.counted) s'.connections =
    total (fun c => tally c.counted) s.connections
  bounded : (∀ e ∈ s.endpoints, e.Bounded) → ∀ e ∈ s'.endpoints, e.Bounded
  calls : s'.calls = s.calls
  streams : s'.streams = s.streams
  activeConnections : s'.activeConnections = s.activeConnections
  activeStreams : s'.activeStreams = s.activeStreams
  queuedBytes : s'.queuedBytes = s.queuedBytes

variable {s s' : Accounts} {p : Permit} {d : ℤ} {i c e : ℕ}

theorem setEndpoint_moves {cell cell' : EndpointCell} (h : s.endpoints[e]? = some cell)
    (hpending : (cell'.pendingAccepts : ℤ) = cell.pendingAccepts + d)
    (hactive : cell'.activeConnections = cell.activeConnections)
    (hbounded : cell.Bounded → cell'.Bounded) :
    Moves s (s.setEndpoint e cell') (.accept e) d := by
  refine ⟨?_, ?_, fun _ => rfl, rfl, ?_, rfl, rfl, rfl, rfl, rfl⟩
  · intro q
    rw [permits_setEndpoint h]
    split
    · next hq => rw [hq, permits_of_get h, hpending]
    · rw [add_zero]
  · exact slots_pending h hactive
  · intro hall
    exact forall_set hall (hbounded (hall cell (List.mem_of_getElem? h)))

theorem setConnection_moves {cell cell' : ConnectionCell} (h : s.connections[c]? = some cell)
    (hendpoint : cell'.endpoint = cell.endpoint) (hphase : cell'.phase = cell.phase)
    (hsend : (cell'.datagramSendBusy.toNat : ℤ) =
      cell.datagramSendBusy.toNat + if .datagramSend c = p then d else 0)
    (hrecv : (cell'.datagramRecvBusy.toNat : ℤ) =
      cell.datagramRecvBusy.toNat + if .datagramRecv c = p then d else 0)
    (hp : p = .datagramSend c ∨ p = .datagramRecv c) :
    Moves s (s.setConnection c cell') p d := by
  refine ⟨?_, fun _ => rfl, ?_, ?_, id, rfl, rfl, rfl, rfl, rfl⟩
  · intro q
    rw [permits_setConnection h]
    split
    · next hq => rw [hq, sends_of_get h, hsend]
    · next hq =>
        split
        · next hq' => rw [hq', recvs_of_get h, hrecv]
        · next hq' =>
            have hne : q ≠ p := by
              rintro rfl
              exact hp.elim hq hq'
            rw [if_neg hne, add_zero]
  · intro e
    apply total_set_of_eq h
    rw [ConnectionCell.claims, hendpoint, hphase, ConnectionCell.claims]
  · apply total_set_of_eq h
    rw [ConnectionCell.counted, hphase, ConnectionCell.counted]

/-- Giving out a permit counts it. -/
theorem beginPermit_moves (h : s.beginPermit p = some s') : Moves s s' p 1 := by
  cases p with
  | accept e =>
      obtain ⟨cell, hcell, h⟩ := Option.bind_eq_some_iff.mp h
      obtain ⟨cell', hbegin, h⟩ := Option.bind_eq_some_iff.mp h
      obtain rfl := Option.some.inj h
      rw [EndpointCell.beginAccept] at hbegin
      split at hbegin
      · next hlt =>
          obtain rfl := Option.some.inj hbegin
          exact setEndpoint_moves hcell (Nat.cast_succ _) rfl fun hb => ⟨hlt, hb.2⟩
      · cases hbegin
  | datagramSend c =>
      obtain ⟨cell, hcell, h⟩ := Option.bind_eq_some_iff.mp h
      obtain ⟨cell', hbegin, h⟩ := Option.bind_eq_some_iff.mp h
      obtain rfl := Option.some.inj h
      rw [ConnectionCell.beginDatagramSend] at hbegin
      split at hbegin
      · cases hbegin
      · next hidle =>
          obtain rfl := Option.some.inj hbegin
          refine setConnection_moves hcell rfl rfl ?_ ?_ (.inl rfl)
          · simp [hidle]
          · simp
  | datagramRecv c =>
      obtain ⟨cell, hcell, h⟩ := Option.bind_eq_some_iff.mp h
      obtain ⟨cell', hbegin, h⟩ := Option.bind_eq_some_iff.mp h
      obtain rfl := Option.some.inj h
      rw [ConnectionCell.beginDatagramRecv] at hbegin
      split at hbegin
      · cases hbegin
      · next hidle =>
          obtain rfl := Option.some.inj hbegin
          refine setConnection_moves hcell rfl rfl ?_ ?_ (.inr rfl)
          · simp
          · simp [hidle]

theorem busy_of_pos {b : Bool} (h : 0 < b.toNat) : b = true := by
  cases b with
  | true => rfl
  | false => cases h

/-- Dropping a permit that is counted takes it off its counter. -/
theorem finishPermit_moves (h : s.finishPermit p = some s') (hlive : 0 < s.permits p) :
    Moves s s' p (-1) := by
  cases p with
  | accept e =>
      obtain ⟨cell, hcell, rfl⟩ := Option.map_eq_some_iff.mp h
      rw [permits_of_get hcell] at hlive
      rw [EndpointCell.finishAccept, if_pos (Nat.succ_le_of_lt hlive)]
      refine setEndpoint_moves hcell ?_ rfl ?_
      · rw [Nat.cast_sub hlive]
        rfl
      · exact fun hb => ⟨(Nat.sub_le _ _).trans hb.1, hb.2⟩
  | datagramSend c =>
      obtain ⟨cell, hcell, rfl⟩ := Option.map_eq_some_iff.mp h
      rw [sends_of_get hcell] at hlive
      have hbusy : cell.datagramSendBusy = true := busy_of_pos hlive
      refine setConnection_moves hcell rfl rfl ?_ ?_ (.inl rfl)
      · simp [ConnectionCell.finishDatagramSend, hbusy]
      · simp [ConnectionCell.finishDatagramSend]
  | datagramRecv c =>
      obtain ⟨cell, hcell, rfl⟩ := Option.map_eq_some_iff.mp h
      rw [recvs_of_get hcell] at hlive
      have hbusy : cell.datagramRecvBusy = true := busy_of_pos hlive
      refine setConnection_moves hcell rfl rfl ?_ ?_ (.inr rfl)
      · simp [ConnectionCell.finishDatagramRecv]
      · simp [ConnectionCell.finishDatagramRecv, hbusy]

namespace Inv

variable {call call' : Call}

/-- A permit's counter moves together with the call that takes or drops it. -/
theorem repermit (h : s.Inv) (hmoves : Moves s s' p d) (hcall : s.calls[i]? = some call)
    (hholds : ∀ q, tally (call'.holds q) = tally (call.holds q) + if q = p then d else 0)
    (hqueued : call'.queued = call.queued) (hclaims : ∀ e, call'.claims e = call.claims e)
    (htidy : call'.Tidy) : (s'.setCall i call').Inv := by
  refine ⟨?_, ?_, ?_, ?_, ?_, hmoves.bounded h.bounded, ?_⟩
  · intro q
    show total _ (s'.calls.set i call') = (s'.permits q : ℤ)
    rw [hmoves.calls, total_set _ hcall, h.permits q, hmoves.permits q, hholds q]
    ring
  · intro e
    show total _ (s'.calls.set i call') + total _ s'.connections = (s'.slots e : ℤ)
    rw [hmoves.calls, total_set_of_eq hcall (by rw [hclaims]), hmoves.claims, hmoves.slots]
    exact h.slots e
  · show s'.activeConnections = total _ s'.connections
    rw [hmoves.activeConnections, hmoves.counted]
    exact h.connections
  · show s'.activeStreams = total _ s'.streams
    rw [hmoves.activeStreams, hmoves.streams]
    exact h.streams
  · show s'.queuedBytes = total _ (s'.calls.set i call')
    rw [hmoves.calls, hmoves.queuedBytes,
      total_set_of_eq hcall (by rw [Call.queuedBytes, hqueued, Call.queuedBytes])]
    exact h.queued
  · show ∀ call ∈ s'.calls.set i call', call.Tidy
    rw [hmoves.calls]
    exact forall_set h.tidy htidy

/-- A live permit is counted. -/
theorem permit_pos (h : s.Inv) (hcall : s.calls[i]? = some call) (hpermit : call.permit = some p) :
    0 < s.permits p := by
  have hle := le_total (f := fun c : Call => tally (c.holds p)) (fun _ _ => tally_nonneg _)
    (List.mem_of_getElem? hcall)
  rw [h.permits p, Call.holds, hpermit, beq_self_eq_true] at hle
  exact Int.natCast_pos.mp (lt_of_lt_of_le Int.zero_lt_one hle)

theorem takePermit (h : s.Inv) (hcall : s.calls[i]? = some call) (hstage : call.stage = .checked)
    {next : Stage} (hnext : next = .guarded ∨ next = .queueing ∨ next = .spawning) :
    (s.takePermit i call p next).Inv := by
  have htidy := h.tidy call (List.mem_of_getElem? hcall)
  have hpermit : call.permit = none := htidy.permit (by rw [hstage]; rfl)
  have hqueued : call.queued = none := htidy.queued (by rw [hstage]; rfl)
  rw [Accounts.takePermit]
  split
  · -- the permit is given out: its counter and the call move together
    next s' hbegin =>
      refine h.repermit (beginPermit_moves hbegin) hcall ?_ rfl ?_ ⟨?_, fun _ => hqueued⟩
      · intro q
        rw [Call.holds_none hpermit, Call.holds_some rfl, zero_add]
      · intro e
        rw [Call.claims, Call.claims, hstage]
        rcases hnext with rfl | rfl | rfl <;> rfl
      · intro hless
        rcases hnext with rfl | rfl | rfl <;> cases hless
  · -- refused: the call returns `busy` and holds nothing
    refine h.goto hcall ?_ ?_ (fun _ => .inr hpermit) (fun _ => .inr hqueued)
    · intro e he
      rw [hstage] at he
      cases he
    · intro e he
      cases he

theorem dropPermit (h : s.Inv) (hcall : s.calls[i]? = some call) (hpermit : call.permit = some p)
    (hfinish : s.finishPermit p = some s') : (s'.setCall i { call with permit := none }).Inv := by
  have htidy := h.tidy call (List.mem_of_getElem? hcall)
  refine h.repermit (finishPermit_moves hfinish (h.permit_pos hcall hpermit)) hcall ?_ rfl
    (fun _ => rfl) ⟨fun _ => rfl, htidy.queued⟩
  intro q
  rw [Call.holds_none rfl, Call.holds_some hpermit]
  split <;> rfl

/-- A call's `QueueGuard` moves together with the counter. -/
theorem queue (h : s.Inv) (hcall : s.calls[i]? = some call) (hstage : call.stage = .queueing)
    (n : ℕ) :
    ({ s with queuedBytes := s.queuedBytes + n }.setCall i
      { call with queued := some n, stage := .peaking (s.queuedBytes + n) }).Inv := by
  have htidy := h.tidy call (List.mem_of_getElem? hcall)
  -- no call makes a second `QueueGuard`
  have hnone : call.queued = none := htidy.queued (by rw [hstage]; rfl)
  refine h.requeue hcall rfl ?_ ?_ ⟨fun hless => (by cases hless), fun hless => (by cases hless)⟩
  · rw [Call.queuedBytes, Call.queuedBytes, hnone]
    simp
  · intro e
    rw [Call.claims, Call.claims, hstage]
    rfl

theorem dropQueued (h : s.Inv) {n : ℕ} (hcall : s.calls[i]? = some call)
    (hqueued : call.queued = some n) :
    ({ s with queuedBytes := s.queuedBytes - n }.setCall i { call with queued := none }).Inv := by
  have htidy := h.tidy call (List.mem_of_getElem? hcall)
  refine h.requeue hcall rfl ?_ (fun _ => rfl) ⟨htidy.permit, fun _ => rfl⟩
  rw [Call.queuedBytes, Call.queuedBytes, hqueued]
  simp

/-! ### Connections and streams -/

/-- Where a call is does not matter to permits and queued bytes. -/
theorem holds_goto (hcall : s.calls[i]? = some call) (stage : Stage) (q : Permit) :
    total (fun c => tally (c.holds q)) (s.calls.set i { call with stage := stage }) =
      total (fun c => tally (c.holds q)) s.calls :=
  total_set_of_eq hcall rfl

theorem queued_goto (hcall : s.calls[i]? = some call) (stage : Stage) :
    total Call.queuedBytes (s.calls.set i { call with stage := stage }) =
      total Call.queuedBytes s.calls :=
  total_set_of_eq hcall rfl

/-- It matters to claims. -/
theorem claims_goto (hcall : s.calls[i]? = some call) (stage : Stage) (e : ℕ) :
    total (fun c => tally (c.claims e)) (s.calls.set i { call with stage := stage }) =
      total (fun c => tally (c.claims e)) s.calls +
        (tally (stage == .claimed e) - tally (call.stage == .claimed e)) :=
  total_set _ hcall _

/-- The endpoint counts a connection that the call has in hand. -/
theorem claimed (h : s.Inv) (hcall : s.calls[i]? = some call) (hstage : call.stage = .running)
    {cell cell' : EndpointCell} (hcell : s.endpoints[e]? = some cell)
    (hpending : cell'.pendingAccepts = cell.pendingAccepts)
    (hactive : cell'.activeConnections = cell.activeConnections + 1) (hbounded : cell'.Bounded) :
    ((s.setEndpoint e cell').goto i call (.claimed e)).Inv := by
  refine { h with
    permits := ?_, slots := ?_, queued := ?_, bounded := forall_set h.bounded hbounded, tidy := ?_ }
  · intro q
    show total _ (s.calls.set i _) = ((s.setEndpoint e cell').permits q : ℤ)
    rw [holds_goto hcall, permits_claim hcell hpending]
    exact h.permits q
  · intro e'
    show total _ (s.calls.set i _) + total _ s.connections = ((s.setEndpoint e cell').slots e' : ℤ)
    have hbefore := h.slots e'
    rw [claims_goto hcall, slots_setEndpoint hcell, hstage]
    by_cases he : e = e'
    · -- the claim shows in the call before there is a resource for it
      subst he
      rw [slots_of_get hcell] at hbefore
      rw [if_pos rfl, beq_self_eq_true, hactive, Nat.cast_succ]
      show total _ _ + (1 - 0) + _ = _
      linarith
    · have hne : (Stage.claimed e == .claimed e') = false := by simpa using he
      rw [if_neg (Ne.symm he), hne]
      show total _ _ + (0 - 0) + _ = _
      linarith
  · show s.queuedBytes = total _ (s.calls.set i _)
    rw [queued_goto hcall]
    exact h.queued
  · exact forall_set h.tidy ⟨fun hless => (by cases hless), fun hless => (by cases hless)⟩

/-- `claim_connection` counts the connection or refuses it. -/
theorem claim (h : s.Inv) (hcall : s.calls[i]? = some call) (hstage : call.stage = .running)
    (hclaim : s.claim i call e = some s') : s'.Inv := by
  obtain ⟨cell, hcell, hclaim⟩ := Option.bind_eq_some_iff.mp hclaim
  have hbounded := h.bounded cell (List.mem_of_getElem? hcell)
  split at hclaim
  · next cell' hcell' =>
      obtain rfl := Option.some.inj hclaim
      rw [EndpointCell.claimConnection] at hcell'
      split at hcell'
      · next hlt =>
          obtain rfl := Option.some.inj hcell'
          exact h.claimed hcall hstage hcell rfl rfl ⟨hbounded.1, hlt⟩
      · cases hcell'
  · exact h.step hcall hstage hclaim rfl

/-- The claimed connection becomes a resource. -/
theorem addConnection (h : s.Inv) (hcall : s.calls[i]? = some call)
    (hstage : call.stage = .claimed e) :
    ((s.addConnection e).goto i call (.monitoring s.connections.length)).Inv := by
  refine { h with
    permits := ?_, slots := ?_, connections := ?_, queued := ?_, tidy := ?_ }
  · intro q
    show total _ (s.calls.set i _) = ((s.addConnection e).permits q : ℤ)
    rw [holds_goto hcall, h.permits q]
    cases q with
    | accept e' => rfl
    | datagramSend c => exact congrArg Nat.cast (elim_append (by rfl) c).symm
    | datagramRecv c => exact congrArg Nat.cast (elim_append (by rfl) c).symm
  · intro e'
    show total _ (s.calls.set i _) + total _ (s.connections ++ [_]) = (s.slots e' : ℤ)
    have hbefore := h.slots e'
    rw [claims_goto hcall, total_append, total_singleton, hstage, ConnectionCell.claims]
    by_cases he : e = e'
    · -- the claim goes from the call to the new resource, and the slot stays
      subst he
      simp only [beq_self_eq_true, Bool.true_or, Bool.true_and]
      show total _ _ + (0 - 1) + (total _ _ + 1) = _
      linarith
    · have hne : (Stage.claimed e == .claimed e') = false := by simpa using he
      rw [hne, beq_eq_false_iff_ne.mpr he]
      show total _ _ + (0 - 0) + (total _ _ + 0) = _
      linarith
  · show s.activeConnections + 1 = total _ (s.connections ++ [_])
    rw [total_append, total_singleton, h.connections]
    rfl
  · show s.queuedBytes = total _ (s.calls.set i _)
    rw [queued_goto hcall]
    exact h.queued
  · exact forall_set h.tidy ⟨fun hless => (by cases hless), fun hless => (by cases hless)⟩

/-- A connection's release goes on without the endpoint: the global counter
moves with the connection. -/
theorem setConnection (h : s.Inv) {cell : ConnectionCell}
    (hcell : s.connections[c]? = some cell) (cell' : ConnectionCell)
    (hclaims : ∀ e, cell'.claims e = cell.claims e)
    (hsend : cell'.datagramSendBusy = cell.datagramSendBusy)
    (hrecv : cell'.datagramRecvBusy = cell.datagramRecvBusy)
    (hcounted : tally cell'.counted = tally cell.counted + d) :
    Accounts.Inv
      ({ s with activeConnections := s.activeConnections + d }.setConnection c cell') := by
  refine { h with permits := ?_, slots := ?_, connections := ?_ }
  · intro q
    show _ = ((s.setConnection c cell').permits q : ℤ)
    rw [permits_phase hcell hsend hrecv]
    exact h.permits q
  · intro e
    show _ + total _ (s.connections.set c cell') = (s.slots e : ℤ)
    rw [total_set_of_eq hcell (by rw [hclaims])]
    exact h.slots e
  · show s.activeConnections + d = total _ (s.connections.set c cell')
    rw [total_set _ hcell, h.connections, hcounted]
    ring

theorem swapConnection (h : s.Inv) (hswap : s.swapConnection c = some s') : s'.Inv := by
  obtain ⟨cell, hcell, rfl⟩ := Option.map_eq_some_iff.mp hswap
  obtain ⟨e, phase, send, recv⟩ := cell
  cases phase with
  | unreleased =>
      -- swapped still counts: the counters move in the two steps that follow
      have hset := h.setConnection (d := 0) hcell ⟨e, .swapped, send, recv⟩ (fun _ => rfl) rfl rfl
        rfl
      rwa [add_zero] at hset
  | _ =>
      -- a later `close` finds the flag set and returns
      have hset := h.setConnection (d := 0) hcell _ (fun _ => rfl) rfl rfl (add_zero _).symm
      rwa [add_zero] at hset

theorem swapConnection_calls (hswap : s.swapConnection c = some s') : s'.calls = s.calls := by
  obtain ⟨cell, -, rfl⟩ := Option.map_eq_some_iff.mp hswap
  rfl

/-- A claimed connection is counted by its endpoint. -/
theorem slot_pos (h : s.Inv) {cell : ConnectionCell} (hcell : s.connections[c]? = some cell)
    (hclaims : cell.claims e = true) : 0 < s.slots e := by
  have hcalls := total_nonneg (l := s.calls) (f := fun c => tally (c.claims e))
    (fun _ _ => tally_nonneg _)
  have hle := le_total (f := fun c : ConnectionCell => tally (c.claims e))
    (fun _ _ => tally_nonneg _) (List.mem_of_getElem? hcell)
  have hslots := h.slots e
  rw [hclaims] at hle
  have hone : tally true = 1 := rfl
  omega

/-- The endpoint gets the slot of a connection back. -/
theorem unclaimed (h : s.Inv) {send recv : Bool} {cell cell' : EndpointCell}
    (hc : s.connections[c]? = some ⟨e, .swapped, send, recv⟩)
    (hcell : s.endpoints[e]? = some cell) (hpending : cell'.pendingAccepts = cell.pendingAccepts)
    (hactive : cell.activeConnections = cell'.activeConnections + 1) (hbounded : cell'.Bounded) :
    ((s.setEndpoint e cell').setConnection c ⟨e, .unclaimed, send, recv⟩).Inv := by
  refine { h with
    permits := ?_, slots := ?_, connections := ?_, bounded := forall_set h.bounded hbounded }
  · intro q
    have hc' : (s.setEndpoint e cell').connections[c]? = some ⟨e, .swapped, send, recv⟩ := hc
    rw [permits_phase hc' (by rfl) (by rfl), permits_claim hcell hpending]
    exact h.permits q
  · intro e'
    show total _ s.calls + total _ (s.connections.set c _) = ((s.setEndpoint e cell').slots e' : ℤ)
    have hbefore := h.slots e'
    rw [total_set _ hc, slots_setEndpoint hcell, ConnectionCell.claims, ConnectionCell.claims]
    by_cases he : e = e'
    · subst he
      rw [slots_of_get hcell, hactive, Nat.cast_succ] at hbefore
      rw [if_pos rfl, beq_self_eq_true]
      show total _ _ + (total _ _ + (0 - 1)) = _
      linarith
    · rw [if_neg (Ne.symm he), beq_eq_false_iff_ne.mpr he]
      show total _ _ + (total _ _ + (0 - 0)) = _
      linarith
  · show s.activeConnections = total _ (s.connections.set c _)
    rw [total_set_of_eq hc (by rfl)]
    exact h.connections

/-- `release_connection` finds the connection counted. -/
theorem releaseConnection (h : s.Inv) {send recv : Bool} {cell : EndpointCell}
    (hc : s.connections[c]? = some ⟨e, .swapped, send, recv⟩)
    (hcell : s.endpoints[e]? = some cell) :
    ((s.setEndpoint e cell.releaseConnection).setConnection c ⟨e, .unclaimed, send, recv⟩).Inv := by
  have hclaims : ConnectionCell.claims e ⟨e, .swapped, send, recv⟩ = true := by
    simp [ConnectionCell.claims]
  -- so `checked_sub` never meets a zero here
  have hpos : 1 ≤ cell.activeConnections := slots_of_get hcell ▸ h.slot_pos hc hclaims
  have hbounded := h.bounded cell (List.mem_of_getElem? hcell)
  rw [EndpointCell.releaseConnection, if_pos hpos]
  exact h.unclaimed hc hcell rfl (Nat.sub_add_cancel hpos).symm
    ⟨hbounded.1, (Nat.sub_le _ _).trans hbounded.2⟩

/-- The stream counter moves with a stream. -/
theorem setStream (h : s.Inv) {t : ℕ} {phase : StreamPhase} (hphase : s.streams[t]? = some phase)
    (phase' : StreamPhase) (hcounted : tally phase'.counted = tally phase.counted + d) :
    Accounts.Inv { s with
      activeStreams := s.activeStreams + d
      streams := s.streams.set t phase' } := by
  refine { h with streams := ?_ }
  show s.activeStreams + d = total _ (s.streams.set t phase')
  rw [total_set _ hphase, h.streams, hcounted]
  ring

theorem swapStream (h : s.Inv) {t : ℕ} (hswap : s.swapStream t = some s') : s'.Inv := by
  obtain ⟨phase, hphase, rfl⟩ := Option.map_eq_some_iff.mp hswap
  have hset := h.setStream (d := 0) hphase phase.swap (by cases phase <;> rfl)
  rwa [add_zero] at hset

theorem swapStream_calls {t : ℕ} (hswap : s.swapStream t = some s') : s'.calls = s.calls := by
  obtain ⟨phase, -, rfl⟩ := Option.map_eq_some_iff.mp hswap
  rfl

theorem addStream (h : s.Inv) : s.addStream.Inv := by
  refine { h with streams := ?_ }
  show s.activeStreams + 1 = total _ (s.streams ++ [_])
  rw [total_append, total_singleton, h.streams]
  rfl

end Inv

end Accounts

/-! ### Steps and runs -/

/-- Every step of a call keeps the accounts. -/
theorem callStep_inv {s s' : Accounts} {i : ℕ} {call : Call} {a : CallAction} (h : s.Inv)
    (hcall : s.calls[i]? = some call) (hstep : callStep s i call a = some s') : s'.Inv := by
  cases a with
  | fail =>
      simp only [callStep] at hstep
      split at hstep
      · next hstage =>
          exact h.step hcall hstage hstep rfl
      · next hstage =>
          exact h.step hcall hstage hstep rfl
      · cases hstep
  | check =>
      simp only [callStep] at hstep
      split at hstep
      · next e hstage _ =>
          exact h.step hcall hstage hstep (by cases s.endpointOpen e <;> rfl)
      · next hstage _ =>
          exact h.step hcall hstage hstep rfl
      · next c hstage _ =>
          exact h.step hcall hstage hstep (by cases s.connectionOpen c <;> rfl)
      · next hstage _ =>
          exact h.step hcall hstage hstep rfl
      · next c _ hstage _ =>
          exact h.step hcall hstage hstep (by cases s.connectionOpen c <;> rfl)
      · next c hstage _ =>
          exact h.step hcall hstage hstep (by cases s.connectionOpen c <;> rfl)
      · next e hstage _ =>
          exact h.step hcall hstage hstep (by cases s.endpointOpen e <;> rfl)
      · cases hstep
  | take =>
      simp only [callStep] at hstep
      split at hstep
      · next hstage _ =>
          obtain rfl := Option.some.inj hstep
          exact h.takePermit hcall hstage (.inl rfl)
      · next hstage _ =>
          obtain rfl := Option.some.inj hstep
          exact h.takePermit hcall hstage (.inr (.inl rfl))
      · next hstage _ =>
          obtain rfl := Option.some.inj hstep
          exact h.takePermit hcall hstage (.inr (.inr rfl))
      · cases hstep
  | queue =>
      simp only [callStep] at hstep
      split at hstep
      · next n hstage hbytes =>
          obtain rfl := Option.some.inj hstep
          exact h.queue hcall hstage n
      · cases hstep
  | peak =>
      simp only [callStep] at hstep
      split at hstep
      · next current hstage =>
          have hpeak : Accounts.Inv
              { s with peakQueuedBytes := max s.peakQueuedBytes current } := { h with }
          exact hpeak.step hcall hstage hstep rfl
      · cases hstep
  | spawn ok =>
      simp only [callStep] at hstep
      split at hstep
      · next hstage =>
          exact h.step hcall hstage hstep (by cases ok <;> rfl)
      · cases hstep
  | finish =>
      simp only [callStep] at hstep
      split at hstep
      · next hstage =>
          exact h.step hcall hstage hstep rfl
      · cases hstep
  | wrap =>
      simp only [callStep] at hstep
      split at hstep
      · next hstage _ => exact h.claim hcall hstage hstep
      · next hstage _ => exact h.claim hcall hstage hstep
      · next hstage _ =>
          exact h.addStream.step hcall hstage hstep rfl
      · cases hstep
  | count =>
      simp only [callStep] at hstep
      split at hstep
      · next e hstage =>
          obtain rfl := Option.some.inj hstep
          exact h.addConnection hcall hstage
      · cases hstep
  | monitor alive =>
      simp only [callStep] at hstep
      split at hstep
      · next c hstage =>
          split at hstep
          · exact h.step hcall hstage hstep rfl
          · -- the owner is gone, so `wrap_connection` closes what it has made
            obtain ⟨t, hswap, rfl⟩ := Option.map_eq_some_iff.mp hstep
            rw [← Accounts.Inv.swapConnection_calls hswap] at hcall
            exact (h.swapConnection hswap).step hcall hstage rfl rfl
      · next st hstage =>
          split at hstep
          · exact h.step hcall hstage hstep rfl
          · obtain ⟨t, hswap, rfl⟩ := Option.map_eq_some_iff.mp hstep
            rw [← Accounts.Inv.swapStream_calls hswap] at hcall
            exact (h.swapStream hswap).step hcall hstage rfl rfl
      · cases hstep
  | leave =>
      simp only [callStep] at hstep
      split at hstep
      · next c hstage =>
          split at hstep
          · exact h.step hcall hstage hstep rfl
          · cases hstep
      · next st hstage =>
          split at hstep
          · exact h.step hcall hstage hstep rfl
          · cases hstep
      · cases hstep
  | dropPermit =>
      simp only [callStep] at hstep
      split at hstep
      · next p _ hpermit =>
          obtain ⟨t, hfinish, rfl⟩ := Option.map_eq_some_iff.mp hstep
          exact h.dropPermit hcall hpermit hfinish
      · cases hstep
  | dropQueued =>
      simp only [callStep] at hstep
      split at hstep
      · next n _ hqueued =>
          obtain rfl := Option.some.inj hstep
          exact h.dropQueued hcall hqueued
      · cases hstep
  | exit =>
      simp only [callStep] at hstep
      split at hstep
      · next hstage hpermit hqueued =>
          obtain rfl := Option.some.inj hstep
          exact h.goto hcall (by simp [hstage]) (by simp) (fun _ => .inr hpermit)
            (fun _ => .inr hqueued)
      · cases hstep

/-- Every step keeps the accounts. -/
theorem accountStep_inv {s s' : Accounts} {a : AccountAction} (h : s.Inv)
    (hstep : accountStep s a = some s') : s'.Inv := by
  cases a with
  | bind maxConnections maxPendingAccepts =>
      obtain rfl := Option.some.inj hstep
      exact h.bind maxConnections maxPendingAccepts
  | takeEndpoint e =>
      obtain ⟨cell, hcell, rfl⟩ := Option.map_eq_some_iff.mp hstep
      exact h.slotTaken hcell
  | start nif =>
      simp only [accountStep] at hstep
      split at hstep
      · obtain rfl := Option.some.inj hstep
        exact h.startCall nif
      · cases hstep
  | call i a =>
      simp only [accountStep] at hstep
      split at hstep
      · next call hcall => exact callStep_inv h hcall hstep
      · cases hstep
  | closeConnection c => exact h.swapConnection hstep
  | releaseConnection c =>
      simp only [accountStep] at hstep
      split at hstep
      · next hc =>
          obtain ⟨cell, hcell, rfl⟩ := Option.map_eq_some_iff.mp hstep
          exact h.releaseConnection hc hcell
      · cases hstep
  | uncountConnection c =>
      simp only [accountStep] at hstep
      split at hstep
      · next hc =>
          obtain rfl := Option.some.inj hstep
          exact h.setConnection hc _ (fun _ => rfl) rfl rfl rfl
      · cases hstep
  | closeStream t => exact h.swapStream hstep
  | uncountStream t =>
      simp only [accountStep] at hstep
      split at hstep
      · next ht =>
          obtain rfl := Option.some.inj hstep
          exact h.setStream ht .released rfl
      · cases hstep

/-! ### What the counters say -/

/-- Whatever is about to be taken off a counter is on it. -/
structure Accounts.Covered (s : Accounts) : Prop where
  accepts : ∀ call ∈ s.calls, ∀ (e : ℕ) (cell : EndpointCell), s.endpoints[e]? = some cell →
    call.permit = some (.accept e) → 1 ≤ cell.pendingAccepts
  slots : ∀ conn ∈ s.connections, ∀ cell : EndpointCell, s.endpoints[conn.endpoint]? = some cell →
    conn.phase = .swapped → 1 ≤ cell.activeConnections
  connections : ∀ conn ∈ s.connections, conn.phase = .unclaimed → 1 ≤ s.activeConnections
  streams : ∀ phase ∈ s.streams, phase = .swapped → 1 ≤ s.activeStreams
  queued : ∀ call ∈ s.calls, ∀ n : ℕ, call.queued = some n → n ≤ s.queuedBytes

/-- Nothing is counted anywhere. -/
structure Accounts.Empty (s : Accounts) : Prop where
  endpoints : ∀ cell ∈ s.endpoints, cell.pendingAccepts = 0 ∧ cell.activeConnections = 0
  flags : ∀ conn ∈ s.connections, conn.datagramSendBusy = false ∧ conn.datagramRecvBusy = false
  connections : s.activeConnections = 0
  streams : s.activeStreams = 0
  queued : s.queuedBytes = 0

/-- Every call has ended and every resource is released. -/
def Accounts.Quiet (s : Accounts) : Prop :=
  (∀ call ∈ s.calls, call.stage = .ended) ∧ (∀ conn ∈ s.connections, conn.phase = .released) ∧
    ∀ phase ∈ s.streams, phase = .released

/-- Every counter equals the number of objects it is about and keeps to its
limit.  A connection is claimed from `claim_connection` to `release_connection`,
in a call and then in its resource; a resource is counted until the last
decrement of its `close`, so that between closes those counted are those whose
`released` flag is not set. -/
structure Accounts.Exact (s : Accounts) : Prop where
  activeConnections : ∀ (e : ℕ) (cell : EndpointCell), s.endpoints[e]? = some cell →
    cell.activeConnections =
      s.calls.countP (Call.claims e) + s.connections.countP (ConnectionCell.claims e) ∧
    cell.activeConnections ≤ cell.maxConnections
  pendingAccepts : ∀ (e : ℕ) (cell : EndpointCell), s.endpoints[e]? = some cell →
    cell.pendingAccepts = s.calls.countP (Call.holds (.accept e)) ∧
    cell.pendingAccepts ≤ cell.maxPendingAccepts
  connections : s.activeConnections = s.connections.countP ConnectionCell.counted
  connectionsBetween : (∀ conn ∈ s.connections, conn.phase = .unreleased ∨ conn.phase = .released) →
    s.activeConnections = s.connections.countP fun conn => conn.phase == .unreleased
  streams : s.activeStreams = s.streams.countP StreamPhase.counted
  streamsBetween : (∀ phase ∈ s.streams, phase = .unreleased ∨ phase = .released) →
    s.activeStreams = s.streams.countP (· == .unreleased)
  queuedBytes : s.queuedBytes = (s.calls.map fun call => call.queued.getD 0).sum
  datagramSend : ∀ (c : ℕ) (conn : ConnectionCell), s.connections[c]? = some conn →
    s.calls.countP (Call.holds (.datagramSend c)) = if conn.datagramSendBusy then 1 else 0
  datagramRecv : ∀ (c : ℕ) (conn : ConnectionCell), s.connections[c]? = some conn →
    s.calls.countP (Call.holds (.datagramRecv c)) = if conn.datagramRecvBusy then 1 else 0
  covered : s.Covered
  empty : s.Quiet → s.Empty

namespace Accounts.Inv

variable {s : Accounts} {c e : ℕ}

theorem permits_count (h : s.Inv) (p : Permit) : s.calls.countP (Call.holds p) = s.permits p := by
  have hp := h.permits p
  rw [total_tally] at hp
  exact Int.natCast_inj.mp hp

theorem slots_count (h : s.Inv) (e : ℕ) :
    s.calls.countP (Call.claims e) + s.connections.countP (ConnectionCell.claims e) =
      s.slots e := by
  have he := h.slots e
  rw [total_tally, total_tally, ← Nat.cast_add] at he
  exact Int.natCast_inj.mp he

theorem connections_count (h : s.Inv) :
    s.activeConnections = s.connections.countP ConnectionCell.counted :=
  h.connections.trans (total_tally _ _)

theorem streams_count (h : s.Inv) : s.activeStreams = s.streams.countP StreamPhase.counted :=
  h.streams.trans (total_tally _ _)

theorem queued_sum (h : s.Inv) :
    s.queuedBytes = (s.calls.map fun call => call.queued.getD 0).sum := by
  rw [h.queued]
  induction s.calls with
  | nil => rfl
  | cons call calls ih =>
      rw [total_cons, ih, List.map_cons, List.sum_cons, Nat.cast_add]
      rfl

theorem covered (h : s.Inv) : s.Covered where
  accepts := by
    intro call hcall e cell hcell hpermit
    obtain ⟨i, hi⟩ := List.getElem?_of_mem hcall
    have hpos := h.permit_pos hi hpermit
    rwa [permits_of_get hcell] at hpos
  slots := by
    intro conn hconn cell hcell hphase
    obtain ⟨c, hc⟩ := List.getElem?_of_mem hconn
    have hpos := h.slot_pos hc (e := conn.endpoint) (by simp [ConnectionCell.claims, hphase])
    rwa [slots_of_get hcell] at hpos
  connections := by
    intro conn hconn hphase
    have hpos : 0 < s.connections.countP ConnectionCell.counted :=
      List.countP_pos_iff.mpr ⟨conn, hconn, by simp [ConnectionCell.counted, hphase]⟩
    rw [h.connections_count]
    exact Int.natCast_pos.mpr hpos
  streams := by
    rintro phase hmem rfl
    have hpos : 0 < s.streams.countP StreamPhase.counted :=
      List.countP_pos_iff.mpr ⟨.swapped, hmem, rfl⟩
    rw [h.streams_count]
    exact Int.natCast_pos.mpr hpos
  queued := by
    intro call hcall n hn
    have hle := le_total (f := Call.queuedBytes) (fun _ _ => Int.natCast_nonneg _) hcall
    rw [Call.queuedBytes, hn, ← h.queued] at hle
    exact hle

/-- When all is over there is nothing left to count. -/
theorem empty (h : s.Inv) (hquiet : s.Quiet) : s.Empty := by
  obtain ⟨hcalls, hconns, hstreams⟩ := hquiet
  -- a call that has ended holds no permit, so no permit is counted
  have hpermits : ∀ p, s.permits p = 0 := by
    intro p
    rw [← h.permits_count p, List.countP_eq_zero]
    intro call hcall
    have hnone := (h.tidy call hcall).permit (by rw [hcalls call hcall]; rfl)
    rw [Call.holds, hnone]
    exact Bool.false_ne_true
  have hslots : ∀ e, s.slots e = 0 := by
    intro e
    rw [← h.slots_count e, Nat.add_eq_zero_iff, List.countP_eq_zero, List.countP_eq_zero]
    refine ⟨fun call hcall => ?_, fun conn hconn => ?_⟩
    · simp [Call.claims, hcalls call hcall]
    · simp [ConnectionCell.claims, hconns conn hconn]
  refine ⟨?_, ?_, ?_, ?_, ?_⟩
  · intro cell hcell
    obtain ⟨e, he⟩ := List.getElem?_of_mem hcell
    exact ⟨permits_of_get he ▸ hpermits (.accept e), slots_of_get he ▸ hslots e⟩
  · intro conn hconn
    obtain ⟨c, hc⟩ := List.getElem?_of_mem hconn
    have hsend := sends_of_get hc ▸ hpermits (.datagramSend c)
    have hrecv := recvs_of_get hc ▸ hpermits (.datagramRecv c)
    exact ⟨Bool.toNat_eq_zero.mp hsend, Bool.toNat_eq_zero.mp hrecv⟩
  · rw [h.connections]
    exact total_eq_zero fun conn hconn => by rw [ConnectionCell.counted, hconns conn hconn]; rfl
  · rw [h.streams]
    exact total_eq_zero fun phase hphase => by rw [hstreams phase hphase]; rfl
  · rw [h.queued]
    apply total_eq_zero
    intro call hcall
    rw [Call.queuedBytes, (h.tidy call hcall).queued (by rw [hcalls call hcall]; rfl)]
    rfl

theorem exact (h : s.Inv) : s.Exact where
  activeConnections := by
    intro e cell hcell
    exact ⟨(slots_of_get hcell).symm.trans (h.slots_count e).symm,
      (h.bounded cell (List.mem_of_getElem? hcell)).2⟩
  pendingAccepts := by
    intro e cell hcell
    exact ⟨(permits_of_get hcell).symm.trans (h.permits_count _).symm,
      (h.bounded cell (List.mem_of_getElem? hcell)).1⟩
  connections := h.connections_count
  connectionsBetween := by
    intro hbetween
    rw [h.connections_count, Nat.cast_inj]
    apply List.countP_congr
    intro conn hconn
    rcases hbetween conn hconn with hphase | hphase <;> simp [ConnectionCell.counted, hphase]
  streams := h.streams_count
  streamsBetween := by
    intro hbetween
    rw [h.streams_count, Nat.cast_inj]
    apply List.countP_congr
    intro phase hphase
    rcases hbetween phase hphase with rfl | rfl <;> simp [StreamPhase.counted]
  queuedBytes := h.queued_sum
  datagramSend := by
    intro c conn hc
    rw [h.permits_count, sends_of_get hc]
    cases conn.datagramSendBusy <;> rfl
  datagramRecv := by
    intro c conn hc
    rw [h.permits_count, recvs_of_get hc]
    cases conn.datagramRecvBusy <;> rfl
  covered := h.covered
  empty := h.empty

end Accounts.Inv

/-- **Resource accounting**: in every state that any interleaving reaches, every
counter and flag is exact and within its limit, every decrement finds what it
takes off, and all are zero when everything has ended. -/
theorem accounts_exact (as : List AccountAction) (s : Accounts)
    (hrun : run accountStep .start as = some s) : s.Exact :=
  (run_invariant (fun _ _ _ => accountStep_inv) hrun Accounts.start_inv).exact

/-- An accepted connection whose close has stopped after its `swap`, with a
datagram of five bytes on its way. -/
theorem accounts_exact_sample :
    ∃ s : Accounts,
      run accountStep .start
        [.bind 1 1, .start (.connectionAccept 0), .call 0 .check, .call 0 .take, .call 0 .check,
         .call 0 (.spawn true), .call 0 .wrap, .call 0 .count, .call 0 (.monitor true),
         .call 0 .dropPermit, .call 0 .exit, .start (.datagramSend 0 5), .call 1 .check,
         .call 1 .take, .call 1 .queue, .closeConnection 0] = some s ∧
      s.activeConnections = 1 ∧ s.queuedBytes = 5 ∧ s.Exact := by
  obtain ⟨s, hrun, hactive, hqueued⟩ : ∃ s : Accounts,
      run accountStep .start
        [.bind 1 1, .start (.connectionAccept 0), .call 0 .check, .call 0 .take, .call 0 .check,
         .call 0 (.spawn true), .call 0 .wrap, .call 0 .count, .call 0 (.monitor true),
         .call 0 .dropPermit, .call 0 .exit, .start (.datagramSend 0 5), .call 1 .check,
         .call 1 .take, .call 1 .queue, .closeConnection 0] = some s ∧
      s.activeConnections = 1 ∧ s.queuedBytes = 5 := ⟨_, rfl, rfl, rfl⟩
  exact ⟨s, hrun, hactive, hqueued, accounts_exact _ s hrun⟩

end IrohBeam
