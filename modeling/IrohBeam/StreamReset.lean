/-
IrohBeam/StreamReset.lean

Resetting the send half of a stream and stopping the receive half
(`native/iroh_beam_nif/src/stream.rs`: `take_send`, `start_stream_send`,
`SendLease`, `request_reset`, `stream_finish`, and their counterparts for
the receive half).

The two halves run the same protocol on their own copy of a slot behind a
mutex, a busy flag, a closed flag, an abort code and a `Notify`; a `StreamHalf`
is either, and `HalfKind` says which.  Every atomic operation and every
mutex section is one step, and any number of operations, requests and
finishes interleave.

The handle is moved, never copied: it is in the slot, in the lease of one
operation, or gone.  What a request misses is a handle that is on its way
between the two:

* an operation that ends with the half closed drops its handle as it is,
  although the request has left it to the operation to reset it;
* an operation that has found the half open puts its handle back after the
  request has looked into the slot.

Away from these two orders, and from a finish that comes between, every
request reaches the handle (`request_reaches_handle`).
-/
import IrohBeam.Run
import IrohBeam.Term
import Mathlib.Logic.Function.Basic

namespace IrohBeam

open Transition

/-! ### One half of a stream -/

inductive HalfKind where
  | send | recv
  deriving DecidableEq, Repr

/-- Where the `SendStream` or `RecvStream` is. -/
inductive Place where
  | slot
  | lease (operation : ℕ)
  | gone
  deriving DecidableEq, Repr

/-- What has become of the handle.  `reset` stands for `reset(code)` on a
send stream and `stop(code)` on a receive stream; a finish is `late` if a
request had begun. -/
inductive Fate where
  | live
  | reset (code : ℕ)
  | finished (late : Bool)
  | dropped
  deriving DecidableEq, Repr

/-- The fields of a `StreamResource` that belong to one half, with the
handle.  `requested` records that a request has begun; the code does not
read it. -/
structure StreamHalf where
  place : Place
  fate : Fate
  busy : Bool
  closed : Bool
  code : ℕ
  permit : Bool
  requested : Bool
  deriving DecidableEq, Repr

/-- `NO_ABORT`. -/
def noAbort : ℕ := 2 ^ 64 - 1

/-- `MAX_ABORT_CODE`, the largest value of a `VarInt`. -/
def maxAbortCode : ℕ := 2 ^ 62 - 1

/-- A new stream. -/
def StreamHalf.init : StreamHalf :=
  { place := .slot, fate := .live, busy := false, closed := false, code := noAbort
    permit := false, requested := false }

/-- `stream_error` with the name of the half. -/
def halfError (kind : HalfKind) (operation : OperationName) (category : Category)
    (state : String) : Error :=
  ⟨category, operation, (match kind with | .send => "send half " | .recv => "receive half ") ++ state⟩

/-- The operation of each half. -/
def HalfKind.operation : HalfKind → OperationName
  | .send => .streamSend
  | .recv => .streamRecv

/-! ### Operations -/

/-- Where a send or receive is: what it does next. -/
inductive LeaseStage where
  | idle
  | claim
  | take
  | clearBusy
  | select
  | reset
  | dropBusy
  | loadClosed
  | store
  | discard
  | over (refusal : Option Error)
  deriving DecidableEq, Repr

/-- The steps of a send or receive.  `ended` is any other end of the
`select!`: the write or read is ready, or the task is aborted or never
spawned. -/
inductive LeaseAction where
  | begin | claim | take | clearBusy | ended | notified | reset
  | dropBusy | loadClosed | store | discard
  deriving DecidableEq, Repr

/-- One step of operation `i`. -/
def leaseStep (kind : HalfKind) (h : StreamHalf) (i : ℕ) :
    LeaseAction → LeaseStage → Option (StreamHalf × LeaseStage)
  | .begin, .idle =>
      if h.closed then
        some (h, .over (some (halfError kind kind.operation .closed "is closed")))
      else some (h, .claim)
  | .claim, .claim =>
      if h.busy then some (h, .over (some (halfError kind kind.operation .busy "is busy")))
      else some ({ h with busy := true }, .take)
  | .take, .take =>
      if h.place = .slot then some ({ h with place := .lease i }, .select)
      else some (h, .clearBusy)
  | .clearBusy, .clearBusy =>
      some ({ h with busy := false },
        .over (some (halfError kind kind.operation .closed "is unavailable")))
  | .ended, .select => some (h, .dropBusy)
  | .notified, .select => if h.permit then some ({ h with permit := false }, .reset) else none
  | .reset, .reset =>
      if h.code ≤ maxAbortCode then some ({ h with fate := .reset h.code }, .dropBusy)
      else some (h, .dropBusy)
  -- the drop of the lease
  | .dropBusy, .dropBusy => some ({ h with busy := false }, .loadClosed)
  | .loadClosed, .loadClosed => if h.closed then some (h, .discard) else some (h, .store)
  | .store, .store => some ({ h with place := .slot }, .over none)
  | .discard, .discard =>
      some ({ h with place := .gone, fate := if h.fate = .live then .dropped else h.fate },
        .over none)
  | _, _ => none

/-- Every step of operation `i` on the half `h`. -/
inductive LeaseMove (kind : HalfKind) (h : StreamHalf) (i : ℕ) :
    LeaseAction → LeaseStage → StreamHalf → LeaseStage → Prop
  | refuse : h.closed = true → LeaseMove kind h i .begin .idle h
      (.over (some (halfError kind kind.operation .closed "is closed")))
  | begin : h.closed = false → LeaseMove kind h i .begin .idle h .claim
  | busy : h.busy = true → LeaseMove kind h i .claim .claim h
      (.over (some (halfError kind kind.operation .busy "is busy")))
  | claim : h.busy = false → LeaseMove kind h i .claim .claim { h with busy := true } .take
  | take : h.place = .slot → LeaseMove kind h i .take .take { h with place := .lease i } .select
  | miss : h.place ≠ .slot → LeaseMove kind h i .take .take h .clearBusy
  | clearBusy : LeaseMove kind h i .clearBusy .clearBusy { h with busy := false }
      (.over (some (halfError kind kind.operation .closed "is unavailable")))
  | ended : LeaseMove kind h i .ended .select h .dropBusy
  | notified : h.permit = true →
      LeaseMove kind h i .notified .select { h with permit := false } .reset
  | reset : h.code ≤ maxAbortCode →
      LeaseMove kind h i .reset .reset { h with fate := .reset h.code } .dropBusy
  | noCode : ¬ h.code ≤ maxAbortCode → LeaseMove kind h i .reset .reset h .dropBusy
  | dropBusy : LeaseMove kind h i .dropBusy .dropBusy { h with busy := false } .loadClosed
  | toDiscard : h.closed = true → LeaseMove kind h i .loadClosed .loadClosed h .discard
  | toStore : h.closed = false → LeaseMove kind h i .loadClosed .loadClosed h .store
  | store : LeaseMove kind h i .store .store { h with place := .slot } (.over none)
  | discard : LeaseMove kind h i .discard .discard
      { h with place := .gone, fate := if h.fate = .live then .dropped else h.fate } (.over none)

theorem leaseStep_move {kind : HalfKind} {h : StreamHalf} {i : ℕ} {a : LeaseAction}
    {stage : LeaseStage} {r : StreamHalf × LeaseStage} (hstep : leaseStep kind h i a stage = some r) :
    LeaseMove kind h i a stage r.1 r.2 := by
  unfold leaseStep at hstep
  split at hstep
  · split at hstep
    · next hclosed => exact Option.some.inj hstep ▸ .refuse hclosed
    · next hopen => exact Option.some.inj hstep ▸ .begin (Bool.not_eq_true _ ▸ hopen)
  · split at hstep
    · next hbusy => exact Option.some.inj hstep ▸ .busy hbusy
    · next hfree => exact Option.some.inj hstep ▸ .claim (Bool.not_eq_true _ ▸ hfree)
  · split at hstep
    · next hslot => exact Option.some.inj hstep ▸ .take hslot
    · next hslot => exact Option.some.inj hstep ▸ .miss hslot
  · exact Option.some.inj hstep ▸ .clearBusy
  · exact Option.some.inj hstep ▸ .ended
  · split at hstep
    · next hpermit => exact Option.some.inj hstep ▸ .notified hpermit
    · cases hstep
  · split at hstep
    · next hcode => exact Option.some.inj hstep ▸ .reset hcode
    · next hcode => exact Option.some.inj hstep ▸ .noCode hcode
  · exact Option.some.inj hstep ▸ .dropBusy
  · split at hstep
    · next hclosed => exact Option.some.inj hstep ▸ .toDiscard hclosed
    · next hopen => exact Option.some.inj hstep ▸ .toStore (Bool.not_eq_true _ ▸ hopen)
  · exact Option.some.inj hstep ▸ .store
  · exact Option.some.inj hstep ▸ .discard
  · cases hstep

/-- The operation has the handle. -/
def LeaseStage.Holds : LeaseStage → Prop
  | .select | .reset | .dropBusy | .loadClosed | .store | .discard => True
  | _ => False

/-- The operation has begun and is not over. -/
def LeaseStage.InFlight : LeaseStage → Prop
  | .idle | .over _ => False
  | _ => True

/-! ### Requests and finishes -/

/-- Where a `request_reset` or `request_stop` is. -/
inductive RequestStage where
  | idle
  | storeClosed (code : ℕ)
  | notify (code : ℕ)
  | take (code : ℕ)
  | returned
  deriving DecidableEq, Repr

inductive RequestAction where
  | storeCode (code : ℕ)
  | storeClosed | notify | take
  deriving DecidableEq, Repr

/-- One step of a request.  The codes come from `validate_abort_code` or are
zero. -/
def requestStep (h : StreamHalf) :
    RequestAction → RequestStage → Option (StreamHalf × RequestStage)
  | .storeCode code, .idle =>
      if code ≤ maxAbortCode then some ({ h with code, requested := true }, .storeClosed code)
      else none
  | .storeClosed, .storeClosed code => some ({ h with closed := true }, .notify code)
  | .notify, .notify code => some ({ h with permit := true }, .take code)
  | .take, .take code =>
      if h.place = .slot then
        some ({ h with place := .gone, fate := .reset code }, .returned)
      else some (h, .returned)
  | _, _ => none

/-- Every step of a request. -/
inductive RequestMove (h : StreamHalf) :
    RequestAction → RequestStage → StreamHalf → RequestStage → Prop
  | storeCode {code} : code ≤ maxAbortCode →
      RequestMove h (.storeCode code) .idle { h with code, requested := true } (.storeClosed code)
  | storeClosed {code} :
      RequestMove h .storeClosed (.storeClosed code) { h with closed := true } (.notify code)
  | notify {code} : RequestMove h .notify (.notify code) { h with permit := true } (.take code)
  | take {code} : h.place = .slot →
      RequestMove h .take (.take code) { h with place := .gone, fate := .reset code } .returned
  | miss {code} : h.place ≠ .slot → RequestMove h .take (.take code) h .returned

theorem requestStep_move {h : StreamHalf} {a : RequestAction} {stage : RequestStage}
    {r : StreamHalf × RequestStage} (hstep : requestStep h a stage = some r) :
    RequestMove h a stage r.1 r.2 := by
  unfold requestStep at hstep
  split at hstep
  · split at hstep
    · next hcode => exact Option.some.inj hstep ▸ .storeCode hcode
    · cases hstep
  · exact Option.some.inj hstep ▸ .storeClosed
  · exact Option.some.inj hstep ▸ .notify
  · split at hstep
    · next hslot => exact Option.some.inj hstep ▸ .take hslot
    · next hslot => exact Option.some.inj hstep ▸ .miss hslot
  · cases hstep

/-- Where a `stream_finish` is. -/
inductive FinishStage where
  | idle
  | storeClosed
  | take
  | over (refusal : Option Error)
  deriving DecidableEq, Repr

inductive FinishAction where
  | loadBusy | storeClosed | take
  deriving DecidableEq, Repr

/-- One step of `stream_finish`, on a send half. -/
def finishStep (h : StreamHalf) :
    FinishAction → FinishStage → Option (StreamHalf × FinishStage)
  | .loadBusy, .idle =>
      if h.busy then
        some (h, .over (some (halfError .send .streamFinish .busy "is busy")))
      else some (h, .storeClosed)
  | .storeClosed, .storeClosed => some ({ h with closed := true }, .take)
  | .take, .take =>
      if h.place = .slot then
        some ({ h with place := .gone, fate := .finished h.requested }, .over none)
      else some (h, .over (some (halfError .send .streamFinish .closed "is closed")))
  | _, _ => none

/-- Every step of a finish.  `accepted` is what the handle in the slot says to
being finished; in `finishStep` it never refuses. -/
inductive FinishMove (h : StreamHalf) : FinishAction → Bool → FinishStage → StreamHalf →
    FinishStage → Prop
  | busy {accepted} : h.busy = true → FinishMove h .loadBusy accepted .idle h
      (.over (some (halfError .send .streamFinish .busy "is busy")))
  | free {accepted} : h.busy = false → FinishMove h .loadBusy accepted .idle h .storeClosed
  | close {accepted} : FinishMove h .storeClosed accepted .storeClosed { h with closed := true } .take
  | finished : h.place = .slot → FinishMove h .take true .take
      { h with place := .gone, fate := .finished h.requested } (.over none)
  | rejected : h.place = .slot → FinishMove h .take false .take
      { h with place := .gone, fate := .dropped }
      (.over (some (halfError .send .streamFinish .closed "is closed")))
  | missing {accepted} : h.place ≠ .slot → FinishMove h .take accepted .take h
      (.over (some (halfError .send .streamFinish .closed "is closed")))

theorem finishStep_move {h : StreamHalf} {accepted : Bool} {a : FinishAction} {stage : FinishStage}
    {r : StreamHalf × FinishStage}
    (haccepted : a = .take → stage = .take → h.place = .slot → accepted = true)
    (hstep : finishStep h a stage = some r) : FinishMove h a accepted stage r.1 r.2 := by
  unfold finishStep at hstep
  split at hstep
  · split at hstep
    · next hbusy => exact Option.some.inj hstep ▸ .busy hbusy
    · next hfree => exact Option.some.inj hstep ▸ .free (Bool.not_eq_true _ ▸ hfree)
  · exact Option.some.inj hstep ▸ .close
  · split at hstep
    · next hslot =>
        obtain rfl := haccepted rfl rfl hslot
        exact Option.some.inj hstep ▸ .finished hslot
    · next hslot => exact Option.some.inj hstep ▸ .missing hslot
  · cases hstep

/-! ### The half with everything around it -/

/-- A half with its operations, requests and finishes. -/
structure HalfState where
  half : StreamHalf
  operations : ℕ → LeaseStage
  requests : ℕ → RequestStage
  finishes : ℕ → FinishStage

def HalfState.init : HalfState :=
  { half := StreamHalf.init, operations := fun _ => .idle, requests := fun _ => .idle
    finishes := fun _ => .idle }

inductive HalfAction where
  | operation (i : ℕ) (a : LeaseAction)
  | request (k : ℕ) (a : RequestAction)
  | finish (f : ℕ) (a : FinishAction)
  deriving DecidableEq, Repr

/-- One step of any party.  Only a send half is finished. -/
def halfStep (kind : HalfKind) (s : HalfState) : HalfAction → Option HalfState
  | .operation i a => (leaseStep kind s.half i a (s.operations i)).map fun r =>
      { s with half := r.1, operations := Function.update s.operations i r.2 }
  | .request k a => (requestStep s.half a (s.requests k)).map fun r =>
      { s with half := r.1, requests := Function.update s.requests k r.2 }
  | .finish f a =>
      if kind = .send then
        (finishStep s.half a (s.finishes f)).map fun r =>
          { s with half := r.1, finishes := Function.update s.finishes f r.2 }
      else none

/-! ### The invariant -/

/-- The side condition.  An operation does not come to its closed check with
the half closed and its handle live; a request does not look into the slot
while a handle is on its way back; a finish does not take the handle once a
request has begun. -/
def NoneBetween (s : HalfState) : HalfAction → Prop
  | .operation _ .loadClosed => s.half.closed = true → s.half.fate ≠ .live
  | .request _ .take => ∀ i, s.operations i ≠ .store
  | .finish _ .take => s.half.place = .slot → s.half.requested = false
  | _ => True

/-- The request has closed the half. -/
def RequestStage.Closed : RequestStage → Prop
  | .notify _ | .take _ | .returned => True
  | _ => False

/-- What holds of the handle in the runs that meet the side condition. -/
structure StreamHalf.Inv (h : StreamHalf) : Prop where
  /-- A handle that is gone was reset, or finished before any request. -/
  gone : h.place = .gone → (∃ code, h.fate = .reset code) ∨ h.fate = .finished false
  slot : h.place = .slot → h.fate = .live
  lease : ∀ i, h.place = .lease i → h.fate = .live ∨ ∃ code, h.fate = .reset code ∧ h.closed = true
  permit : h.permit = true → h.requested = true ∧ h.closed = true
  code : h.requested = true → h.code ≤ maxAbortCode

/-- What holds of an operation. -/
structure LeaseStage.Inv (h : StreamHalf) (i : ℕ) (stage : LeaseStage) : Prop where
  holds : stage.Holds ↔ h.place = .lease i
  reset : stage = .reset → h.requested = true ∧ h.closed = true
  store : stage = .store → h.fate = .live
  discard : stage = .discard → h.fate ≠ .live

/-- What holds of a request. -/
structure RequestStage.Inv (h : StreamHalf) (operations : ℕ → LeaseStage)
    (stage : RequestStage) : Prop where
  begun : stage ≠ .idle → h.requested = true
  closed : stage.Closed → h.closed = true
  returned : stage = .returned → h.place ≠ .slot ∧ ∀ i, operations i ≠ .store

structure HalfState.Inv (s : HalfState) : Prop where
  half : s.half.Inv
  operations : ∀ i, (s.operations i).Inv s.half i
  requests : ∀ k, (s.requests k).Inv s.half s.operations

theorem HalfState.inv_init : HalfState.init.Inv where
  half :=
    { gone := fun h => by cases h
      slot := fun _ => rfl
      lease := fun i h => by cases h
      permit := fun h => by cases h
      code := fun h => by cases h }
  operations i :=
    { holds := ⟨fun h => h.elim, fun h => by cases h⟩
      reset := fun h => by cases h
      store := fun h => by cases h
      discard := fun h => by cases h }
  requests k := ⟨fun h => absurd rfl h, fun h => h.elim, fun h => by cases h⟩

/-! ### What a step does to the others -/

section Frame

variable {h h' : StreamHalf} {i : ℕ} {stage : LeaseStage}

/-- An operation does not see a step that leaves its handle, if it has it,
and does not open the half again. -/
theorem LeaseStage.Inv.frame (hstage : stage.Inv h i)
    (hplace : h'.place = .lease i ↔ h.place = .lease i)
    (hfate : h.place = .lease i → h'.fate = h.fate)
    (hclosed : h.closed = true → h'.closed = true)
    (hrequested : h.requested = true → h'.requested = true) : stage.Inv h' i where
  holds := hstage.holds.trans hplace.symm
  reset hreset := by
    obtain ⟨hr, hc⟩ := hstage.reset hreset
    exact ⟨hrequested hr, hclosed hc⟩
  store hstore := by
    have hlease : h.place = .lease i := hstage.holds.mp (by rw [hstore]; trivial)
    rw [hfate hlease]
    exact hstage.store hstore
  discard hdiscard := by
    have hlease : h.place = .lease i := hstage.holds.mp (by rw [hdiscard]; trivial)
    rw [hfate hlease]
    exact hstage.discard hdiscard

/-- A stage of which there is nothing to say but whether it has the handle. -/
theorem LeaseStage.Inv.plain (hholds : stage.Holds ↔ h.place = .lease i)
    (hplain : stage ∉ [.reset, .store, .discard]) : stage.Inv h i where
  holds := hholds
  reset heq := absurd heq fun heq => hplain (by simp [heq])
  store heq := absurd heq fun heq => hplain (by simp [heq])
  discard heq := absurd heq fun heq => hplain (by simp [heq])

/-- Facts of one step of operation `i`. -/
structure LeaseFacts (h h' : StreamHalf) (i : ℕ) (stage stage' : LeaseStage) : Prop where
  half : h'.Inv
  own : stage'.Inv h' i
  closed : h'.closed = h.closed
  requested : h'.requested = h.requested
  place : ∀ j, j ≠ i → (h'.place = .lease j ↔ h.place = .lease j)
  fate : ∀ j, j ≠ i → h.place = .lease j → h'.fate = h.fate
  slot : h'.place = .slot → h.place = .slot ∨ stage = .store
  store : stage' = .store → h.closed = false

/-- The busy flag is not part of the invariant. -/
theorem StreamHalf.Inv.setBusy (hhalf : h.Inv) (busy : Bool) : { h with busy }.Inv :=
  ⟨hhalf.gone, hhalf.slot, hhalf.lease, hhalf.permit, hhalf.code⟩

/-- A step that leaves the handle where and as it is. -/
theorem LeaseFacts.stay (hhalf : h.Inv) (busy : Bool) {stage' : LeaseStage}
    (hstage : stage'.Inv { h with busy } i) (hstore : stage' = .store → h.closed = false) :
    LeaseFacts h { h with busy } i stage stage' where
  half := hhalf.setBusy busy
  own := hstage
  closed := rfl
  requested := rfl
  place _ _ := Iff.rfl
  fate _ _ _ := rfl
  slot hslot := Or.inl hslot
  store := hstore

/-- A step of an operation without the handle. -/
theorem LeaseFacts.without (hhalf : h.Inv) (busy : Bool) {stage' : LeaseStage}
    (hplace : h.place ≠ .lease i) (hnot : ¬ stage'.Holds) :
    LeaseFacts h { h with busy } i stage stage' := by
  have hplain : stage' ∉ [.reset, .store, .discard] := by
    intro hmem
    simp only [List.mem_cons, List.not_mem_nil, or_false] at hmem
    rcases hmem with rfl | rfl | rfl <;> exact hnot trivial
  refine .stay hhalf busy (.plain ⟨fun h => absurd h hnot, fun h => absurd h hplace⟩ hplain) ?_
  rintro rfl
  exact absurd trivial hnot

/-- A step of an operation that keeps the handle as it is. -/
theorem LeaseFacts.keeping (hhalf : h.Inv) (busy : Bool) {stage' : LeaseStage}
    (hplace : h.place = .lease i) (hholds : stage'.Holds)
    (hplain : stage' ∉ [.reset, .store, .discard]) :
    LeaseFacts h { h with busy } i stage stage' := by
  refine .stay hhalf busy (.plain ⟨fun _ => hplace, fun _ => hholds⟩ hplain) ?_
  rintro rfl
  simp at hplain

/-- Operation `i` moves its own handle. -/
theorem LeaseFacts.moved (hhalf : h'.Inv) {stage' : LeaseStage} (hstage : stage'.Inv h' i)
    (hold : h.place = .slot ∨ h.place = .lease i) (hnew : ∀ j, j ≠ i → h'.place ≠ .lease j)
    (hclosed : h'.closed = h.closed) (hrequested : h'.requested = h.requested)
    (hslot : h'.place = .slot → stage = .store) (hstore : stage' ≠ .store) :
    LeaseFacts h h' i stage stage' := by
  have hother : ∀ j, j ≠ i → h.place ≠ .lease j := by
    intro j hj hplace
    rcases hold with hold | hold
    · rw [hold] at hplace
      cases hplace
    · rw [hold] at hplace
      exact hj (Place.lease.inj hplace).symm
  refine ⟨hhalf, hstage, hclosed, hrequested, ?_, ?_, fun h => Or.inr (hslot h), ?_⟩
  · intro j hj
    exact ⟨fun h => absurd h (hnew j hj), fun h => absurd h (hother j hj)⟩
  · intro j hj hplace
    exact absurd hplace (hother j hj)
  · intro h
    exact absurd h hstore

/-- The handle goes from the slot into the lease. -/
theorem LeaseFacts.take (hhalf : h.Inv) (hslot : h.place = .slot) :
    LeaseFacts h { h with place := .lease i } i stage .select := by
  refine .moved ?_ ?_ (Or.inl hslot) ?_ rfl rfl ?_ (by simp)
  · exact
      { hhalf with
        gone := fun h => by cases h
        slot := fun h => by cases h
        lease := fun _ _ => Or.inl (hhalf.slot hslot) }
  · exact .plain ⟨fun _ => rfl, fun _ => trivial⟩ (by simp)
  · intro j hj h
    exact hj (Place.lease.inj h).symm
  · intro h
    cases h

/-- The operation is notified: a request has closed the half. -/
theorem LeaseFacts.notified (hhalf : h.Inv) (hplace : h.place = .lease i)
    (hpermit : h.permit = true) :
    LeaseFacts h { h with permit := false } i stage .reset where
  half := ⟨hhalf.gone, hhalf.slot, hhalf.lease, fun h => (by cases h), hhalf.code⟩
  own := ⟨⟨fun _ => hplace, fun _ => trivial⟩, fun _ => hhalf.permit hpermit, by simp, by simp⟩
  closed := rfl
  requested := rfl
  place _ _ := Iff.rfl
  fate _ _ _ := rfl
  slot hslot := Or.inl hslot
  store h := by cases h

/-- The notified operation resets its handle. -/
theorem LeaseFacts.reset (hhalf : h.Inv) (hplace : h.place = .lease i)
    (hclosed : h.closed = true) :
    LeaseFacts h { h with fate := .reset h.code } i stage .dropBusy := by
  refine .moved ?_ ?_ (Or.inr hplace) ?_ rfl rfl ?_ (by simp)
  · refine ⟨?_, ?_, fun _ _ => Or.inr ⟨h.code, rfl, hclosed⟩, hhalf.permit, hhalf.code⟩
    · exact fun h' => absurd (hplace.symm.trans h') (by simp)
    · exact fun h' => absurd (hplace.symm.trans h') (by simp)
  · exact .plain ⟨fun _ => hplace, fun _ => trivial⟩ (by simp)
  · intro j hj h'
    exact hj (Place.lease.inj (hplace.symm.trans h')).symm
  · intro h'
    exact absurd (hplace.symm.trans h') (by simp)

/-- The handle goes back into the slot. -/
theorem LeaseFacts.putBack (hhalf : h.Inv) (hplace : h.place = .lease i) (hlive : h.fate = .live)
    (refusal : Option Error) :
    LeaseFacts h { h with place := .slot } i .store (.over refusal) := by
  refine .moved ?_ ?_ (Or.inr hplace) ?_ rfl rfl (fun _ => rfl) (by simp)
  · exact
      { hhalf with
        gone := fun h => by cases h
        slot := fun _ => hlive
        lease := fun _ h => by cases h }
  · exact .plain ⟨fun h => h.elim, fun h => by cases h⟩ (by simp)
  · intro j hj h
    cases h

/-- The handle is dropped with the lease, after it was reset. -/
theorem LeaseFacts.discard (hhalf : h.Inv) (hplace : h.place = .lease i) (hlive : h.fate ≠ .live)
    (refusal : Option Error) :
    LeaseFacts h
      { h with place := .gone, fate := if h.fate = .live then .dropped else h.fate } i stage
      (.over refusal) := by
  rw [if_neg hlive]
  refine .moved ?_ ?_ (Or.inr hplace) ?_ rfl rfl (fun h => (by cases h)) (by simp)
  · refine ⟨?_, fun h => (by cases h), fun _ h => (by cases h), hhalf.permit, hhalf.code⟩
    intro _
    rcases hhalf.lease i hplace with h | ⟨code, h, -⟩
    · exact absurd h hlive
    · exact Or.inl ⟨code, h⟩
  · exact .plain ⟨fun h => h.elim, fun h => by cases h⟩ (by simp)
  · intro j hj h
    cases h

end Frame

/-- Every step of an operation has its facts. -/
theorem leaseStep_facts {kind : HalfKind} {h : StreamHalf} {i : ℕ} {a : LeaseAction}
    {stage : LeaseStage} {r : StreamHalf × LeaseStage} (hhalf : h.Inv) (hstage : stage.Inv h i)
    (hG : a = .loadClosed → h.closed = true → h.fate ≠ .live)
    (hstep : leaseStep kind h i a stage = some r) : LeaseFacts h r.1 i stage r.2 := by
  have hnot : ¬ stage.Holds → h.place ≠ .lease i := fun hn hplace => hn (hstage.holds.mpr hplace)
  have hlease : stage.Holds → h.place = .lease i := hstage.holds.mp
  have hmove := leaseStep_move hstep
  generalize r.1 = h', r.2 = stage' at hmove ⊢
  cases hmove with
  | refuse _ => exact .without hhalf _ (hnot id) id
  | begin _ => exact .without hhalf _ (hnot id) id
  | busy _ => exact .without hhalf _ (hnot id) id
  | claim _ => exact .without hhalf true (hnot id) id
  | take hslot => exact .take hhalf hslot
  | miss _ => exact .without hhalf _ (hnot id) id
  | clearBusy => exact .without hhalf false (hnot id) id
  | ended => exact .keeping hhalf _ (hlease trivial) trivial (by simp)
  | notified hpermit => exact .notified hhalf (hlease trivial) hpermit
  | reset _ => exact .reset hhalf (hlease trivial) (hstage.reset rfl).2
  | noCode hcode => exact absurd (hhalf.code (hstage.reset rfl).1) hcode
  | dropBusy => exact .keeping hhalf false (hlease trivial) trivial (by simp)
  | toDiscard hclosed =>
      exact .stay hhalf _ ⟨⟨fun _ => hlease trivial, fun _ => trivial⟩, by simp, by simp,
        fun _ => hG rfl hclosed⟩ (by simp)
  | toStore hopen =>
      -- a handle that has been reset is in a half that is closed
      have hlive : h.fate = .live := by
        rcases hhalf.lease i (hlease trivial) with hlive | ⟨code, -, hclosed⟩
        · exact hlive
        · rw [hopen] at hclosed
          cases hclosed
      exact .stay hhalf _ ⟨⟨fun _ => hlease trivial, fun _ => trivial⟩, by simp, fun _ => hlive,
        by simp⟩ fun _ => hopen
  | store => exact .putBack hhalf (hlease trivial) (hstage.store rfl) none
  | discard => exact .discard hhalf (hlease trivial) (hstage.discard rfl) none

/-- Facts of one step of a request or a finish: no lease is touched, nothing is
put into the slot, and no flag is taken back. -/
structure OutsideFacts (h h' : StreamHalf) : Prop where
  half : h'.Inv
  closed : h.closed = true → h'.closed = true
  requested : h.requested = true → h'.requested = true
  place : ∀ i, h'.place = .lease i ↔ h.place = .lease i
  fate : ∀ i, h.place = .lease i → h'.fate = h.fate
  slot : h'.place = .slot → h.place = .slot

/-- A step from outside that takes the handle from the slot. -/
theorem OutsideFacts.take {h : StreamHalf} (hhalf : h.Inv) (hslot : h.place = .slot) {fate : Fate}
    (hfate : (∃ code, fate = .reset code) ∨ fate = .finished false) :
    OutsideFacts h { h with place := .gone, fate } where
  half :=
    { hhalf with
      gone := fun _ => hfate
      slot := fun h => by cases h
      lease := fun _ h => by cases h }
  closed := id
  requested := id
  place i := ⟨fun h => (by cases h), fun h => absurd (hslot.symm.trans h) (by simp)⟩
  fate i h := absurd (hslot.symm.trans h) (by simp)
  slot h := by cases h

/-- A step from outside that leaves the handle alone. -/
theorem OutsideFacts.flags {h h' : StreamHalf} (hhalf : h'.Inv) (hplace : h'.place = h.place)
    (hfate : h'.fate = h.fate) (hclosed : h.closed = true → h'.closed = true)
    (hrequested : h.requested = true → h'.requested = true) : OutsideFacts h h' where
  half := hhalf
  closed := hclosed
  requested := hrequested
  place _ := by rw [hplace]
  fate _ _ := hfate
  slot h := hplace ▸ h

/-- Closing the half. -/
theorem OutsideFacts.close {h : StreamHalf} (hhalf : h.Inv) :
    OutsideFacts h { h with closed := true } := by
  refine .flags { hhalf with lease := ?_, permit := ?_ } rfl rfl (fun _ => rfl) id
  · intro i hi
    rcases hhalf.lease i hi with hlive | ⟨code, hfate, -⟩
    · exact Or.inl hlive
    · exact Or.inr ⟨code, hfate, rfl⟩
  · intro hpermit
    exact ⟨(hhalf.permit hpermit).1, rfl⟩

theorem requestStep_facts {h : StreamHalf} {operations : ℕ → LeaseStage} {a : RequestAction}
    {stage : RequestStage} {r : StreamHalf × RequestStage} (hhalf : h.Inv)
    (hstage : stage.Inv h operations) (hG : a = .take → ∀ i, operations i ≠ .store)
    (hstep : requestStep h a stage = some r) :
    OutsideFacts h r.1 ∧ r.2.Inv r.1 operations := by
  obtain ⟨h', stage'⟩ := r
  cases requestStep_move hstep with
  | storeCode hcode =>
      refine ⟨.flags { hhalf with permit := ?_, code := fun _ => hcode } rfl rfl id
        (fun _ => rfl), ⟨fun _ => rfl, fun h => h.elim, fun h => by cases h⟩⟩
      intro hpermit
      exact ⟨rfl, (hhalf.permit hpermit).2⟩
  | storeClosed =>
      have hbegun := hstage.begun (by simp)
      exact ⟨.close hhalf, ⟨fun _ => hbegun, fun _ => rfl, fun h => by cases h⟩⟩
  | notify =>
      have hbegun := hstage.begun (by simp)
      have hclosed := hstage.closed trivial
      exact ⟨.flags { hhalf with permit := fun _ => ⟨hbegun, hclosed⟩ } rfl rfl id id,
        ⟨fun _ => hbegun, fun _ => hclosed, fun h => by cases h⟩⟩
  | @take code hslot =>
      have hbegun := hstage.begun (by simp)
      have hclosed := hstage.closed trivial
      exact ⟨.take hhalf hslot (Or.inl ⟨code, rfl⟩),
        ⟨fun _ => hbegun, fun _ => hclosed, fun _ => ⟨by simp, hG rfl⟩⟩⟩
  | miss hslot =>
      have hbegun := hstage.begun (by simp)
      have hclosed := hstage.closed trivial
      exact ⟨.flags hhalf rfl rfl id id,
        ⟨fun _ => hbegun, fun _ => hclosed, fun _ => ⟨hslot, hG rfl⟩⟩⟩

theorem finishStep_facts {h : StreamHalf} {a : FinishAction} {stage : FinishStage}
    {r : StreamHalf × FinishStage} (hhalf : h.Inv)
    (hG : a = .take → h.place = .slot → h.requested = false)
    (hstep : finishStep h a stage = some r) : OutsideFacts h r.1 := by
  obtain ⟨h', stage'⟩ := r
  have hmove : FinishMove h a true stage h' stage' := finishStep_move (fun _ _ _ => rfl) hstep
  cases hmove with
  | busy _ => exact .flags hhalf rfl rfl id id
  | free _ => exact .flags hhalf rfl rfl id id
  | close => exact .close hhalf
  | finished hslot => exact .take hhalf hslot (Or.inr (by rw [hG rfl hslot]))
  | missing _ => exact .flags hhalf rfl rfl id id

/-! ### All parties -/

section System

variable {kind : HalfKind} {s s' : HalfState}

/-- A step from outside keeps what holds of the operations and of the other
requests. -/
theorem HalfState.Inv.outside (hinv : s.Inv) {h : StreamHalf} (hfacts : OutsideFacts s.half h) :
    (∀ i, (s.operations i).Inv h i) ∧ ∀ k, (s.requests k).Inv h s.operations := by
  refine ⟨?_, ?_⟩
  · intro i
    exact (hinv.operations i).frame (hfacts.place i) (hfacts.fate i) hfacts.closed hfacts.requested
  · intro k
    have hk := hinv.requests k
    refine ⟨fun h => hfacts.requested (hk.begun h), fun h => hfacts.closed (hk.closed h), ?_⟩
    intro hreturned
    obtain ⟨hslot, hstore⟩ := hk.returned hreturned
    exact ⟨fun h => hslot (hfacts.slot h), hstore⟩

theorem HalfState.Inv.operation (hinv : s.Inv) {i : ℕ} {a : LeaseAction}
    (hG : NoneBetween s (.operation i a))
    (hstep : halfStep kind s (.operation i a) = some s') : s'.Inv := by
  obtain ⟨r, hr, rfl⟩ := Option.map_eq_some_iff.mp hstep
  have hcheck : a = .loadClosed → s.half.closed = true → s.half.fate ≠ .live := by
    rintro rfl
    exact hG
  have hfacts := leaseStep_facts hinv.half (hinv.operations i) hcheck hr
  refine ⟨hfacts.half, ?_, ?_⟩
  · intro j
    show (Function.update s.operations i r.2 j).Inv r.1 j
    by_cases hj : j = i
    · subst hj
      rw [Function.update_self]
      exact hfacts.own
    · rw [Function.update_of_ne hj]
      apply (hinv.operations j).frame (hfacts.place j hj) (hfacts.fate j hj)
      · intro h
        rw [hfacts.closed, h]
      · intro h
        rw [hfacts.requested, h]
  · intro k
    have hk := hinv.requests k
    refine ⟨fun h => hfacts.requested.trans (hk.begun h), fun h => hfacts.closed.trans (hk.closed h),
      ?_⟩
    intro hreturned
    obtain ⟨hslot, hstore⟩ := hk.returned hreturned
    refine ⟨?_, ?_⟩
    · intro h
      rcases hfacts.slot h with h | h
      · exact hslot h
      · exact hstore i h
    · intro j
      show Function.update s.operations i r.2 j ≠ .store
      by_cases hj : j = i
      · rw [hj, Function.update_self]
        intro h
        -- the half was closed before the request returned
        have hreturned : s.requests k = .returned := hreturned
        have hclosed : s.half.closed = true := hk.closed (by rw [hreturned]; trivial)
        rw [hfacts.store h] at hclosed
        cases hclosed
      · rw [Function.update_of_ne hj]
        exact hstore j

theorem HalfState.Inv.request (hinv : s.Inv) {k : ℕ} {a : RequestAction}
    (hG : NoneBetween s (.request k a)) (hstep : halfStep kind s (.request k a) = some s') :
    s'.Inv := by
  obtain ⟨r, hr, rfl⟩ := Option.map_eq_some_iff.mp hstep
  have htake : a = .take → ∀ i, s.operations i ≠ .store := by
    rintro rfl
    exact hG
  obtain ⟨hfacts, hown⟩ := requestStep_facts hinv.half (hinv.requests k) htake hr
  obtain ⟨hoperations, hrequests⟩ := hinv.outside hfacts
  refine ⟨hfacts.half, hoperations, ?_⟩
  intro k'
  show (Function.update s.requests k r.2 k').Inv r.1 s.operations
  by_cases hk : k' = k
  · rw [hk, Function.update_self]
    exact hown
  · rw [Function.update_of_ne hk]
    exact hrequests k'

theorem HalfState.Inv.finish (hinv : s.Inv) {f : ℕ} {a : FinishAction}
    (hG : NoneBetween s (.finish f a)) (hstep : halfStep kind s (.finish f a) = some s') :
    s'.Inv := by
  simp only [halfStep] at hstep
  split at hstep
  · obtain ⟨r, hr, rfl⟩ := Option.map_eq_some_iff.mp hstep
    have htake : a = .take → s.half.place = .slot → s.half.requested = false := by
      rintro rfl
      exact hG
    have hfacts := finishStep_facts hinv.half htake hr
    obtain ⟨hoperations, hrequests⟩ := hinv.outside hfacts
    exact ⟨hfacts.half, hoperations, hrequests⟩
  · cases hstep

theorem HalfState.Inv.step (hinv : s.Inv) {a : HalfAction} (hG : NoneBetween s a)
    (hstep : halfStep kind s a = some s') : s'.Inv := by
  cases a with
  | operation i a => exact hinv.operation hG hstep
  | request k a => exact hinv.request hG hstep
  | finish f a => exact hinv.finish hG hstep

end System

/-! ### Requests reach the wire -/

/-- A request has returned and no operation on the half is in flight. -/
def HalfState.AtRest (s : HalfState) : Prop :=
  (∃ k, s.requests k = .returned) ∧ (∀ i, ¬ (s.operations i).InFlight) ∧
    ∀ f, s.finishes f = .idle ∨ ∃ refusal, s.finishes f = .over refusal

/-- The handle was reset or stopped, or finished before the first request
began: it was not dropped as it was and is not in the slot. -/
def HalfState.Settled (s : HalfState) : Prop :=
  s.half.place = .gone ∧ ((∃ code, s.half.fate = .reset code) ∨ s.half.fate = .finished false)

/-- **Every request reaches the handle** in the runs in which no operation
ends, no handle goes back and no finish comes between, on either half. -/
theorem request_reaches_handle {kind : HalfKind} {as : List HalfAction} {s : HalfState}
    (hbetween : Meets (halfStep kind) NoneBetween HalfState.init as)
    (h : run (halfStep kind) HalfState.init as = some s) (hrest : s.AtRest) : s.Settled := by
  have hinv : s.Inv := by
    apply run_invariant_of_meets (P := HalfState.Inv) ?_ hbetween h HalfState.inv_init
    intro t a t' ht hG hstep
    exact ht.step hG hstep
  obtain ⟨⟨k, hk⟩, hidle, -⟩ := hrest
  have hgone : s.half.place = .gone := by
    cases hplace : s.half.place with
    | slot => exact absurd hplace ((hinv.requests k).returned hk).1
    | lease i =>
        have hholds := (hinv.operations i).holds.mpr hplace
        have hflight : (s.operations i).InFlight := by
          cases hstage : s.operations i <;> simp_all [LeaseStage.Holds, LeaseStage.InFlight]
        exact absurd hflight (hidle i)
    | gone => rfl
  exact ⟨hgone, hinv.half.gone hgone⟩

/-- Operation 0 takes the handle. -/
def takeHandle : List HalfAction :=
  [.operation 0 .begin, .operation 0 .claim, .operation 0 .take]

/-- Request 0 with code 7, up to its look into the slot. -/
def closeHalf : List HalfAction :=
  [.request 0 (.storeCode 7), .request 0 .storeClosed, .request 0 .notify]

/-- A run that does not name an operation leaves it where it is. -/
theorem operations_of_run {kind : HalfKind} {as : List HalfAction} {s s' : HalfState} {i : ℕ}
    (hnot : ∀ a, HalfAction.operation i a ∉ as) (h : run (halfStep kind) s as = some s') :
    s'.operations i = s.operations i := by
  induction as generalizing s with
  | nil =>
      obtain rfl := Option.some.inj h
      rfl
  | cons a as ih =>
      obtain ⟨t, ht, hrest⟩ := run_cons_eq_some h
      have hstep : t.operations i = s.operations i := by
        cases a with
        | operation j a =>
            obtain ⟨r, -, rfl⟩ := Option.map_eq_some_iff.mp ht
            apply Function.update_of_ne
            rintro rfl
            exact hnot a List.mem_cons_self
        | request k a =>
            obtain ⟨r, -, rfl⟩ := Option.map_eq_some_iff.mp ht
            rfl
        | finish f a =>
            simp only [halfStep] at ht
            split at ht
            · obtain ⟨r, -, rfl⟩ := Option.map_eq_some_iff.mp ht
              rfl
            · cases ht
      rw [ih (fun b hb => hnot b (List.mem_cons_of_mem a hb)) hrest, hstep]

/-- The action is not one of an operation other than 0. -/
def HalfAction.onlyZero : HalfAction → Bool
  | .operation i _ => i == 0
  | _ => true

/-- At rest after a run of operation 0 alone. -/
theorem HalfState.atRest_of {kind : HalfKind} {as : List HalfAction} {s : HalfState}
    (h : run (halfStep kind) HalfState.init as = some s) (honly : as.all HalfAction.onlyZero = true)
    (hrequest : s.requests 0 = .returned) (hover : s.operations 0 = .over none)
    (hfinishes : ∀ f, s.finishes f = .idle) : s.AtRest := by
  refine ⟨⟨0, hrequest⟩, ?_, fun f => Or.inl (hfinishes f)⟩
  intro i
  by_cases hi : i = 0
  · rw [hi, hover]
    exact id
  · have hnot : ∀ a, HalfAction.operation i a ∉ as := by
      intro a ha
      have hzero := List.all_eq_true.mp honly _ ha
      exact hi (by simpa [HalfAction.onlyZero] using hzero)
    rw [operations_of_run hnot h]
    exact id

/-- Operation 0 is notified and resets the handle it has. -/
def notifiedRun : List HalfAction :=
  (takeHandle ++ closeHalf) ++ (.request 0 .take :: ([.operation 0 .notified,
    .operation 0 .reset, .operation 0 .dropBusy] ++ [.operation 0 .loadClosed,
    .operation 0 .discard]))

theorem meets_notifiedRun :
    Meets (halfStep .send) NoneBetween HalfState.init notifiedRun := by
  refine (meets_of_forall (by simp [takeHandle, closeHalf, NoneBetween]) _).append rfl ?_
  refine meets_cons ?_ rfl ?_
  · intro i
    by_cases hi : i = 0
    · subst hi
      decide
    · simp [HalfState.init, hi]
  · refine (meets_of_forall (by simp [NoneBetween]) _).append rfl ?_
    refine meets_cons ?_ rfl (meets_of_forall (by simp [NoneBetween]) _)
    intro _
    decide

theorem request_reaches_notified :
    ∃ s, run (halfStep .send) HalfState.init notifiedRun = some s ∧ s.AtRest ∧ s.Settled := by
  obtain ⟨s, hrun, hrequest, hover, hfinishes⟩ :
      ∃ s, run (halfStep .send) HalfState.init notifiedRun = some s ∧ s.requests 0 = .returned ∧
        s.operations 0 = .over none ∧ ∀ f, s.finishes f = .idle :=
    ⟨_, rfl, rfl, rfl, fun _ => rfl⟩
  have hrest := HalfState.atRest_of hrun (by decide) hrequest hover hfinishes
  exact ⟨s, hrun, hrest, request_reaches_handle meets_notifiedRun hrun hrest⟩

/-- The operation ends as the request arrives, and drops its handle. -/
def endedRun : List HalfAction :=
  takeHandle ++ [.operation 0 .ended] ++ closeHalf ++ [.request 0 .take,
    .operation 0 .dropBusy, .operation 0 .loadClosed, .operation 0 .discard]

/-- The operation has found the half open, and puts its handle back after the
request has looked. -/
def putBackRun : List HalfAction :=
  takeHandle ++ [.operation 0 .ended, .operation 0 .dropBusy, .operation 0 .loadClosed] ++
    closeHalf ++ [.request 0 .take, .operation 0 .store]

theorem request_misses_handle :
    (∃ s, run (halfStep .send) HalfState.init endedRun = some s ∧ s.AtRest ∧
      s.half.fate = .dropped ∧ ¬ s.Settled) ∧
    ∃ s, run (halfStep .recv) HalfState.init putBackRun = some s ∧ s.AtRest ∧
      s.half.place = .slot ∧ ¬ s.Settled := by
  refine ⟨?_, ?_⟩
  · obtain ⟨s, hrun, hrequest, hover, hfinishes, hfate⟩ :
        ∃ s, run (halfStep .send) HalfState.init endedRun = some s ∧ s.requests 0 = .returned ∧
          s.operations 0 = .over none ∧ (∀ f, s.finishes f = .idle) ∧ s.half.fate = .dropped :=
      ⟨_, rfl, rfl, rfl, fun _ => rfl, rfl⟩
    have hrest := HalfState.atRest_of hrun (by decide) hrequest hover hfinishes
    refine ⟨s, hrun, hrest, hfate, ?_⟩
    rintro ⟨-, h⟩
    rw [hfate] at h
    rcases h with ⟨code, h⟩ | h <;> cases h
  · obtain ⟨s, hrun, hrequest, hover, hfinishes, hplace⟩ :
        ∃ s, run (halfStep .recv) HalfState.init putBackRun = some s ∧ s.requests 0 = .returned ∧
          s.operations 0 = .over none ∧ (∀ f, s.finishes f = .idle) ∧ s.half.place = .slot :=
      ⟨_, rfl, rfl, rfl, fun _ => rfl, rfl⟩
    have hrest := HalfState.atRest_of hrun (by decide) hrequest hover hfinishes
    refine ⟨s, hrun, hrest, hplace, ?_⟩
    rintro ⟨h, -⟩
    rw [hplace] at h
    cases h

end IrohBeam
