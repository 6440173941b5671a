/-
IrohBeam/NeverBusy.lean

A stream half, and the accept slot of an endpoint, in the hands of one process
that makes one call after the other (`IrohBeam/SoleUser.lean`).

The guard of a half is its busy flag, which a send or receive takes and a
`stream_finish` looks at.  The guard of an endpoint is `pending_accepts`, which
`connection_accept_start` raises up to `max_pending_accepts`; with a maximum of
one it is a lock like the other.

Nobody competes with such a process, and still it can be told `busy`: after a
timeout the cancelled task has the guard until it has been dropped, and the next
call may come first.  `sole_user_busy_iff` says that this is the only way, and
`busy_after_timeout` is the run, for a half and for an endpoint.
-/
import IrohBeam.SoleUser

namespace IrohBeam

open Transition

/-- A call that takes a step leaves the others where they are. -/
theorem phase_update_of_ne {τ : Type} (phase : τ → CallPhase) {stages : ℕ → τ} {i j : ℕ}
    {stage : τ} (h : j ≠ i) : phase (Function.update stages i stage j) = phase (stages j) := by
  rw [Function.update_of_ne h]

/-! ### A stream half -/

/-- The calls of a process on a half. -/
inductive HalfCall where
  | operation (i : ℕ)
  | request (k : ℕ)
  | finish (f : ℕ)
  deriving DecidableEq, Repr

/-- The future of an operation is made when its handle has been taken. -/
def LeaseStage.phase : LeaseStage → CallPhase
  | .idle => .fresh
  | .claim => .calling false
  | .take | .clearBusy => .calling true
  | .select | .reset | .dropBusy => .running true
  | .loadClosed | .store | .discard => .running false
  | .over refusal => .over refusal

def RequestStage.phase : RequestStage → CallPhase
  | .idle => .fresh
  | .storeClosed _ | .notify _ | .take _ => .calling false
  | .returned => .over none

def FinishStage.phase : FinishStage → CallPhase
  | .idle => .fresh
  | .storeClosed | .take => .calling false
  | .over refusal => .over refusal

def HalfAction.caller : HalfAction → HalfCall
  | .operation i _ => .operation i
  | .request k _ => .request k
  | .finish f _ => .finish f

/-- `take_send` and `take_recv` swap the busy flag, `stream_finish` loads it. -/
def HalfAction.checks : HalfAction → Bool
  | .operation _ .claim | .finish _ .loadBusy => true
  | _ => false

def HalfState.phase (s : HalfState) : HalfCall → CallPhase
  | .operation i => (s.operations i).phase
  | .request k => (s.requests k).phase
  | .finish f => (s.finishes f).phase

def guardedHalf (kind : HalfKind) : Guarded HalfState HalfCall HalfAction :=
  ⟨halfStep kind, HalfAction.caller, HalfAction.checks, HalfState.phase⟩

theorem LeaseStage.phase_claims (stage : LeaseStage) : stage.phase.Claims ↔ stage.Claims := by
  cases stage <;> simp [LeaseStage.phase, CallPhase.Claims, LeaseStage.Claims]

/-- On a half only operations have the flag. -/
theorem HalfState.Leased.busy_iff {s : HalfState} (hs : s.Leased) :
    s.half.busy = true ↔ ∃ c, (s.phase c).Claims := by
  constructor
  · intro hbusy
    obtain ⟨i, hi⟩ := hs.busy.owner hbusy
    exact ⟨.operation i, (LeaseStage.phase_claims _).mpr hi⟩
  · rintro ⟨c, hc⟩
    cases c with
    | operation i => exact hs.busy.set i ((LeaseStage.phase_claims _).mp hc)
    | request k =>
        simp only [HalfState.phase] at hc
        cases hstage : s.requests k <;> rw [hstage] at hc <;>
          first | exact hc.elim | exact absurd hc Bool.false_ne_true
    | finish f =>
        simp only [HalfState.phase] at hc
        cases hstage : s.finishes f <;> rw [hstage] at hc <;>
          first | exact hc.elim | exact absurd hc Bool.false_ne_true

/-- What a request or a finish, with its stage, leaves of the half: the flag, and
the handle of an operation that has it. -/
structure LeavesLeases (h h' : StreamHalf) : Prop where
  busy : h'.busy = h.busy
  place : ∀ i, h'.place = .lease i ↔ h.place = .lease i

theorem LeavesLeases.taken {h h' : StreamHalf} (hslot : h.place = .slot) (hgone : h'.place = .gone)
    (hbusy : h'.busy = h.busy) : LeavesLeases h h' := by
  refine ⟨hbusy, ?_⟩
  intro i
  rw [hslot, hgone]
  exact ⟨fun h => (by cases h), fun h => (by cases h)⟩

theorem RequestMove.phase {h h' : StreamHalf} {a : RequestAction} {stage stage' : RequestStage}
    (hmove : RequestMove h a stage h' stage') :
    LeavesLeases h h' ∧ stage.phase.Next stage'.phase ∧ ¬ stage'.phase.Busy := by
  cases hmove with
  | storeCode _ => exact ⟨⟨rfl, fun _ => Iff.rfl⟩, .begin (by simp [RequestStage.phase]), id⟩
  | take hslot => exact ⟨.taken hslot rfl rfl, .call (by simp [RequestStage.phase]), id⟩
  | storeClosed | notify | miss _ =>
      exact ⟨⟨rfl, fun _ => Iff.rfl⟩, .call (by simp [RequestStage.phase]), id⟩

theorem FinishMove.phase {h h' : StreamHalf} {a : FinishAction} {stage stage' : FinishStage}
    (hmove : FinishMove h a true stage h' stage') :
    LeavesLeases h h' ∧ stage.phase.Next stage'.phase ∧
      (stage'.phase.Busy ↔ a = .loadBusy ∧ h.busy = true) := by
  cases hmove with
  | busy hbusy =>
      exact ⟨⟨rfl, fun _ => Iff.rfl⟩, .begin (by simp [FinishStage.phase]),
        fun _ => ⟨rfl, hbusy⟩, fun _ => rfl⟩
  | free hfree =>
      refine ⟨⟨rfl, fun _ => Iff.rfl⟩, .begin (by simp [FinishStage.phase]), fun h => h.elim, ?_⟩
      rintro ⟨-, hbusy⟩
      rw [hfree] at hbusy
      cases hbusy
  | close =>
      exact ⟨⟨rfl, fun _ => Iff.rfl⟩, .call (by simp [FinishStage.phase]),
        fun h => h.elim, fun h => (by cases h.1)⟩
  | finished hslot =>
      exact ⟨.taken hslot rfl rfl, .call (by simp [FinishStage.phase]),
        fun h => h.elim, fun h => (by cases h.1)⟩
  | missing _ =>
      exact ⟨⟨rfl, fun _ => Iff.rfl⟩, .call (by simp [FinishStage.phase]),
        fun h => (by cases h), fun h => (by cases h.1)⟩

theorem LeaseMove.phase {kind : HalfKind} {h h' : StreamHalf} {i : ℕ} {a : LeaseAction}
    {stage stage' : LeaseStage} (hmove : LeaseMove kind h i a stage h' stage') :
    stage.phase.Next stage'.phase ∧ (stage'.phase.Busy ↔ a = .claim ∧ h.busy = true) := by
  cases hmove with
  | refuse _ => exact ⟨.begin (by simp [LeaseStage.phase]), fun h => (by cases h), fun h => (by cases h.1)⟩
  | begin _ => exact ⟨.begin (by simp [LeaseStage.phase]), fun h => h.elim, fun h => (by cases h.1)⟩
  | busy hbusy => exact ⟨.call (by simp [LeaseStage.phase]), fun _ => ⟨rfl, hbusy⟩, fun _ => rfl⟩
  | claim hfree =>
      refine ⟨.call (by simp [LeaseStage.phase]), fun h => h.elim, ?_⟩
      rintro ⟨-, hbusy⟩
      rw [hfree] at hbusy
      cases hbusy
  | take _ => exact ⟨.call (by simp [LeaseStage.phase]), fun h => h.elim, fun h => (by cases h.1)⟩
  | miss _ => exact ⟨.call (by simp [LeaseStage.phase]), fun h => h.elim, fun h => (by cases h.1)⟩
  | clearBusy =>
      exact ⟨.call (by simp [LeaseStage.phase]), fun h => (by cases h), fun h => (by cases h.1)⟩
  | store => exact ⟨.finish, fun h => h.elim, fun h => (by cases h.1)⟩
  | discard => exact ⟨.finish, fun h => h.elim, fun h => (by cases h.1)⟩
  | dropBusy => exact ⟨.task (fun h => (by cases h)), fun h => h.elim, fun h => (by cases h.1)⟩
  | _ => exact ⟨.task id, fun h => h.elim, fun h => (by cases h.1)⟩

theorem HalfState.Leased.outside {s : HalfState} (hs : s.Leased) {h : StreamHalf}
    (hleaves : LeavesLeases s.half h) (requests : ℕ → RequestStage) (finishes : ℕ → FinishStage) :
    { s with half := h, requests := requests, finishes := finishes }.Leased where
  busy := by
    show Lock.Owned h.busy _
    rw [hleaves.busy]
    exact hs.busy
  holds i := (hs.holds i).trans (hleaves.place i).symm

/-- Every step on a half, with the half it leaves and what becomes of its call. -/
inductive HalfMove (kind : HalfKind) (s : HalfState) : HalfAction → HalfState → Prop
  | operation {i a h stage} : LeaseMove kind s.half i a (s.operations i) h stage →
      HalfMove kind s (.operation i a)
        { s with half := h, operations := Function.update s.operations i stage }
  | request {k a r} : requestStep s.half a (s.requests k) = some r →
      HalfMove kind s (.request k a)
        { s with half := r.1, requests := Function.update s.requests k r.2 }
  | finish {f a r} : finishStep s.half a (s.finishes f) = some r →
      HalfMove kind s (.finish f a)
        { s with half := r.1, finishes := Function.update s.finishes f r.2 }

theorem halfStep_move {kind : HalfKind} {s s' : HalfState} {a : HalfAction}
    (h : halfStep kind s a = some s') : HalfMove kind s a s' := by
  cases a with
  | operation i a =>
      obtain ⟨half, stage, hmove, rfl⟩ := openStep_move h
      exact .operation hmove
  | request k a =>
      obtain ⟨r, hr, rfl⟩ := Option.map_eq_some_iff.mp h
      exact .request hr
  | finish f a =>
      simp only [halfStep] at h
      split at h
      · obtain ⟨r, hr, rfl⟩ := Option.map_eq_some_iff.mp h
        exact .finish hr
      · cases h

section Half

variable {kind : HalfKind} {s s' : HalfState} {a : HalfAction}

theorem HalfMove.leased (hs : s.Leased) (h : HalfMove kind s a s') : s'.Leased := by
  cases h with
  | operation hmove => exact hs.operation hmove
  | request hr => exact hs.outside (requestStep_move hr).phase.1 _ _
  | finish hr => exact hs.outside (finishStep_move (fun _ _ _ => rfl) hr).phase.1 _ _

/-- A step is seen by its own call only. -/
theorem HalfMove.others (h : HalfMove kind s a s') {c : HalfCall} (hc : c ≠ a.caller) :
    s'.phase c = s.phase c := by
  cases h with
  | operation _ =>
      cases c with
      | operation j => exact phase_update_of_ne LeaseStage.phase fun he => hc (congrArg _ he)
      | _ => rfl
  | request _ =>
      cases c with
      | request j => exact phase_update_of_ne RequestStage.phase fun he => hc (congrArg _ he)
      | _ => rfl
  | finish _ =>
      cases c with
      | finish j => exact phase_update_of_ne FinishStage.phase fun he => hc (congrArg _ he)
      | _ => rfl

theorem HalfMove.next (h : HalfMove kind s a s') :
    (s.phase a.caller).Next (s'.phase a.caller) := by
  cases h with
  | operation hmove =>
      simp only [HalfAction.caller, HalfState.phase, Function.update_self]
      exact hmove.phase.1
  | request hr =>
      simp only [HalfAction.caller, HalfState.phase, Function.update_self]
      exact (requestStep_move hr).phase.2.1
  | finish hr =>
      simp only [HalfAction.caller, HalfState.phase, Function.update_self]
      exact (finishStep_move (fun _ _ _ => rfl) hr).phase.2.1

/-- The flag is looked at first. -/
theorem HalfMove.early (h : HalfMove kind s a s') (hchecks : a.checks = true) :
    s.phase a.caller = .fresh ∨ s.phase a.caller = .calling false := by
  cases h with
  | @operation i a half stage hmove =>
      generalize hold : s.operations i = old at hmove
      right
      show (s.operations i).phase = _
      rw [hold]
      cases hmove <;> first | rfl | cases hchecks
  | request hr => cases hchecks
  | @finish f a r hr =>
      left
      show (s.finishes f).phase = _
      cases a with
      | loadBusy => cases hold : s.finishes f <;> rw [hold] at hr <;> first | rfl | cases hr
      | _ => cases hchecks

theorem HalfMove.busy_iff (h : HalfMove kind s a s') :
    (s'.phase a.caller).Busy ↔ a.checks = true ∧ s.half.busy = true := by
  cases h with
  | @operation i a half stage hmove =>
      simp only [HalfAction.caller, HalfState.phase, Function.update_self, hmove.phase.2]
      exact and_congr_left fun _ => by cases a <;> simp [HalfAction.checks]
  | request hr =>
      simp only [HalfAction.caller, HalfState.phase, Function.update_self]
      exact ⟨fun h => absurd h (requestStep_move hr).phase.2.2, fun h => (by cases h.1)⟩
  | @finish f a r hr =>
      have hbusy := (finishStep_move (fun _ _ _ => rfl) hr).phase.2.2
      simp only [HalfAction.caller, HalfState.phase, Function.update_self, hbusy]
      exact and_congr_left fun _ => by cases a <;> simp [HalfAction.checks]

end Half

/-- The calls on a half keep to the rules of `SoleUser`. -/
theorem guardedHalf_lawful (kind : HalfKind) : (guardedHalf kind).Lawful HalfState.Leased where
  keeps hs h := (halfStep_move h).leased hs
  others h _ hc := (halfStep_move h).others hc
  next _ h := (halfStep_move h).next
  early h hchecks := (halfStep_move h).early hchecks
  busy hs h := (halfStep_move h).busy_iff.trans (and_congr_right fun _ => hs.busy_iff)

/-! ### The accept slot of an endpoint -/

/-- Where a `connection_accept_start` is, and then its future: what it does next.
`release` is the drop of the permit, in the native function if the endpoint is
`closed`, else with the future. -/
inductive AcceptStage where
  | idle
  | claim
  | load
  | accepting
  | release (closed : Bool)
  | over (refusal : Option Error)
  deriving DecidableEq, Repr

/-- The fields of an `EndpointResource` an accept uses, and the calls on it. -/
structure AcceptState where
  pending : ℕ
  bound : Bool
  accepts : ℕ → AcceptStage
  closes : ℕ → Bool

def AcceptState.init : AcceptState :=
  { pending := 0, bound := true, accepts := fun _ => .idle, closes := fun _ => false }

/-- The steps of an accept.  `parse` decodes the allowlist; `ended` is any end of
the future, aborted or never spawned. -/
inductive AcceptAction where
  | parse (valid : Bool)
  | claim | load | ended | release
  deriving DecidableEq, Repr

def acceptError (category : Category) (message : String) : Error :=
  ⟨category, .connectionAccept, message⟩

/-- One step of an accept on an endpoint with `max` as its `max_pending_accepts`. -/
def acceptStep (max : ℕ) (pending : ℕ) (bound : Bool) :
    AcceptAction → AcceptStage → Option (ℕ × AcceptStage)
  | .parse valid, .idle =>
      if valid then some (pending, .claim)
      else some (pending, .over (some (acceptError .invalidArgument "peer allowlist is invalid")))
  -- `begin_accept`
  | .claim, .claim =>
      if pending < max then some (pending + 1, .load)
      else
        some (pending, .over (some (acceptError .busy "an endpoint accept is already pending")))
  | .load, .load =>
      if bound then some (pending, .accepting)
      else some (pending, .release true)
  | .ended, .accepting => some (pending, .release false)
  -- `finish_accept`
  | .release, .release closed =>
      some (pending - 1,
        .over (if closed then some (acceptError .closed "endpoint is closed") else none))
  | _, _ => none

inductive AcceptCall where
  | accept (i : ℕ)
  | close (k : ℕ)
  deriving DecidableEq, Repr

inductive SlotAction where
  | accept (i : ℕ) (a : AcceptAction)
  | close (k : ℕ)
  deriving DecidableEq, Repr

/-- One step on an endpoint.  A close takes the endpoint out of the resource. -/
def slotStep (max : ℕ) (s : AcceptState) : SlotAction → Option AcceptState
  | .accept i a => (acceptStep max s.pending s.bound a (s.accepts i)).map fun r =>
      { s with pending := r.1, accepts := Function.update s.accepts i r.2 }
  | .close k =>
      if s.closes k then none
      else some { s with bound := false, closes := Function.update s.closes k true }

def AcceptStage.phase : AcceptStage → CallPhase
  | .idle => .fresh
  | .claim => .calling false
  | .load | .release true => .calling true
  | .accepting | .release false => .running true
  | .over refusal => .over refusal

def SlotAction.caller : SlotAction → AcceptCall
  | .accept i _ => .accept i
  | .close k => .close k

def SlotAction.checks : SlotAction → Bool
  | .accept _ .claim => true
  | _ => false

def AcceptState.phase (s : AcceptState) : AcceptCall → CallPhase
  | .accept i => (s.accepts i).phase
  | .close k => if s.closes k then .over none else .fresh

def guardedSlot (max : ℕ) : Guarded AcceptState AcceptCall SlotAction :=
  ⟨slotStep max, SlotAction.caller, SlotAction.checks, AcceptState.phase⟩

/-- The accept has a permit. -/
def AcceptStage.Permitted : AcceptStage → Prop
  | .load | .accepting | .release _ => True
  | _ => False

/-- With a maximum of one the count is a flag, and the accept with the permit has
set it. -/
structure AcceptState.Inv (s : AcceptState) : Prop where
  bounded : s.pending ≤ 1
  owned : Lock.Owned (s.pending == 1) fun i => (s.accepts i).Permitted

theorem accept_inv_init : AcceptState.init.Inv := ⟨Nat.zero_le 1, .clear fun _ h => h⟩

theorem AcceptStage.phase_claims (stage : AcceptStage) :
    stage.phase.Claims ↔ stage.Permitted := by
  rcases stage with - | - | - | - | (- | -) | refusal <;>
    simp [AcceptStage.phase, CallPhase.Claims, AcceptStage.Permitted]

theorem AcceptState.Inv.pending_iff {s : AcceptState} (hs : s.Inv) :
    s.pending = 1 ↔ ∃ c, (s.phase c).Claims := by
  constructor
  · intro hpending
    obtain ⟨i, hi⟩ := hs.owned.owner (beq_iff_eq.mpr hpending)
    exact ⟨.accept i, (AcceptStage.phase_claims _).mpr hi⟩
  · rintro ⟨c, hc⟩
    cases c with
    | accept i => exact beq_iff_eq.mp (hs.owned.set i ((AcceptStage.phase_claims _).mp hc))
    | close k =>
        simp only [AcceptState.phase] at hc
        split at hc <;> exact hc.elim

/-- A step of an accept takes the permit or gives it back in its turn, and is
refused for it exactly if there is none left. -/
theorem acceptStep_spec {pending : ℕ} {bound : Bool} {a : AcceptAction} {stage : AcceptStage}
    {r : ℕ × AcceptStage} (hpending : pending ≤ 1) (hset : stage.Permitted → pending = 1)
    (h : acceptStep 1 pending bound a stage = some r) :
    r.1 ≤ 1 ∧ Lock.Turn (pending == 1) (r.1 == 1) stage.Permitted r.2.Permitted ∧
      stage.phase.Next r.2.phase ∧ (r.2.phase.Busy ↔ a = .claim ∧ pending = 1) := by
  unfold acceptStep at h
  split at h
  · split at h
    · obtain rfl := Option.some.inj h
      exact ⟨hpending, .neither rfl Iff.rfl, .begin (by simp [AcceptStage.phase]),
        fun h => h.elim, fun h => (by cases h.1)⟩
    · obtain rfl := Option.some.inj h
      exact ⟨hpending, .neither rfl Iff.rfl, .begin (by simp [AcceptStage.phase]),
        fun h => (by cases h), fun h => (by cases h.1)⟩
  · split at h
    · next hfree =>
        obtain rfl := Option.some.inj h
        have hzero : pending = 0 := Nat.lt_one_iff.mp hfree
        subst hzero
        exact ⟨le_refl 1, .acquire rfl rfl trivial, .call (by simp [AcceptStage.phase]),
          fun h => h.elim, fun h => (by cases h.2)⟩
    · next hfull =>
        obtain rfl := Option.some.inj h
        have hone : pending = 1 := by omega
        exact ⟨hpending, .neither rfl Iff.rfl, .call (by simp [AcceptStage.phase]),
          fun _ => ⟨rfl, hone⟩, fun _ => rfl⟩
  · split at h
    · obtain rfl := Option.some.inj h
      exact ⟨hpending, .neither rfl Iff.rfl, .call (by simp [AcceptStage.phase]),
        fun h => h.elim, fun h => (by cases h.1)⟩
    · obtain rfl := Option.some.inj h
      exact ⟨hpending, .neither rfl Iff.rfl, .call (by simp [AcceptStage.phase]),
        fun h => h.elim, fun h => (by cases h.1)⟩
  · obtain rfl := Option.some.inj h
    exact ⟨hpending, .neither rfl Iff.rfl, .task id, fun h => h.elim, fun h => (by cases h.1)⟩
  · next closed =>
      obtain rfl := Option.some.inj h
      obtain rfl := hset trivial
      refine ⟨Nat.zero_le 1, .release trivial rfl id, ?_⟩
      cases closed with
      | false => exact ⟨.finish, fun h => h.elim, fun h => (by cases h.1)⟩
      | true =>
          exact ⟨.call (by simp [AcceptStage.phase]), fun h => (by cases h), fun h => (by cases h.1)⟩
  · cases h

/-- Every step on an endpoint. -/
inductive SlotMove (s : AcceptState) : SlotAction → AcceptState → Prop
  | accept {i a r} : acceptStep 1 s.pending s.bound a (s.accepts i) = some r →
      SlotMove s (.accept i a)
        { s with pending := r.1, accepts := Function.update s.accepts i r.2 }
  | close {k} : s.closes k = false →
      SlotMove s (.close k) { s with bound := false, closes := Function.update s.closes k true }

theorem slotStep_move {s s' : AcceptState} {a : SlotAction} (h : slotStep 1 s a = some s') :
    SlotMove s a s' := by
  cases a with
  | accept i a =>
      obtain ⟨r, hr, rfl⟩ := Option.map_eq_some_iff.mp h
      exact .accept hr
  | close k =>
      simp only [slotStep] at h
      split at h
      · cases h
      · next hclose => exact Option.some.inj h ▸ .close (Bool.not_eq_true _ ▸ hclose)

theorem AcceptState.Inv.spec {s : AcceptState} (hs : s.Inv) {i : ℕ} {a : AcceptAction}
    {r : ℕ × AcceptStage} (hr : acceptStep 1 s.pending s.bound a (s.accepts i) = some r) :
    r.1 ≤ 1 ∧ Lock.Turn (s.pending == 1) (r.1 == 1) (s.accepts i).Permitted r.2.Permitted ∧
      (s.accepts i).phase.Next r.2.phase ∧ (r.2.phase.Busy ↔ a = .claim ∧ s.pending = 1) :=
  acceptStep_spec hs.bounded (fun h => beq_iff_eq.mp (hs.owned.set i h)) hr

section Slot

variable {s s' : AcceptState} {a : SlotAction}

theorem SlotMove.inv (hs : s.Inv) (h : SlotMove s a s') : s'.Inv := by
  cases h with
  | accept hr =>
      obtain ⟨hle, hturn, -⟩ := hs.spec hr
      exact ⟨hle, hs.owned.step hturn⟩
  | close _ => exact ⟨hs.bounded, hs.owned⟩

theorem SlotMove.others (h : SlotMove s a s') {c : AcceptCall} (hc : c ≠ a.caller) :
    s'.phase c = s.phase c := by
  cases h with
  | accept _ =>
      cases c with
      | accept j => exact phase_update_of_ne AcceptStage.phase fun he => hc (congrArg _ he)
      | close _ => rfl
  | close _ =>
      cases c with
      | accept _ => rfl
      | close j =>
          exact phase_update_of_ne (fun closed => if closed = true then .over none else .fresh)
            fun he => hc (congrArg _ he)

theorem SlotMove.next (hs : s.Inv) (h : SlotMove s a s') :
    (s.phase a.caller).Next (s'.phase a.caller) := by
  cases h with
  | accept hr =>
      simp only [SlotAction.caller, AcceptState.phase, Function.update_self]
      exact (hs.spec hr).2.2.1
  | close hclose =>
      simp only [SlotAction.caller, AcceptState.phase, Function.update_self, hclose]
      exact .begin (by simp)

theorem SlotMove.early (h : SlotMove s a s') (hchecks : a.checks = true) :
    s.phase a.caller = .fresh ∨ s.phase a.caller = .calling false := by
  cases h with
  | @accept i a r hr =>
      right
      show (s.accepts i).phase = _
      cases a with
      | claim => cases hold : s.accepts i <;> rw [hold] at hr <;> first | rfl | cases hr
      | _ => cases hchecks
  | close _ => cases hchecks

theorem SlotMove.busy_iff (hs : s.Inv) (h : SlotMove s a s') :
    (s'.phase a.caller).Busy ↔ a.checks = true ∧ s.pending = 1 := by
  cases h with
  | @accept i a r hr =>
      simp only [SlotAction.caller, AcceptState.phase, Function.update_self, (hs.spec hr).2.2.2]
      exact and_congr_left fun _ => by cases a <;> simp [SlotAction.checks]
  | close _ =>
      simp only [SlotAction.caller, AcceptState.phase, Function.update_self]
      exact ⟨fun h => h.elim, fun h => (by cases h.1)⟩

end Slot

/-- The calls on an endpoint with one pending accept keep to the rules of `SoleUser`. -/
theorem guardedSlot_lawful : (guardedSlot 1).Lawful AcceptState.Inv where
  keeps hs h := (slotStep_move h).inv hs
  others h _ hc := (slotStep_move h).others hc
  next hs h := (slotStep_move h).next hs
  early h hchecks := (slotStep_move h).early hchecks
  busy hs h := ((slotStep_move h).busy_iff hs).trans (and_congr_right fun _ => hs.pending_iff)

/-! ### One call after the other -/

/-- The operations on a half carry its name, those of an endpoint the accept's. -/
def soleHalfStep (β : Type) (kind : HalfKind) :
    SoleUser HalfState HalfCall β → SoleAction HalfCall HalfAction β →
      Option (SoleUser HalfState HalfCall β) :=
  soleStep (guardedHalf kind) fun _ => kind.operation

def soleSlotStep (β : Type) (max : ℕ) :
    SoleUser AcceptState AcceptCall β → SoleAction AcceptCall SlotAction β →
      Option (SoleUser AcceptState AcceptCall β) :=
  soleStep (guardedSlot max) fun _ => .connectionAccept

/-- **A sole user of a half, or of an endpoint with one pending accept, is told
`busy` exactly if it makes a call while the task of one that timed out has not
been dropped.** -/
theorem sole_user_busy_iff {β : Type} :
    (∀ (kind : HalfKind) (as : List (SoleAction HalfCall HalfAction β))
        (s : SoleUser HalfState HalfCall β),
      run (soleHalfStep β kind) (.start .init) as = some s →
        (s.NeverBusy (guardedHalf kind) ↔
          Meets (soleHalfStep β kind) (WaitsForDrop (guardedHalf kind)) (.start .init) as)) ∧
    (∀ (as : List (SoleAction AcceptCall SlotAction β)) (s : SoleUser AcceptState AcceptCall β),
      run (soleSlotStep β 1) (.start .init) as = some s →
        (s.NeverBusy (guardedSlot 1) ↔
          Meets (soleSlotStep β 1) (WaitsForDrop (guardedSlot 1)) (.start .init) as)) := by
  refine ⟨?_, ?_⟩
  · intro kind as s h
    refine soleRun_busy_iff (guardedHalf_lawful kind) leased_init ?_ h
    intro c
    cases c <;> rfl
  · intro as s h
    refine soleRun_busy_iff guardedSlot_lawful accept_inv_init ?_ h
    intro c
    cases c <;> rfl

/-- A receive that times out: the native call, the operation, the timeout and
the cancellation. -/
def timedOutRecv : List (SoleAction HalfCall HalfAction ℕ) :=
  [.begin (.operation 0 .begin), .step (.operation 0 .claim), .step (.operation 0 .take),
    .start (.operation 0) true, .await (.operation 0) .timeout, .await (.operation 0) .cancel,
    .await (.operation 0) .notify]

/-- The cancelled task drops its lease. -/
def droppedRecv : List (SoleAction HalfCall HalfAction ℕ) :=
  [.step (.operation 0 .ended), .step (.operation 0 .dropBusy)]

/-- The next receive. -/
def nextRecv : List (SoleAction HalfCall HalfAction ℕ) :=
  [.begin (.operation 1 .begin), .step (.operation 1 .claim)]

/-- A call that comes after the drop is not refused. -/
theorem sole_user_waits_for_drop :
    ∃ s, run (soleHalfStep ℕ .recv) (.start .init) (timedOutRecv ++ droppedRecv ++ nextRecv) =
        some s ∧
      Meets (soleHalfStep ℕ .recv) (WaitsForDrop (guardedHalf .recv)) (.start .init)
        (timedOutRecv ++ droppedRecv ++ nextRecv) ∧
      s.resource.operations 1 = .take ∧ s.NeverBusy (guardedHalf .recv) := by
  have hmeets : Meets (soleHalfStep ℕ .recv) (WaitsForDrop (guardedHalf .recv)) (.start .init)
      (timedOutRecv ++ droppedRecv ++ nextRecv) := by
    refine meets_cons (fun h => by cases h) rfl ?_
    refine meets_cons (fun _ j ⟨w, hw, _⟩ => by cases hw) rfl ?_
    refine meets_cons (fun h => by cases h) rfl ?_
    refine meets_cons trivial rfl (meets_cons trivial rfl (meets_cons trivial rfl ?_))
    refine meets_cons trivial rfl ?_
    refine meets_cons (fun h => by cases h) rfl (meets_cons (fun h => by cases h) rfl ?_)
    refine meets_cons (fun h => by cases h) rfl (meets_cons ?_ rfl (meets_nil _))
    -- the receive that timed out is past the store of the busy flag
    rintro - j ⟨w, hw, -⟩
    by_cases hj : j = .operation 0
    · subst hj
      exact Bool.false_ne_true
    · simp [Function.update, hj, SoleUser.start] at hw
  exact ⟨_, rfl, hmeets, rfl, (sole_user_busy_iff.1 .recv _ _ rfl).mpr hmeets⟩

/-- The same for an accept. -/
def timedOutAccept : List (SoleAction AcceptCall SlotAction ℕ) :=
  [.begin (.accept 0 (.parse true)), .step (.accept 0 .claim), .step (.accept 0 .load),
    .start (.accept 0) true, .await (.accept 0) .timeout, .await (.accept 0) .cancel,
    .await (.accept 0) .notify]

def nextAccept : List (SoleAction AcceptCall SlotAction ℕ) :=
  [.begin (.accept 1 (.parse true)), .step (.accept 1 .claim)]

/-- **Busy without a competitor**: the next call comes before the cancelled task
has been dropped. -/
theorem busy_after_timeout :
    (∃ s, run (soleHalfStep ℕ .recv) (.start .init) (timedOutRecv ++ nextRecv) = some s ∧
      s.resource.operations 1 = .over (some (halfError .recv .streamRecv .busy "is busy")) ∧
      ¬ s.NeverBusy (guardedHalf .recv)) ∧
    ∃ s, run (soleSlotStep ℕ 1) (.start .init) (timedOutAccept ++ nextAccept) = some s ∧
      s.resource.accepts 1 =
        .over (some (acceptError .busy "an endpoint accept is already pending")) ∧
      ¬ s.NeverBusy (guardedSlot 1) := by
  refine ⟨⟨_, rfl, rfl, ?_⟩, ⟨_, rfl, rfl, ?_⟩⟩
  · exact fun h => h.refused (.operation 1) rfl
  · exact fun h => h.refused (.accept 1) rfl

end IrohBeam
