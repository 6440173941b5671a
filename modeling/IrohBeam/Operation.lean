/-
IrohBeam/Operation.lean

The protocol of a native operation: `OperationResource`, `operation_start` and
`operation_cancel` of `native/iroh_beam_nif/src/lib.rs`, and the supervising
tasks of `start_endpoint_operation` and `endpoint_bind_start` in `endpoint.rs`.

An operation is decided by one compare-and-swap on its state.  The parties are
the task that does the work, the supervising task that waits for it or for a
cancellation, and any number of cancellers: `operation_cancel` calls and the
callback for the caller's death.  A canceller that wins the swap then leaves a
permit for the supervisor (`Notify`), which is a step of its own.

`opStep` has one action for each atomic operation, so a schedule of actions is
an interleaving.  `Operation.Inv` is the invariant; the fact everything hangs
on is that a permit exists only after a canceller has won, so a supervisor that
gave up on the task finds the state already cancelled.
-/
import IrohBeam.Run
import IrohBeam.Ledger
import IrohBeam.Term

namespace IrohBeam

open Transition

/-! ### One operation -/

/-- How the spawned task ends: with its result, or by panicking. -/
inductive TaskResult (β : Type) where
  | value (v : β)
  | error (e : Error)
  | panicked

/-- The values of `OperationResource::state`. -/
inductive OperationState where
  | running | completed | cancelled
  deriving DecidableEq, Repr

/-- Which function started the operation.  The smoke operation spawns no task
of its own, its supervisor waits for a timer, and its outcome is fixed when it
is started. -/
inductive OperationKind (β : Type) where
  | endpoint (name : OperationName)
  | bind
  | smoke (outcome : TaskResult β)

/-- The spawned task, or the timer of a smoke operation. -/
inductive TaskState (β : Type) where
  | running
  | finished (result : TaskResult β)
  | aborted

/-- Where the supervising task is. -/
inductive Phase (β : Type) where
  | selecting
  | aborting
  | deciding (result : Option (TaskResult β))
  | sending (result : Option (TaskResult β))
  | demonitoring
  | finishing
  | done

/-- An operation: the shared state, the permit of its `Notify`, the cancellers
that have won and not yet notified, the monitor on the caller, the two tasks,
and what has happened: successful swaps either way and messages sent. -/
structure Operation (β : Type) where
  kind : OperationKind β
  state : OperationState
  permit : Bool
  notifying : ℕ
  monitored : Bool
  task : TaskState β
  phase : Phase β
  completions : ℕ
  cancels : ℕ
  sent : List (Except Error β)

variable {β : Type}

/-- An operation that has just been started. -/
def Operation.start (kind : OperationKind β) : Operation β :=
  { kind
    state := .running
    permit := false
    notifying := 0
    monitored := true
    task := .running
    phase := .selecting
    completions := 0
    cancels := 0
    sent := [] }

/-- The result the supervisor sends.  `ownerAlive` is whether the caller of a
bind could still be monitored as the owner of the new endpoint. -/
def operationResult (kind : OperationKind β) (result : Option (TaskResult β))
    (ownerAlive : Bool) : Except Error β :=
  match kind, result with
  | .endpoint _, some (.value v) => .ok v
  | .endpoint _, some (.error e) => .error e
  | .endpoint name, some .panicked =>
      .error ⟨.internal, name, "endpoint operation failed internally"⟩
  | .endpoint name, none => .error ⟨.cancelled, name, "operation was cancelled"⟩
  | .bind, some (.value v) =>
      if ownerAlive then .ok v
      else .error ⟨.cancelled, .endpointBind, "endpoint owner is no longer available"⟩
  | .bind, some (.error _) => .error ⟨.bindFailed, .endpointBind, "endpoint could not bind"⟩
  | .bind, some .panicked => .error ⟨.internal, .endpointBind, "endpoint bind failed internally"⟩
  | .bind, none => .error ⟨.cancelled, .endpointBind, "endpoint bind was cancelled"⟩
  | .smoke (.value v), _ => .ok v
  | .smoke (.error _), _ => .error ⟨.nativeFailure, .nativeSmoke, "native smoke failure"⟩
  | .smoke .panicked, _ =>
      .error ⟨.internal, .nativeSmoke, "native operation failed internally"⟩

/-- The swap of `OperationResource::cancel`; it succeeds on a running operation
and the canceller goes on to notify. -/
def Operation.cancel (o : Operation β) : Operation β :=
  match o.state with
  | .running =>
      { o with state := .cancelled, cancels := o.cancels + 1, notifying := o.notifying + 1 }
  | _ => o

/-- Whether the supervisor has a task to abort. -/
def OperationKind.spawns : OperationKind β → Bool
  | .smoke _ => false
  | _ => true

/-- What `abort()` and joining leave of the task. -/
def TaskState.abort : TaskState β → TaskState β
  | .running => .aborted
  | task => task

/-- The atomic steps of the parties. -/
inductive OpAction (β : Type) where
  | finish (result : TaskResult β)
  | cancel
  | down
  | notify
  | selectTask
  | selectCancelled
  | join
  | complete
  | send (ownerAlive : Bool)
  | demonitor
  | release

/-- One atomic step. -/
def opStep (o : Operation β) : OpAction β → Option (Operation β)
  | .finish result =>
      match o.task with
      | .running => some { o with task := .finished result }
      | _ => none
  | .cancel => some o.cancel
  | .down => if o.monitored then some { o.cancel with monitored := false } else none
  | .notify =>
      match o.notifying with
      | n + 1 => some { o with notifying := n, permit := true }
      | 0 => none
  | .selectTask =>
      match o.phase, o.task with
      | .selecting, .finished result => some { o with phase := .deciding (some result) }
      | _, _ => none
  | .selectCancelled =>
      match o.phase, o.permit with
      | .selecting, true =>
          some { o with
            permit := false
            phase := if o.kind.spawns then .aborting else .deciding none }
      | _, _ => none
  | .join =>
      match o.phase with
      | .aborting => some { o with task := o.task.abort, phase := .deciding none }
      | _ => none
  | .complete =>
      match o.phase, o.state with
      | .deciding result, .running =>
          some { o with
            state := .completed
            completions := o.completions + 1
            phase := .sending result }
      | .deciding _, _ => some { o with phase := .demonitoring }
      | _, _ => none
  | .send ownerAlive =>
      match o.phase with
      | .sending result =>
          some { o with
            sent := o.sent ++ [operationResult o.kind result ownerAlive]
            phase := .demonitoring }
      | _ => none
  | .demonitor =>
      match o.phase with
      | .demonitoring => some { o with monitored := false, phase := .finishing }
      | _ => none
  | .release =>
      match o.phase with
      | .finishing => some { o with phase := .done }
      | _ => none

/-- What each action does, and when it can be taken. -/
inductive OpStep (o : Operation β) : OpAction β → Operation β → Prop
  | finish {result} : o.task = .running →
      OpStep o (.finish result) { o with task := .finished result }
  | cancel : OpStep o .cancel o.cancel
  | down : o.monitored = true → OpStep o .down { o.cancel with monitored := false }
  | notify {n} : o.notifying = n + 1 →
      OpStep o .notify { o with notifying := n, permit := true }
  | selectTask {result} : o.phase = .selecting → o.task = .finished result →
      OpStep o .selectTask { o with phase := .deciding (some result) }
  | selectCancelled : o.phase = .selecting → o.permit = true →
      OpStep o .selectCancelled { o with
        permit := false
        phase := if o.kind.spawns then .aborting else .deciding none }
  | join : o.phase = .aborting →
      OpStep o .join { o with task := o.task.abort, phase := .deciding none }
  | complete {result} : o.phase = .deciding result → o.state = .running →
      OpStep o .complete { o with
        state := .completed
        completions := o.completions + 1
        phase := .sending result }
  | giveUp {result} : o.phase = .deciding result → o.state ≠ .running →
      OpStep o .complete { o with phase := .demonitoring }
  | send {result ownerAlive} : o.phase = .sending result →
      OpStep o (.send ownerAlive) { o with
        sent := o.sent ++ [operationResult o.kind result ownerAlive]
        phase := .demonitoring }
  | demonitor : o.phase = .demonitoring →
      OpStep o .demonitor { o with monitored := false, phase := .finishing }
  | release : o.phase = .finishing → OpStep o .release { o with phase := .done }

theorem opStep_cases {o o' : Operation β} {a : OpAction β} (h : opStep o a = some o') :
    OpStep o a o' := by
  cases a with
  | finish result =>
      simp only [opStep] at h
      split at h
      · next htask => exact Option.some.inj h ▸ .finish htask
      · cases h
  | cancel => exact Option.some.inj h ▸ .cancel
  | down =>
      simp only [opStep] at h
      split at h
      · next hmon => exact Option.some.inj h ▸ .down hmon
      · cases h
  | notify =>
      simp only [opStep] at h
      split at h
      · next n hn => exact Option.some.inj h ▸ .notify hn
      · cases h
  | selectTask =>
      simp only [opStep] at h
      split at h
      · next result hphase htask => exact Option.some.inj h ▸ .selectTask hphase htask
      · cases h
  | selectCancelled =>
      simp only [opStep] at h
      split at h
      · next hphase hpermit => exact Option.some.inj h ▸ .selectCancelled hphase hpermit
      · cases h
  | join =>
      simp only [opStep] at h
      split at h
      · next hphase => exact Option.some.inj h ▸ .join hphase
      · cases h
  | complete =>
      simp only [opStep] at h
      split at h
      · next result hphase hrun => exact Option.some.inj h ▸ .complete hphase hrun
      · next result hphase hrun => exact Option.some.inj h ▸ .giveUp hphase hrun
      · cases h
  | send ownerAlive =>
      simp only [opStep] at h
      split at h
      · next result hphase => exact Option.some.inj h ▸ .send hphase
      · cases h
  | demonitor =>
      simp only [opStep] at h
      split at h
      · next hphase => exact Option.some.inj h ▸ .demonitor hphase
      · cases h
  | release =>
      simp only [opStep] at h
      split at h
      · next hphase => exact Option.some.inj h ▸ .release hphase
      · cases h

/-! ### The invariant of an operation -/

/-- Phases in which the supervisor still has, or may still get, a result. -/
def Phase.racing : Phase β → Bool
  | .selecting | .deciding (some _) => true
  | _ => false

/-- Phases between the supervisor's swap and its message. -/
def Phase.owing : Phase β → Bool
  | .sending _ => true
  | _ => false

/-- Phases after the message, if there is one. -/
def Phase.closing : Phase β → Bool
  | .demonitoring | .finishing | .done => true
  | _ => false

theorem Phase.racing_cases {p : Phase β} (h : p.racing = true) :
    p = .selecting ∨ ∃ result, p = .deciding (some result) := by
  rcases p with - | - | (- | result) | result | - | - | -
  · exact .inl rfl
  · cases h
  · cases h
  · exact .inr ⟨result, rfl⟩
  · cases h
  · cases h
  · cases h
  · cases h

/-- A racing supervisor owes nothing, is not winding up and has not given up
on the task. -/
theorem Phase.racing_open {p : Phase β} (h : p.racing = true) :
    p.owing = false ∧ p.closing = false ∧ p ≠ .deciding none := by
  rcases racing_cases h with rfl | ⟨result, rfl⟩
  · exact ⟨rfl, rfl, by simp⟩
  · exact ⟨rfl, rfl, by simp⟩

/-- Who has decided the operation, and what follows from it. -/
inductive Operation.Inv (o : Operation β) : Prop
  | racing : o.state = .running → o.phase.racing = true → o.permit = false → o.notifying = 0 →
      o.completions = 0 → o.cancels = 0 → o.sent = [] → o.Inv
  | cancelled : o.state = .cancelled → o.phase.owing = false →
      o.completions = 0 → o.cancels = 1 → o.sent = [] → o.Inv
  | owing (result : TaskResult β) : o.state = .completed → o.phase = .sending (some result) →
      o.permit = false → o.notifying = 0 → o.completions = 1 → o.cancels = 0 → o.sent = [] → o.Inv
  | answered (message : Except Error β) : o.state = .completed → o.phase.closing = true →
      o.permit = false → o.notifying = 0 → o.completions = 1 → o.cancels = 0 →
      o.sent = [message] → o.Inv

namespace Operation.Inv

variable {o : Operation β}

theorem start (kind : OperationKind β) : (Operation.start kind).Inv :=
  .racing rfl rfl rfl rfl rfl rfl rfl

/-- The work itself and the monitor have no part in the decision. -/
theorem frame (h : o.Inv) (task : TaskState β) (monitored : Bool) :
    Operation.Inv { o with task := task, monitored := monitored } := by
  cases h with
  | racing hs hph hp hn hc hx hm => exact .racing hs hph hp hn hc hx hm
  | cancelled hs hph hc hx hm => exact .cancelled hs hph hc hx hm
  | owing r hs hph hp hn hc hx hm => exact .owing r hs hph hp hn hc hx hm
  | answered m hs hph hp hn hc hx hm => exact .answered m hs hph hp hn hc hx hm

/-- A canceller wins only against a running operation. -/
theorem cancel (h : o.Inv) : o.cancel.Inv := by
  unfold Operation.cancel
  split
  · next hrun =>
      cases h with
      | racing hs hph hp hn hc hx hm =>
          exact .cancelled rfl (Phase.racing_open hph).1 hc (by simp [hx]) hm
      | cancelled hs => rw [hrun] at hs; cases hs
      | owing r hs => rw [hrun] at hs; cases hs
      | answered m hs => rw [hrun] at hs; cases hs
  · exact h

/-- Whoever notifies has won. -/
theorem state_of_notifying (h : o.Inv) (hn : o.notifying ≠ 0) : o.state = .cancelled := by
  cases h with
  | racing _ _ _ hn' => exact absurd hn' hn
  | cancelled hs => exact hs
  | owing _ _ _ _ hn' => exact absurd hn' hn
  | answered _ _ _ _ hn' => exact absurd hn' hn

/-- A permit is left by a winner. -/
theorem state_of_permit (h : o.Inv) (hp : o.permit = true) : o.state = .cancelled := by
  cases h with
  | racing _ _ hp' => rw [hp] at hp'; cases hp'
  | cancelled hs => exact hs
  | owing _ _ _ hp' => rw [hp] at hp'; cases hp'
  | answered _ _ _ hp' => rw [hp] at hp'; cases hp'

/-- A cancelled operation owes no message. -/
theorem not_owing (h : o.Inv) (hs : o.state = .cancelled) : o.phase.owing = false := by
  cases h with
  | racing hs' => rw [hs] at hs'; cases hs'
  | cancelled _ hph => exact hph
  | owing _ hs' => rw [hs] at hs'; cases hs'
  | answered _ hs' => rw [hs] at hs'; cases hs'

/-- A cancelled operation may move in any way that does not make its
supervisor owe a message. -/
theorem of_cancelled (h : o.Inv) (hs : o.state = .cancelled) {phase : Phase β}
    (hph : phase.owing = false) (permit : Bool) (notifying : ℕ) (task : TaskState β)
    (monitored : Bool) :
    Operation.Inv { o with
      permit := permit
      notifying := notifying
      task := task
      monitored := monitored
      phase := phase } := by
  cases h with
  | racing hs' => rw [hs] at hs'; cases hs'
  | cancelled _ _ hc hx hm => exact .cancelled hs hph hc hx hm
  | owing _ hs' => rw [hs] at hs'; cases hs'
  | answered _ hs' => rw [hs] at hs'; cases hs'

/-- A supervisor that gave up on the task finds the operation cancelled. -/
theorem state_of_abandoned (h : o.Inv) (hr : o.phase.racing = false) (ho : o.phase.owing = false)
    (hc : o.phase.closing = false) : o.state = .cancelled := by
  cases h with
  | racing _ hph => rw [hr] at hph; cases hph
  | cancelled hs => exact hs
  | owing _ _ hph => rw [hph] at ho; cases ho
  | answered _ _ hph => rw [hc] at hph; cases hph

/-- Winding up keeps the invariant. -/
theorem close (h : o.Inv) (hclosing : o.phase.closing = true) {phase : Phase β}
    (hphase : phase.closing = true) (hnot : phase.owing = false) (monitored : Bool) :
    Operation.Inv { o with monitored := monitored, phase := phase } := by
  cases h with
  | racing _ hph => rw [(Phase.racing_open hph).2.1] at hclosing; cases hclosing
  | cancelled hs _ hc hx hm => exact .cancelled hs hnot hc hx hm
  | owing _ _ hph => rw [hph] at hclosing; cases hclosing
  | answered m hs _ hp hn hc hx hm => exact .answered m hs hphase hp hn hc hx hm

end Operation.Inv

/-- **A step keeps the invariant.** -/
theorem opStep_inv {o o' : Operation β} {a : OpAction β} (hi : o.Inv)
    (h : opStep o a = some o') : o'.Inv := by
  cases opStep_cases h with
  | finish _ => exact hi.frame _ o.monitored
  | cancel => exact hi.cancel
  | down _ => exact hi.cancel.frame _ false
  | @notify n hn =>
      have hs := hi.state_of_notifying (by rw [hn]; exact Nat.succ_ne_zero n)
      exact hi.of_cancelled hs (hi.not_owing hs) true n o.task o.monitored
  | selectTask hphase _ =>
      -- a result in hand decides nothing yet: cancellers may still win
      cases hi with
      | racing hs _ hp hn hc hx hm => exact .racing hs rfl hp hn hc hx hm
      | cancelled hs _ hc hx hm => exact .cancelled hs rfl hc hx hm
      | owing _ _ hph => rw [hphase] at hph; cases hph
      | answered _ _ hph => rw [hphase] at hph; cases hph
  | selectCancelled _ hpermit =>
      have howing : (if o.kind.spawns then Phase.aborting else
          Phase.deciding (none : Option (TaskResult β))).owing = false := by
        split <;> rfl
      exact hi.of_cancelled (hi.state_of_permit hpermit) howing false o.notifying o.task
        o.monitored
  | join hphase =>
      -- only a cancellation makes the supervisor abort the task
      have hs : o.state = .cancelled :=
        hi.state_of_abandoned (by rw [hphase]; rfl) (by rw [hphase]; rfl) (by rw [hphase]; rfl)
      exact hi.of_cancelled hs rfl o.permit o.notifying o.task.abort o.monitored
  | @complete result hphase hrun =>
      -- the swap succeeds only while racing, so the supervisor has a result
      cases hi with
      | racing _ hph hp hn hc hx hm =>
          cases result with
          | none => rw [hphase] at hph; cases hph
          | some r => exact .owing r rfl rfl hp hn (by simp [hc]) hx hm
      | cancelled hs => rw [hrun] at hs; cases hs
      | owing _ hs => rw [hrun] at hs; cases hs
      | answered _ hs => rw [hrun] at hs; cases hs
  | giveUp hphase hrun =>
      -- the swap fails only because a canceller has won
      cases hi with
      | racing hs => exact absurd hs hrun
      | cancelled hs _ hc hx hm => exact .cancelled hs rfl hc hx hm
      | owing _ _ hph => rw [hphase] at hph; cases hph
      | answered _ _ hph => rw [hphase] at hph; cases hph
  | send hphase =>
      -- the first message: nothing was sent while it was owed
      cases hi with
      | racing _ hph => rw [hphase] at hph; cases hph
      | cancelled _ hph => rw [hphase] at hph; cases hph
      | owing _ hs _ hp hn hc hx hm => exact .answered _ hs rfl hp hn hc hx (by rw [hm]; rfl)
      | answered _ _ hph => rw [hphase] at hph; cases hph
  | demonitor hphase => exact hi.close (by rw [hphase]; rfl) rfl rfl false
  | release hphase => exact hi.close (by rw [hphase]; rfl) rfl rfl o.monitored

/-- Cancellations are never taken back. -/
theorem opStep_cancels {o o' : Operation β} {a : OpAction β} (h : opStep o a = some o') :
    o.cancels ≤ o'.cancels := by
  have hcancel : o.cancels ≤ o.cancel.cancels := by
    unfold Operation.cancel
    split
    · exact Nat.le_succ _
    · exact le_rfl
  cases opStep_cases h with
  | cancel => exact hcancel
  | down _ => exact hcancel
  | _ => exact le_rfl

/-- A lost swap changes nothing. -/
theorem Operation.cancel_of_ne {o : Operation β} (h : o.state ≠ .running) : o.cancel = o := by
  unfold Operation.cancel
  split
  · next hrun => exact absurd hrun h
  · rfl

theorem Operation.cancel_sent (o : Operation β) : o.cancel.sent = o.sent := by
  unfold Operation.cancel
  split <;> rfl

/-- A cancellation leaves both tasks alone. -/
theorem Operation.cancel_frame (o : Operation β) :
    o.cancel.kind = o.kind ∧ o.cancel.task = o.task ∧ o.cancel.phase = o.phase := by
  unfold Operation.cancel
  split <;> exact ⟨rfl, rfl, rfl⟩

/-- A cancelled operation stays cancelled. -/
theorem opStep_cancelled {o o' : Operation β} {a : OpAction β} (hs : o.state = .cancelled)
    (h : opStep o a = some o') : o'.state = .cancelled := by
  have hcancel : o.cancel = o := Operation.cancel_of_ne (by rw [hs]; exact OperationState.noConfusion)
  cases opStep_cases h with
  | cancel => rwa [hcancel]
  | down _ =>
      show o.cancel.state = .cancelled
      rwa [hcancel]
  | complete _ hrun => rw [hs] at hrun; cases hrun
  | _ => exact hs

/-- Messages are only added. -/
theorem opStep_sent {o o' : Operation β} {a : OpAction β} (h : opStep o a = some o') :
    ∃ new, o'.sent = o.sent ++ new := by
  cases opStep_cases h with
  | cancel => exact ⟨[], by rw [Operation.cancel_sent, List.append_nil]⟩
  | down _ => exact ⟨[], by rw [List.append_nil]; exact Operation.cancel_sent o⟩
  | send _ => exact ⟨_, rfl⟩
  | _ => exact ⟨[], (List.append_nil _).symm⟩

/-- A message is the result of the operation. -/
theorem opStep_answers {o o' : Operation β} {a : OpAction β} (h : opStep o a = some o') :
    o'.kind = o.kind ∧ ∀ m ∈ o'.sent,
      m ∈ o.sent ∨ ∃ result ownerAlive, m = operationResult o.kind result ownerAlive := by
  cases opStep_cases h with
  | cancel =>
      refine ⟨o.cancel_frame.1, ?_⟩
      rw [Operation.cancel_sent]
      exact fun m hm => .inl hm
  | down _ =>
      refine ⟨o.cancel_frame.1, ?_⟩
      show ∀ m ∈ o.cancel.sent, _
      rw [Operation.cancel_sent]
      exact fun m hm => .inl hm
  | send _ =>
      refine ⟨rfl, ?_⟩
      intro m hm
      rcases List.mem_append.mp hm with hm | hm
      · exact .inl hm
      · exact .inr ⟨_, _, List.mem_singleton.mp hm⟩
  | _ => exact ⟨rfl, fun m hm => .inl hm⟩

/-! ### All operations -/

/-- The operations started so far and `ACTIVE_OPERATIONS`. -/
structure Operations (β : Type) where
  ops : List (Operation β)
  active : ℤ

/-- A step of the whole: a process starts an operation, or one of them moves. -/
inductive OperationsAction (β : Type) where
  | start (kind : OperationKind β) (callerAlive : Bool)
  | op (i : ℕ) (action : OpAction β)

/-- What an action does to `ACTIVE_OPERATIONS`: the supervising task's last act
is to take itself off. -/
def OpAction.retires : OpAction β → ℤ
  | .release => 1
  | _ => 0

/-- One step.  A caller that cannot be monitored is refused before anything is
counted. -/
def operationsStep (s : Operations β) : OperationsAction β → Option (Operations β)
  | .start kind callerAlive =>
      if callerAlive then some ⟨s.ops ++ [.start kind], s.active + 1⟩ else some s
  | .op i a =>
      match s.ops[i]? with
      | some o => (opStep o a).map fun o' => ⟨s.ops.set i o', s.active - a.retires⟩
      | none => none

def Operations.start : Operations β := ⟨[], 0⟩

/-- Whether the supervising task is still there. -/
def Phase.live : Phase β → Bool
  | .done => false
  | _ => true

/-- What an operation contributes to `ACTIVE_OPERATIONS`. -/
def Operation.share (o : Operation β) : ℤ := if o.phase.live then 1 else 0

/-- Each operation keeps its invariant and the counter counts those whose
supervisor is still there. -/
structure Operations.Inv (s : Operations β) : Prop where
  each : ∀ o ∈ s.ops, o.Inv
  active : s.active = Ledger.total Operation.share s.ops

/-- The share goes when the supervisor takes itself off the counter. -/
theorem opStep_share {o o' : Operation β} {a : OpAction β} (h : opStep o a = some o') :
    o'.share - o.share = -a.retires := by
  cases opStep_cases h with
  | finish _ => simp [Operation.share, OpAction.retires]
  | cancel => simp [Operation.share, OpAction.retires, o.cancel_frame]
  | down _ => simp [Operation.share, OpAction.retires, o.cancel_frame]
  | notify _ => simp [Operation.share, OpAction.retires]
  | selectTask hphase _ => simp [Operation.share, OpAction.retires, Phase.live, hphase]
  | selectCancelled hphase _ =>
      simp only [Operation.share, OpAction.retires, hphase]
      split <;> simp [Phase.live]
  | join hphase => simp [Operation.share, OpAction.retires, Phase.live, hphase]
  | complete hphase _ => simp [Operation.share, OpAction.retires, Phase.live, hphase]
  | giveUp hphase _ => simp [Operation.share, OpAction.retires, Phase.live, hphase]
  | send hphase => simp [Operation.share, OpAction.retires, Phase.live, hphase]
  | demonitor hphase => simp [Operation.share, OpAction.retires, Phase.live, hphase]
  | release hphase => simp [Operation.share, OpAction.retires, Phase.live, hphase]

/-- A step of one operation, as a step of the whole. -/
theorem operationsStep_op {s s' : Operations β} {i : ℕ} {a : OpAction β}
    (h : operationsStep s (.op i a) = some s') :
    ∃ o o', s.ops[i]? = some o ∧ opStep o a = some o' ∧
      s' = ⟨s.ops.set i o', s.active - a.retires⟩ := by
  simp only [operationsStep] at h
  split at h
  · next o ho =>
      obtain ⟨o', hstep, rfl⟩ := Option.map_eq_some_iff.mp h
      exact ⟨o, o', ho, hstep, rfl⟩
  · cases h

theorem operationsStep_start {s s' : Operations β} {kind : OperationKind β} {callerAlive : Bool}
    (h : operationsStep s (.start kind callerAlive) = some s') :
    s' = s ∨ s' = ⟨s.ops ++ [.start kind], s.active + 1⟩ := by
  simp only [operationsStep] at h
  split at h
  · exact .inr (Option.some.inj h).symm
  · exact .inl (Option.some.inj h).symm

/-- Every step keeps the invariant of the whole. -/
theorem operationsStep_inv (s : Operations β) (a : OperationsAction β) (s' : Operations β)
    (hs : s.Inv) (h : operationsStep s a = some s') : s'.Inv := by
  cases a with
  | start kind callerAlive =>
      rcases operationsStep_start h with rfl | rfl
      · exact hs
      · refine ⟨Ledger.forall_append hs.each (.start kind), ?_⟩
        rw [Ledger.total_append, Ledger.total_singleton, hs.active]
        rfl
  | op i a =>
      obtain ⟨o, o', ho, hstep, rfl⟩ := operationsStep_op h
      have hmem : o ∈ s.ops := List.mem_of_getElem? ho
      refine ⟨Ledger.forall_set hs.each (opStep_inv (hs.each o hmem) hstep), ?_⟩
      rw [Ledger.total_set Operation.share ho, opStep_share hstep, ← hs.active, sub_eq_add_neg]

/-- In every later state the operation is still there and has not lost a
cancellation. -/
theorem run_cancels {s s' : Operations β} {as : List (OperationsAction β)}
    (h : run operationsStep s as = some s') {i n : ℕ}
    (hs : ∃ o, s.ops[i]? = some o ∧ n ≤ o.cancels) : ∃ o, s'.ops[i]? = some o ∧ n ≤ o.cancels := by
  refine run_invariant (P := fun s => ∃ o, s.ops[i]? = some o ∧ n ≤ o.cancels) ?_ h hs
  rintro s a s' ⟨o, ho, hn⟩ hstep
  cases a with
  | start kind callerAlive =>
      rcases operationsStep_start hstep with rfl | rfl
      · exact ⟨o, ho, hn⟩
      · refine ⟨o, ?_, hn⟩
        rw [List.getElem?_append_left (List.getElem?_eq_some_iff.mp ho).1, ho]
  | op j a =>
      obtain ⟨p, p', hp, hop, rfl⟩ := operationsStep_op hstep
      by_cases hij : j = i
      · subst hij
        rw [ho] at hp
        obtain rfl := Option.some.inj hp
        refine ⟨p', ?_, hn.trans (opStep_cancels hop)⟩
        rw [List.getElem?_set_self (List.getElem?_eq_some_iff.mp ho).1]
      · exact ⟨o, by rw [List.getElem?_set_ne hij, ho], hn⟩

/-! ### What the protocol guarantees -/

/-- The guarantees for one operation: it is decided at most once and by the
time its supervisor winds up exactly once, at most one cancellation succeeds,
at most one message is sent, only on completion and never if a cancellation
succeeded, and a supervisor without a result never wins the swap. -/
structure Operation.Decided (o : Operation β) : Prop where
  once : o.completions + o.cancels ≤ 1
  exactly_once : o.phase.owing = true ∨ o.phase.closing = true → o.completions + o.cancels = 1
  cancel_once : o.cancels ≤ 1
  message_once : o.sent.length ≤ 1
  message_completed : o.sent ≠ [] → o.state = .completed
  message_not_cancelled : o.cancels ≠ 0 → o.sent = []
  no_result_lost : o.phase = .deciding none → o.state ≠ .running
  no_result_sent : o.phase ≠ .sending none

theorem Operation.Inv.decided {o : Operation β} (h : o.Inv) : o.Decided := by
  cases h with
  | racing hs hph hp hn hc hx hm =>
      have hopen := Phase.racing_open hph
      refine ⟨by omega, ?_, by omega, by simp [hm], fun hne => absurd hm hne, fun _ => hm, ?_, ?_⟩
      · rintro (ho | hcl)
        · rw [hopen.1] at ho; cases ho
        · rw [hopen.2.1] at hcl; cases hcl
      · exact fun hd => absurd hd hopen.2.2
      · intro hsend
        rw [hsend] at hopen
        cases hopen.1
  | cancelled hs hph hc hx hm =>
      refine ⟨by omega, fun _ => by omega, by omega, by simp [hm], fun hne => absurd hm hne,
        fun _ => hm, ?_, ?_⟩
      · intro _
        rw [hs]
        exact OperationState.noConfusion
      · intro hsend
        rw [hsend] at hph
        cases hph
  | owing result hs hph hp hn hc hx hm =>
      refine ⟨by omega, fun _ => by omega, by omega, by simp [hm], fun _ => hs, fun _ => hm, ?_, ?_⟩
      · intro hd
        rw [hph] at hd
        cases hd
      · intro hsend
        rw [hph] at hsend
        cases hsend
  | answered message hs hph hp hn hc hx hm =>
      refine ⟨by omega, fun _ => by omega, by omega, by simp [hm], fun _ => hs,
        fun hne => absurd hx hne, ?_, ?_⟩
      · intro hd
        rw [hd] at hph
        cases hph
      · intro hsend
        rw [hsend] at hph
        cases hph

/-- **The native operation protocol.**  In every state of every interleaving
each operation is decided as it should be, no message follows a cancellation
that succeeded, and `ACTIVE_OPERATIONS` is the number of operations whose
supervising task has not finished. -/
theorem operations_protocol {as : List (OperationsAction β)} {s : Operations β}
    (h : run operationsStep .start as = some s) :
    (∀ o ∈ s.ops, o.Decided) ∧
    (∀ bs (s' : Operations β) (i : ℕ) (o : Operation β), run operationsStep s bs = some s' →
      s.ops[i]? = some o → o.cancels ≠ 0 →
      ∃ o' : Operation β, s'.ops[i]? = some o' ∧ o'.sent = []) ∧
    s.active = s.ops.countP (fun o => o.phase.live) := by
  have hinv : s.Inv := by
    refine run_invariant operationsStep_inv h ⟨?_, rfl⟩
    intro o ho
    cases ho
  refine ⟨fun o ho => (hinv.each o ho).decided, ?_, ?_⟩
  · intro bs s' i o hrun ho hcancel
    -- the cancellation is still on record in the later state, whose invariant excludes a message
    obtain ⟨o', ho', hle⟩ := run_cancels hrun ⟨o, ho, le_rfl⟩
    have hinv' : s'.Inv := run_invariant operationsStep_inv hrun hinv
    have hdecided := (hinv'.each o' (List.mem_of_getElem? ho')).decided
    exact ⟨o', ho', hdecided.message_not_cancelled (by omega)⟩
  · rw [hinv.active]
    exact Ledger.total_tally _ _

/-- A bind that completes while its caller cancels too late, beside a smoke
operation that is cancelled. -/
theorem operations_protocol_sample :
    ∃ s : Operations Unit,
      run operationsStep .start
        [.start .bind true, .start (.smoke (.value ())) true,
         .op 1 .cancel, .op 0 (.finish (.value ())), .op 0 .selectTask, .op 0 .complete,
         .op 0 .cancel, .op 1 .notify, .op 1 .selectCancelled, .op 1 .complete,
         .op 0 (.send true), .op 1 .demonitor, .op 1 .release] = some s ∧
      s.active = 1 ∧ ∀ o ∈ s.ops, o.Decided := by
  obtain ⟨s, hs, hactive⟩ : ∃ s : Operations Unit,
      run operationsStep .start
        [.start .bind true, .start (.smoke (.value ())) true,
         .op 1 .cancel, .op 0 (.finish (.value ())), .op 0 .selectTask, .op 0 .complete,
         .op 0 .cancel, .op 1 .notify, .op 1 .selectCancelled, .op 1 .complete,
         .op 0 (.send true), .op 1 .demonitor, .op 1 .release] = some s ∧ s.active = 1 :=
    ⟨_, rfl, rfl⟩
  exact ⟨s, hs, hactive, (operations_protocol hs).1⟩

end IrohBeam
