/-
IrohBeam/SoleUser.lean

One process that uses a stream half, or the accept slot of an endpoint, one
call after the other.

A call enters a native function, which takes the guard of the resource (the busy
flag of the half, the count of pending accepts) or returns an error; with the
guard it spawns a task (`start_endpoint_operation`), and the process waits in
`await_operation/4`.  The guard is dropped with the task's future, and the
message is sent after the task has been joined.  So a call that returns with the
task's result has given the guard back, and a call that timed out may not have:
`operation_cancel` only asks for the task to be aborted.

The part of the resource is abstract: `Guarded` says what a call looks like from
outside, and `Guarded.Lawful` what is used of it.  `soleStep_busy_iff` is then
about any such resource, and the halves and the endpoint are instances.
-/
import IrohBeam.StreamLease
import IrohBeam.Await

namespace IrohBeam

open Transition

/-! ### Calls on a guarded resource -/

/-- A call from outside: not begun, in the native function, with its future
handed to a task, or over.  `claims` is whether it has the guard, `refusal` the
error the native function has returned. -/
inductive CallPhase where
  | fresh
  | calling (claims : Bool)
  | running (claims : Bool)
  | over (refusal : Option Error)
  deriving DecidableEq, Repr

def CallPhase.Claims : CallPhase → Prop
  | .calling claims | .running claims => claims = true
  | _ => False

/-- The call was refused because of the guard. -/
def CallPhase.Busy : CallPhase → Prop
  | .over (some e) => e.category = .busy
  | _ => False

def CallPhase.isRunning : CallPhase → Bool
  | .running _ => true
  | _ => false

def CallPhase.isOver : CallPhase → Bool
  | .over _ => true
  | _ => false

/-- What a step of a call can make of it: the guard is taken in the native
function only. -/
inductive CallPhase.Next : CallPhase → CallPhase → Prop
  | begin {new} : new ≠ .fresh → Next .fresh new
  | call {claims new} : new ≠ .fresh → Next (.calling claims) new
  | task {claims claims'} : (claims' = true → claims = true) →
      Next (.running claims) (.running claims')
  | finish {claims} : Next (.running claims) (.over none)

/-- A resource with a guard: the steps of the calls on it, whose step each is,
which of them looks at the guard, and where each call is. -/
structure Guarded (σ ι A : Type) where
  step : σ → A → Option σ
  caller : A → ι
  checks : A → Bool
  phase : σ → ι → CallPhase

/-- What is used of a resource, in the states with the invariant `I`. -/
structure Guarded.Lawful {σ ι A : Type} (g : Guarded σ ι A) (I : σ → Prop) : Prop where
  keeps : ∀ {s a s'}, I s → g.step s a = some s' → I s'
  others : ∀ {s a s'}, g.step s a = some s' → ∀ j, j ≠ g.caller a → g.phase s' j = g.phase s j
  next : ∀ {s a s'}, I s → g.step s a = some s' →
    (g.phase s (g.caller a)).Next (g.phase s' (g.caller a))
  /-- A call looks at the guard before it has it. -/
  early : ∀ {s a s'}, g.step s a = some s' → g.checks a = true →
    g.phase s (g.caller a) = .fresh ∨ g.phase s (g.caller a) = .calling false
  /-- A call is refused for the guard exactly if some call has it when it looks. -/
  busy : ∀ {s a s'}, I s → g.step s a = some s' →
    ((g.phase s' (g.caller a)).Busy ↔ g.checks a = true ∧ ∃ j, (g.phase s j).Claims)

/-! ### The process -/

/-- Where the process is: between calls, in the native function of a call, in it
with the future being dropped because no task could be started, or in
`await_operation/4`. -/
inductive UserStage (ι : Type) where
  | idle
  | calling (i : ι)
  | dropping (i : ι)
  | awaiting (i : ι)
  deriving DecidableEq

/-- The resource, the process, and the operations it has started. -/
structure SoleUser (σ ι β : Type) where
  resource : σ
  user : UserStage ι
  awaits : ι → Option (Await β)

/-- The process before its first call. -/
def SoleUser.start {σ ι β : Type} (resource : σ) : SoleUser σ ι β :=
  ⟨resource, .idle, fun _ => none⟩

/-- The steps: the process begins a call; a call takes a step, in the native
function or in its task; the native function starts the operation or fails to;
the operation, or the process waiting for it, takes a step. -/
inductive SoleAction (ι A β : Type) where
  | begin (a : A)
  | step (a : A)
  | start (i : ι) (ok : Bool)
  | await (i : ι) (a : AwaitAction β)

/-- `await_operation/4` has returned. -/
def AwaitState.isReturned {β : Type} : AwaitState β → Bool
  | .returned _ => true
  | _ => false

/-- The steps of an operation that come after its task's future is gone: the
task ends, or has been aborted and joined. -/
def AwaitAction.endsTask {β : Type} : AwaitAction β → Bool
  | .op (.finish _) | .op .join => true
  | _ => false

/-- The categories of the errors a running send, receive or accept ends with. -/
def taskCategories : List Category :=
  [.peerAborted, .closed, .refused, .unauthorized, .capacity, .cancelled]

/-- A task ends with a value, with one of its errors, or by panicking. -/
def AwaitAction.isKnown {β : Type} : AwaitAction β → Bool
  | .op (.finish (.error e)) => e.category ∈ taskCategories
  | _ => true

section System

variable {σ ι A β : Type} [DecidableEq ι]

/-- A native function that has come to its end returns to the process. -/
def UserStage.after (user : UserStage ι) (i : ι) (phase : CallPhase) : UserStage ι :=
  if phase.isOver ∧ (user = .calling i ∨ user = .dropping i) then .idle else user

/-- A call goes on in the native function until its future is made, while that
is dropped there, or in its task. -/
def SoleUser.mayStep (g : Guarded σ ι A) (s : SoleUser σ ι β) (i : ι) : Prop :=
  (s.user = .calling i ∧ (g.phase s.resource i).isRunning = false) ∨ s.user = .dropping i ∨
    (s.awaits i).isSome

instance (g : Guarded σ ι A) (s : SoleUser σ ι β) (i : ι) : Decidable (s.mayStep g i) :=
  inferInstanceAs (Decidable (_ ∨ _ ∨ _))

/-- One step; `name` is what the operations of a call are named. -/
def soleStep (g : Guarded σ ι A) (name : ι → OperationName) (s : SoleUser σ ι β) :
    SoleAction ι A β → Option (SoleUser σ ι β)
  | .begin a =>
      if s.user = .idle ∧ g.phase s.resource (g.caller a) = .fresh then
        (g.step s.resource a).map fun r =>
          { s with
            resource := r
            user := (UserStage.calling (g.caller a)).after (g.caller a) (g.phase r (g.caller a)) }
      else none
  | .step a =>
      if s.mayStep g (g.caller a) then
        (g.step s.resource a).map fun r =>
          { s with
            resource := r
            user := s.user.after (g.caller a) (g.phase r (g.caller a)) }
      else none
  | .start i ok =>
      if s.user = .calling i ∧ (g.phase s.resource i).isRunning = true then
        if ok then
          some { s with
            user := .awaiting i
            awaits := Function.update s.awaits i (some (.start (.endpoint (name i)))) }
        else some { s with user := .dropping i }
      else none
  | .await i a =>
      match s.awaits i with
      | some w =>
          if (a.endsTask = true → (g.phase s.resource i).isOver = true) ∧ a.isKnown = true then
            (awaitStep w a).map fun w' =>
              { s with
                awaits := Function.update s.awaits i (some w')
                user := if s.user = .awaiting i ∧ w'.caller.isReturned then .idle else s.user }
          else none
      | none => none

/-- A call that timed out. -/
def SoleUser.TimedOut (s : SoleUser σ ι β) (i : ι) : Prop :=
  ∃ w, s.awaits i = some w ∧ w.caller = .returned .timedOut

/-- The side condition: when a call looks at the guard, every call that timed
out has dropped it. -/
def WaitsForDrop (g : Guarded σ ι A) (s : SoleUser σ ι β) : SoleAction ι A β → Prop
  | .begin a | .step a =>
      g.checks a = true → ∀ j, s.TimedOut j → ¬ (g.phase s.resource j).Claims
  | _ => True

/-- No call has returned an error of category `busy`: none was refused with one
by the native function, and none has received one. -/
structure SoleUser.NeverBusy (g : Guarded σ ι A) (s : SoleUser σ ι β) : Prop where
  refused : ∀ i, ¬ (g.phase s.resource i).Busy
  failed : ∀ i w e, s.awaits i = some w → w.caller = .returned (.error e) → e.category ≠ .busy

/-- Every step of the system. -/
inductive SoleMove (g : Guarded σ ι A) (name : ι → OperationName) (s : SoleUser σ ι β) :
    SoleAction ι A β → SoleUser σ ι β → Prop
  | begin {a r} : s.user = .idle → g.phase s.resource (g.caller a) = .fresh →
      g.step s.resource a = some r →
      SoleMove g name s (.begin a)
        { s with
          resource := r
          user := (UserStage.calling (g.caller a)).after (g.caller a) (g.phase r (g.caller a)) }
  | step {a r} : s.mayStep g (g.caller a) → g.step s.resource a = some r →
      SoleMove g name s (.step a)
        { s with resource := r, user := s.user.after (g.caller a) (g.phase r (g.caller a)) }
  | start {i} : s.user = .calling i → (g.phase s.resource i).isRunning = true →
      SoleMove g name s (.start i true)
        { s with
          user := .awaiting i
          awaits := Function.update s.awaits i (some (.start (.endpoint (name i)))) }
  | drop {i} : s.user = .calling i → SoleMove g name s (.start i false) { s with user := .dropping i }
  | await {i a w w'} : s.awaits i = some w →
      (a.endsTask = true → (g.phase s.resource i).isOver = true) → a.isKnown = true →
      awaitStep w a = some w' →
      SoleMove g name s (.await i a)
        { s with
          awaits := Function.update s.awaits i (some w')
          user := if s.user = .awaiting i ∧ w'.caller.isReturned then .idle else s.user }

theorem soleStep_move {g : Guarded σ ι A} {name : ι → OperationName} {s s' : SoleUser σ ι β}
    {a : SoleAction ι A β} (h : soleStep g name s a = some s') : SoleMove g name s a s' := by
  cases a with
  | begin a =>
      simp only [soleStep] at h
      split at h
      · next hguard =>
          obtain ⟨r, hr, rfl⟩ := Option.map_eq_some_iff.mp h
          exact .begin hguard.1 hguard.2 hr
      · cases h
  | step a =>
      simp only [soleStep] at h
      split at h
      · next hmay =>
          obtain ⟨r, hr, rfl⟩ := Option.map_eq_some_iff.mp h
          exact .step hmay hr
      · cases h
  | start i ok =>
      simp only [soleStep] at h
      split at h
      · next hguard =>
          cases ok with
          | false => exact Option.some.inj h ▸ .drop hguard.1
          | true => exact Option.some.inj h ▸ .start hguard.1 hguard.2
      · cases h
  | await i a =>
      simp only [soleStep] at h
      split at h
      · next w hw =>
          split at h
          · next hends =>
              obtain ⟨w', hw', rfl⟩ := Option.map_eq_some_iff.mp h
              exact .await hw hends.1 hends.2 hw'
          · cases h
      · cases h

end System

/-! ### An operation and its task -/

section Task

variable {β : Type}

/-- The spawned task is gone. -/
def TaskState.isOver : TaskState β → Bool
  | .running => false
  | _ => true

/-- The supervisor is waiting for the task, or for its end. -/
def Phase.waits : Phase β → Bool
  | .selecting | .aborting => true
  | _ => false

/-- The supervisor goes on, and sends, only when the task is gone. -/
structure Operation.Joins (o : Operation β) : Prop where
  spawns : o.kind.spawns = true
  task : o.phase.waits = false → o.task.isOver = true
  sent : o.sent ≠ [] → o.phase.waits = false

theorem start_joins (name : OperationName) :
    (Operation.start (.endpoint name) : Operation β).Joins where
  spawns := rfl
  task h := by cases h
  sent h := absurd rfl h

/-- A cancellation leaves the tasks alone. -/
theorem Operation.Joins.cancel {o : Operation β} (h : o.Joins) : o.cancel.Joins := by
  unfold Operation.cancel
  split
  · exact ⟨h.spawns, h.task, h.sent⟩
  · exact h

theorem TaskState.abort_isOver (task : TaskState β) : task.abort.isOver = true := by
  cases task <;> rfl

/-- A step of the operation keeps this; and the task is gone after it only if it
was before, or the step ends it. -/
theorem opStep_joins {o o' : Operation β} {a : OpAction β} (ho : o.Joins)
    (h : opStep o a = some o') :
    o'.Joins ∧ (o'.task.isOver = true → o.task.isOver = true ∨
      (AwaitAction.op a).endsTask = true) := by
  cases opStep_cases h with
  | finish htask => exact ⟨⟨ho.spawns, fun _ => rfl, ho.sent⟩, fun _ => .inr rfl⟩
  | cancel =>
      refine ⟨ho.cancel, ?_⟩
      rw [o.cancel_frame.2.1]
      exact .inl
  | down _ =>
      refine ⟨⟨ho.cancel.spawns, ho.cancel.task, ho.cancel.sent⟩, ?_⟩
      show o.cancel.task.isOver = true → _
      rw [o.cancel_frame.2.1]
      exact .inl
  | notify _ => exact ⟨⟨ho.spawns, ho.task, ho.sent⟩, .inl⟩
  | selectTask hphase htask =>
      exact ⟨⟨ho.spawns, fun _ => by rw [htask]; rfl, fun _ => rfl⟩, .inl⟩
  | selectCancelled hphase _ =>
      rw [if_pos ho.spawns]
      refine ⟨⟨ho.spawns, fun h => (by cases h), ?_⟩, .inl⟩
      intro hsent
      have hwaits := ho.sent hsent
      rw [hphase] at hwaits
      cases hwaits
  | join hphase =>
      refine ⟨⟨ho.spawns, fun _ => o.task.abort_isOver, fun _ => rfl⟩, fun _ => .inr rfl⟩
  | complete hphase _ =>
      exact ⟨⟨ho.spawns, fun _ => ho.task (by rw [hphase]; rfl), fun _ => rfl⟩, .inl⟩
  | giveUp hphase _ =>
      exact ⟨⟨ho.spawns, fun _ => ho.task (by rw [hphase]; rfl), fun _ => rfl⟩, .inl⟩
  | send hphase =>
      exact ⟨⟨ho.spawns, fun _ => ho.task (by rw [hphase]; rfl), fun _ => rfl⟩, .inl⟩
  | demonitor hphase =>
      exact ⟨⟨ho.spawns, fun _ => ho.task (by rw [hphase]; rfl), fun _ => rfl⟩, .inl⟩
  | release hphase =>
      exact ⟨⟨ho.spawns, fun _ => ho.task (by rw [hphase]; rfl), fun _ => rfl⟩, .inl⟩

/-- The result the supervisor has and has not told. -/
def Phase.untold : Phase β → Option (TaskResult β)
  | .deciding result | .sending result => result
  | _ => none

/-- What the supervisor has to tell is no error of category `busy`. -/
structure Operation.NotBusy (o : Operation β) : Prop where
  task : ∀ e, o.task = .finished (.error e) → e.category ≠ .busy
  phase : ∀ e, o.phase.untold = some (.error e) → e.category ≠ .busy
  sent : ∀ e, .error e ∈ o.sent → e.category ≠ .busy

theorem start_notBusy (kind : OperationKind β) : (Operation.start kind).NotBusy where
  task _ h := by cases h
  phase _ h := by cases h
  sent _ h := absurd h List.not_mem_nil

theorem Operation.NotBusy.cancel {o : Operation β} (h : o.NotBusy) : o.cancel.NotBusy := by
  unfold Operation.cancel
  split
  · exact ⟨h.task, h.phase, h.sent⟩
  · exact h

/-- The errors the supervisor makes up are of other categories. -/
theorem operationResult_notBusy {kind : OperationKind β} (hkind : kind.spawns = true)
    {result : Option (TaskResult β)} {alive : Bool}
    (hresult : ∀ e, result = some (.error e) → e.category ≠ .busy) {e : Error}
    (he : operationResult kind result alive = .error e) : e.category ≠ .busy := by
  rcases kind with name | - | outcome
  · rcases result with - | (v | e' | -)
    · cases he; exact Category.noConfusion
    · cases he
    · cases he; exact hresult e rfl
    · cases he; exact Category.noConfusion
  · rcases result with - | (v | e' | -)
    · cases he; exact Category.noConfusion
    · cases alive <;> cases he; exact Category.noConfusion
    · cases he; exact Category.noConfusion
    · cases he; exact Category.noConfusion
  · cases hkind

theorem opStep_notBusy {o o' : Operation β} {a : OpAction β} (ho : o.NotBusy)
    (hkind : o.kind.spawns = true) (hknown : (AwaitAction.op a).isKnown = true)
    (h : opStep o a = some o') : o'.NotBusy := by
  cases opStep_cases h with
  | @finish result htask =>
      refine ⟨?_, ho.phase, ho.sent⟩
      rintro e heq
      cases heq
      have hmem : e.category ∈ taskCategories := of_decide_eq_true hknown
      intro hbusy
      rw [hbusy] at hmem
      exact absurd hmem (by decide)
  | cancel => exact ho.cancel
  | down _ => exact ⟨ho.cancel.task, ho.cancel.phase, ho.cancel.sent⟩
  | notify _ => exact ⟨ho.task, ho.phase, ho.sent⟩
  | selectTask hphase htask =>
      refine ⟨ho.task, ?_, ho.sent⟩
      intro e heq
      cases heq
      exact ho.task e htask
  | selectCancelled hphase _ =>
      rw [if_pos hkind]
      exact ⟨ho.task, fun _ h => (by cases h), ho.sent⟩
  | join hphase =>
      refine ⟨?_, fun _ h => (by cases h), ho.sent⟩
      intro e heq
      apply ho.task e
      cases htask : o.task with
      | running => simp [htask, TaskState.abort] at heq
      | finished r => simpa [htask, TaskState.abort] using heq
      | aborted => simp [htask, TaskState.abort] at heq
  | complete hphase _ =>
      refine ⟨ho.task, ?_, ho.sent⟩
      intro e heq
      apply ho.phase e
      rw [hphase]
      exact heq
  | giveUp hphase _ =>
      exact ⟨ho.task, fun _ h => (by cases h), ho.sent⟩
  | @send result alive hphase =>
      refine ⟨ho.task, fun _ h => (by cases h), ?_⟩
      intro e he
      rcases List.mem_append.mp he with he | he
      · exact ho.sent e he
      · refine operationResult_notBusy hkind ?_ (List.mem_singleton.mp he).symm
        rintro e' rfl
        exact ho.phase e' (by rw [hphase]; rfl)
  | demonitor hphase =>
      exact ⟨ho.task, fun _ h => (by cases h), ho.sent⟩
  | release hphase =>
      exact ⟨ho.task, fun _ h => (by cases h), ho.sent⟩

/-- The operation of a call, with the phase of the call: the future is gone
once the task is, so once the process has its message. -/
structure Await.Coupled (w : Await β) (phase : CallPhase) : Prop where
  inv : w.Inv
  joins : w.op.Joins
  notBusy : w.op.NotBusy
  started : phase.isRunning = true ∨ phase.isOver = true
  task : w.op.task.isOver = true → phase.isOver = true
  received : w.caller.received = true → phase.isOver = true
  failed : ∀ e, w.caller = .returned (.error e) → e.category ≠ .busy

theorem start_coupled (name : OperationName) {phase : CallPhase} (h : phase.isRunning = true) :
    (Await.start (.endpoint name) : Await β).Coupled phase where
  inv := Await.start_inv _
  joins := start_joins name
  notBusy := start_notBusy _
  started := .inl h
  task h := by cases h
  received h := by cases h
  failed _ h := by cases h

/-- A step of the operation or of the process waiting for it. -/
theorem Await.Coupled.step {w w' : Await β} {phase : CallPhase} {a : AwaitAction β}
    (hw : w.Coupled phase) (hends : a.endsTask = true → phase.isOver = true)
    (hknown : a.isKnown = true) (h : awaitStep w a = some w') : w'.Coupled phase := by
  have hinv := awaitStep_inv w a w' hw.inv h
  cases awaitStep_cases h with
  | op hop _ =>
      obtain ⟨hjoins, htask⟩ := opStep_joins hw.joins hop
      refine ⟨hinv, hjoins, opStep_notBusy hw.notBusy hw.joins.spawns hknown hop, hw.started, ?_,
        hw.received, hw.failed⟩
      intro hover
      rcases htask hover with hover | hover
      · exact hw.task hover
      · exact hends hover
  | @receive m rest hcaller hbox =>
      -- the message was sent by the supervisor, which had joined the task
      have hsent : w.op.sent = m :: rest := by
        rw [← hw.inv.mailbox (by rw [hcaller]; rfl), hbox]
      have hover : phase.isOver = true :=
        hw.task (hw.joins.task (hw.joins.sent (by rw [hsent]; exact List.cons_ne_nil _ _)))
      refine ⟨hinv, hw.joins, hw.notBusy, hw.started, hw.task, fun _ => hover, ?_⟩
      intro e he
      cases m with
      | ok v => cases he
      | error e' =>
          cases he
          exact hw.notBusy.sent e (by rw [hsent]; exact List.mem_cons_self)
  | timeout _ _ =>
      exact ⟨hinv, hw.joins, hw.notBusy, hw.started, hw.task, fun h => (by cases h),
        fun _ h => (by cases h)⟩
  | win _ _ =>
      refine ⟨hinv, hw.joins.cancel, hw.notBusy.cancel, hw.started, ?_, fun h => (by cases h),
        fun _ h => (by cases h)⟩
      show w.op.cancel.task.isOver = true → _
      rw [w.op.cancel_frame.2.1]
      exact hw.task
  | lose _ _ =>
      exact ⟨hinv, hw.joins, hw.notBusy, hw.started, hw.task, fun h => (by cases h),
        fun _ h => (by cases h)⟩
  | notify _ hop _ =>
      obtain ⟨hjoins, htask⟩ := opStep_joins hw.joins hop
      refine ⟨hinv, hjoins, opStep_notBusy hw.notBusy hw.joins.spawns rfl hop, hw.started, ?_,
        fun h => (by cases h), fun _ h => (by cases h)⟩
      intro hover
      rcases htask hover with hover | hover
      · exact hw.task hover
      · cases hover

/-- A process that has returned without the call being over has timed out. -/
theorem Await.Coupled.timedOut {w : Await β} {phase : CallPhase} (hw : w.Coupled phase)
    {result : AwaitResult β} (hcaller : w.caller = .returned result)
    (hnot : phase.isOver = false) : result = .timedOut := by
  have hreceived : w.caller.received = false := by
    by_contra h
    rw [hw.received (by simpa using h)] at hnot
    cases hnot
  rw [hcaller] at hreceived
  cases result <;> first | rfl | cases hreceived

/-- A process that has returned stays so. -/
theorem awaitStep_returned {w w' : Await β} {a : AwaitAction β} {result : AwaitResult β}
    (hcaller : w.caller = .returned result) (h : awaitStep w a = some w') :
    w'.caller = .returned result := by
  cases awaitStep_cases h with
  | op _ _ => exact hcaller
  | receive hc _ => rw [hcaller] at hc; cases hc
  | timeout hc _ => rw [hcaller] at hc; cases hc
  | win hc _ => rw [hcaller] at hc; cases hc
  | lose hc _ => rw [hcaller] at hc; cases hc
  | notify hc _ _ => rw [hcaller] at hc; cases hc

end Task

/-! ### The invariant -/

section Invariant

variable {σ ι A β : Type} [DecidableEq ι]

/-- Who has the guard: the call the process is in, or one that timed out. -/
structure SoleUser.Inv (g : Guarded σ ι A) (I : σ → Prop) (s : SoleUser σ ι β) : Prop where
  resource : I s.resource
  awaits : ∀ i w, s.awaits i = some w → w.Coupled (g.phase s.resource i)
  awaiting : ∀ i, s.user = .awaiting i → (s.awaits i).isSome
  claims : ∀ i, (g.phase s.resource i).Claims →
    s.user = .calling i ∨ s.user = .dropping i ∨ s.user = .awaiting i ∨ s.TimedOut i

theorem CallPhase.Claims.not_over {phase : CallPhase} (h : phase.Claims) : phase.isOver = false := by
  cases phase <;> first | rfl | exact h.elim

/-- A step of a call whose task runs, or that is over. -/
theorem CallPhase.Next.started {old new : CallPhase} (h : old.Next new)
    (hold : old.isRunning = true ∨ old.isOver = true) :
    old.isOver = false ∧ (new.isRunning = true ∨ new.isOver = true) ∧
      (new.Claims → old.Claims) := by
  cases h with
  | begin _ => rcases hold with hold | hold <;> cases hold
  | call _ => rcases hold with hold | hold <;> cases hold
  | task hclaims => exact ⟨rfl, .inl rfl, hclaims⟩
  | finish => exact ⟨rfl, .inr rfl, fun h => h.elim⟩

/-- The other calls do not see a step. -/
theorem SoleUser.Inv.coupled_step {g : Guarded σ ι A} {I : σ → Prop} (hg : g.Lawful I)
    {s : SoleUser σ ι β} (hs : s.Inv g I) {a : A} {r : σ} (hstep : g.step s.resource a = some r)
    (i : ι) (w : Await β) (hw : s.awaits i = some w) : w.Coupled (g.phase r i) := by
  have hc := hs.awaits i w hw
  by_cases hi : i = g.caller a
  · subst hi
    obtain ⟨hnot, hstarted, -⟩ := (hg.next hs.resource hstep).started hc.started
    refine ⟨hc.inv, hc.joins, hc.notBusy, hstarted, ?_, ?_, hc.failed⟩
    · intro htask
      rw [hc.task htask] at hnot
      cases hnot
    · intro hreceived
      rw [hc.received hreceived] at hnot
      cases hnot
  · rw [hg.others hstep i hi]
    exact hc

/-- The process returns from the native function only when the call is over. -/
theorem UserStage.after_cases (user : UserStage ι) (i : ι) (phase : CallPhase) :
    user.after i phase = user ∨ phase.isOver = true ∧ user.after i phase = .idle := by
  unfold UserStage.after
  split
  · next h => exact .inr ⟨h.1, rfl⟩
  · exact .inl rfl

theorem UserStage.after_of_not_over {user : UserStage ι} {i : ι} {phase : CallPhase}
    (h : phase.isOver = false) : user.after i phase = user := by
  rcases user.after_cases i phase with hafter | ⟨hover, -⟩
  · exact hafter
  · rw [h] at hover
    cases hover

theorem UserStage.after_of_ne {user : UserStage ι} {i : ι} {phase : CallPhase}
    (hcalling : user ≠ .calling i) (hdropping : user ≠ .dropping i) :
    user.after i phase = user := by
  unfold UserStage.after
  rw [if_neg]
  rintro ⟨-, h | h⟩
  · exact hcalling h
  · exact hdropping h

section Step

variable {g : Guarded σ ι A} {I : σ → Prop} {name : ι → OperationName} {s s' : SoleUser σ ι β}

/-- The process begins a call. -/
theorem SoleUser.Inv.begin (hg : g.Lawful I) (hs : s.Inv g I) {a : A} {r : σ}
    (huser : s.user = .idle) (hstep : g.step s.resource a = some r) :
    SoleUser.Inv g I { s with
      resource := r
      user := (UserStage.calling (g.caller a)).after (g.caller a) (g.phase r (g.caller a)) } where
  resource := hg.keeps hs.resource hstep
  awaits := hs.coupled_step hg hstep
  awaiting i hi := by
    rcases (UserStage.calling (g.caller a)).after_cases (g.caller a) (g.phase r (g.caller a))
      with h | ⟨-, h⟩
    · cases h.symm.trans hi
    · cases h.symm.trans hi
  claims i hi := by
    by_cases hcaller : i = g.caller a
    · subst hcaller
      exact .inl (UserStage.after_of_not_over hi.not_over)
    · -- the others have what they had, and the process was in none of their calls
      have hold := hs.claims i (hg.others hstep i hcaller ▸ hi)
      rw [huser] at hold
      rcases hold with h | h | h | h
      · cases h
      · cases h
      · cases h
      · exact .inr (.inr (.inr h))

/-- A call takes a step, in the native function or in its task. -/
theorem SoleUser.Inv.step (hg : g.Lawful I) (hs : s.Inv g I) {a : A} {r : σ}
    (hmay : s.mayStep g (g.caller a)) (hstep : g.step s.resource a = some r) :
    SoleUser.Inv g I { s with
      resource := r
      user := s.user.after (g.caller a) (g.phase r (g.caller a)) } where
  resource := hg.keeps hs.resource hstep
  awaits := hs.coupled_step hg hstep
  awaiting i hi := by
    rcases s.user.after_cases (g.caller a) (g.phase r (g.caller a)) with h | ⟨-, h⟩
    · exact hs.awaiting i (h.symm.trans hi)
    · cases h.symm.trans hi
  claims i hi := by
    show s.user.after (g.caller a) (g.phase r (g.caller a)) = _ ∨
      s.user.after (g.caller a) (g.phase r (g.caller a)) = _ ∨
      s.user.after (g.caller a) (g.phase r (g.caller a)) = _ ∨ s.TimedOut i
    by_cases hcaller : i = g.caller a
    · subst hcaller
      rw [UserStage.after_of_not_over hi.not_over]
      rcases hmay with ⟨huser, -⟩ | huser | hsome
      · exact .inl huser
      · exact .inr (.inl huser)
      · -- a task does not take the guard, it had it before
        obtain ⟨w, hw⟩ := Option.isSome_iff_exists.mp hsome
        exact hs.claims _ (((hg.next hs.resource hstep).started (hs.awaits _ w hw).started).2.2 hi)
    · have hkeep : ∀ {user : UserStage ι}, s.user = user → user ≠ .calling (g.caller a) →
          user ≠ .dropping (g.caller a) →
          s.user.after (g.caller a) (g.phase r (g.caller a)) = user := by
        rintro user rfl hc hd
        exact UserStage.after_of_ne hc hd
      rcases hs.claims i (hg.others hstep i hcaller ▸ hi) with h | h | h | h
      · exact .inl (hkeep h (fun he => hcaller (UserStage.calling.inj he)) (by simp))
      · exact .inr (.inl
          (hkeep h (by simp) fun he => hcaller (UserStage.dropping.inj he)))
      · exact .inr (.inr (.inl (hkeep h (by simp) (by simp))))
      · exact .inr (.inr (.inr h))

/-- The operation of the call starts. -/
theorem SoleUser.Inv.start (hs : s.Inv g I) {i : ι} (huser : s.user = .calling i)
    (hrunning : (g.phase s.resource i).isRunning = true) :
    SoleUser.Inv g I { s with
      user := .awaiting i
      awaits := Function.update s.awaits i (some (.start (.endpoint (name i)))) } where
  resource := hs.resource
  awaits j w hw := by
    by_cases hj : j = i
    · subst hj
      simp only [Function.update_self, Option.some.injEq] at hw
      exact hw ▸ start_coupled (name j) hrunning
    · simp only [Function.update_of_ne hj] at hw
      exact hs.awaits j w hw
  awaiting j hj := by
    obtain rfl := UserStage.awaiting.inj hj
    simp
  claims j hj := by
    by_cases hji : j = i
    · exact .inr (.inr (.inl (by rw [hji])))
    · rcases hs.claims j hj with h | h | h | ⟨w, hw, hc⟩
      · exact absurd (UserStage.calling.inj (huser.symm.trans h)).symm hji
      · cases huser.symm.trans h
      · cases huser.symm.trans h
      · exact .inr (.inr (.inr ⟨w, (Function.update_of_ne hji _ _).trans hw, hc⟩))

omit [DecidableEq ι] in
/-- No task could be started. -/
theorem SoleUser.Inv.drop (hs : s.Inv g I) {i : ι} (huser : s.user = .calling i) :
    SoleUser.Inv g I { s with user := .dropping i } where
  resource := hs.resource
  awaits := hs.awaits
  awaiting j hj := by cases hj
  claims j hj := by
    rcases hs.claims j hj with h | h | h | h
    · exact .inr (.inl (congrArg _ (UserStage.calling.inj (huser.symm.trans h))))
    · cases huser.symm.trans h
    · cases huser.symm.trans h
    · exact .inr (.inr (.inr h))

/-- A step of an operation, or of the process waiting for it: it returns with
the guard given back, or timed out. -/
theorem SoleUser.Inv.await (hs : s.Inv g I) {i : ι} {a : AwaitAction β} {w w' : Await β}
    (hw : s.awaits i = some w) (hends : a.endsTask = true → (g.phase s.resource i).isOver = true)
    (hknown : a.isKnown = true) (hstep : awaitStep w a = some w') :
    SoleUser.Inv g I { s with
      awaits := Function.update s.awaits i (some w')
      user := if s.user = .awaiting i ∧ w'.caller.isReturned then .idle else s.user } := by
  have hcoupled : w'.Coupled (g.phase s.resource i) := (hs.awaits i w hw).step hends hknown hstep
  have hkeep : ∀ {user : UserStage ι}, s.user = user → user ≠ .awaiting i →
      (if s.user = .awaiting i ∧ w'.caller.isReturned then .idle else s.user) = user := by
    rintro user rfl hne
    exact if_neg fun h => hne h.1
  refine ⟨hs.resource, ?_, ?_, ?_⟩
  · intro j v hv
    by_cases hj : j = i
    · subst hj
      simp only [Function.update_self, Option.some.injEq] at hv
      exact hv ▸ hcoupled
    · simp only [Function.update_of_ne hj] at hv
      exact hs.awaits j v hv
  · intro j hj
    by_cases hji : j = i
    · simp [hji]
    · simp only [Function.update_of_ne hji]
      apply hs.awaiting j
      simp only at hj
      split at hj
      · cases hj
      · exact hj
  · intro j hj
    simp only
    rcases hs.claims j hj with h | h | h | ⟨v, hv, hc⟩
    · exact .inl (hkeep h (by simp))
    · exact .inr (.inl (hkeep h (by simp)))
    · by_cases hji : j = i
      · subst hji
        cases hcaller : w'.caller with
        | returned result =>
            obtain rfl := hcoupled.timedOut hcaller hj.not_over
            exact .inr (.inr (.inr ⟨w', Function.update_self .., hcaller⟩))
        | _ => exact .inr (.inr (.inl ((if_neg (by simp [AwaitState.isReturned])).trans h)))
      · exact .inr (.inr (.inl (hkeep h fun he => hji (UserStage.awaiting.inj he))))
    · by_cases hji : j = i
      · subst hji
        obtain rfl := Option.some.inj (hw.symm.trans hv)
        exact .inr (.inr (.inr ⟨w', Function.update_self .., awaitStep_returned hc hstep⟩))
      · exact .inr (.inr (.inr ⟨v, (Function.update_of_ne hji _ _).trans hv, hc⟩))

/-- Every step keeps the invariant. -/
theorem soleStep_inv (hg : g.Lawful I) (s : SoleUser σ ι β) (a : SoleAction ι A β)
    (s' : SoleUser σ ι β) (hs : s.Inv g I) (h : soleStep g name s a = some s') : s'.Inv g I := by
  cases soleStep_move h with
  | begin huser _ hstep => exact hs.begin hg huser hstep
  | step hmay hstep => exact hs.step hg hmay hstep
  | start huser hrunning => exact hs.start huser hrunning
  | drop huser => exact hs.drop huser
  | await hw hends hknown hstep => exact hs.await hw hends hknown hstep

omit [DecidableEq ι] in
theorem SoleUser.start_inv {r : σ} (hI : I r) (hfresh : ∀ i, g.phase r i = .fresh) :
    (SoleUser.start r : SoleUser σ ι β).Inv g I where
  resource := hI
  awaits i w hw := by cases hw
  awaiting i hi := by cases hi
  claims i hi := by
    rw [show g.phase (SoleUser.start r : SoleUser σ ι β).resource i = .fresh from hfresh i] at hi
    exact hi.elim

end Step

end Invariant

/-! ### Who is refused -/

section Busy

variable {σ ι A β : Type} [DecidableEq ι]
variable {g : Guarded σ ι A} {I : σ → Prop} {name : ι → OperationName} {s s' : SoleUser σ ι β}

omit [DecidableEq ι] in
/-- What a call receives is no error of category `busy`. -/
theorem SoleUser.Inv.neverBusy_iff (hs : s.Inv g I) :
    s.NeverBusy g ↔ ∀ i, ¬ (g.phase s.resource i).Busy := by
  refine ⟨fun h => h.refused, fun h => ⟨h, ?_⟩⟩
  intro i w e hw
  exact (hs.awaits i w hw).failed e

theorem CallPhase.Next.not_busy {old new : CallPhase} (h : old.Next new) : ¬ old.Busy := by
  cases h <;> exact id

omit [DecidableEq ι] in
/-- A step refuses its own call or none. -/
theorem Guarded.Lawful.busy_iff (hg : g.Lawful I) {r r' : σ} {a : A} (hr : I r)
    (hstep : g.step r a = some r') :
    (∀ i, ¬ (g.phase r' i).Busy) ↔
      (∀ i, ¬ (g.phase r i).Busy) ∧ ¬ (g.checks a = true ∧ ∃ j, (g.phase r j).Claims) := by
  constructor
  · intro h
    refine ⟨?_, fun hbusy => h (g.caller a) ((hg.busy hr hstep).mpr hbusy)⟩
    intro i
    by_cases hi : i = g.caller a
    · subst hi
      exact (hg.next hr hstep).not_busy
    · rw [← hg.others hstep i hi]
      exact h i
  · rintro ⟨h, hfree⟩ i
    by_cases hi : i = g.caller a
    · subst hi
      exact fun hbusy => hfree ((hg.busy hr hstep).mp hbusy)
    · rw [hg.others hstep i hi]
      exact h i

omit [DecidableEq ι] in
/-- When a call looks at the guard, nobody has it but calls that timed out. -/
theorem SoleUser.Inv.timedOut_of_claims (hs : s.Inv g I) {i j : ι} (hj : (g.phase s.resource j).Claims)
    (hi : ¬ (g.phase s.resource i).Claims)
    (huser : s.user = .idle ∨ s.user = .calling i ∨ s.user = .dropping i) : s.TimedOut j := by
  have hne : i ≠ j := by
    rintro rfl
    exact hi hj
  rcases hs.claims j hj with h | h | h | h
  · rw [h] at huser
    simp [hne.symm] at huser
  · rw [h] at huser
    simp [hne.symm] at huser
  · rw [h] at huser
    simp at huser
  · exact h

/-- **A step of the sole user.**  It leads to a refusal exactly if a call looks
at the guard while one that timed out still has it. -/
theorem soleStep_busy_iff (hg : g.Lawful I) (s : SoleUser σ ι β) (a : SoleAction ι A β)
    (s' : SoleUser σ ι β) (hs : s.Inv g I) (h : soleStep g name s a = some s') :
    s'.NeverBusy g ↔ s.NeverBusy g ∧ WaitsForDrop g s a := by
  have hs' : s'.Inv g I := soleStep_inv hg s a s' hs h
  rw [hs'.neverBusy_iff, hs.neverBusy_iff]
  have hchecked : ∀ {a : A} {r : σ}, g.step s.resource a = some r →
      (g.checks a = true → s.user = .idle ∨ s.user = .calling (g.caller a) ∨
        s.user = .dropping (g.caller a)) →
      ((∀ i, ¬ (g.phase r i).Busy) ↔ (∀ i, ¬ (g.phase s.resource i).Busy) ∧
        (g.checks a = true → ∀ j, s.TimedOut j → ¬ (g.phase s.resource j).Claims)) := by
    intro a r hstep huser
    rw [hg.busy_iff hs.resource hstep]
    refine and_congr_right fun _ => ⟨?_, ?_⟩
    · intro hfree hchecks j _ hclaims
      exact hfree ⟨hchecks, j, hclaims⟩
    · rintro hwaits ⟨hchecks, j, hclaims⟩
      -- the call itself does not have the guard yet
      have hearly : ¬ (g.phase s.resource (g.caller a)).Claims := by
        rcases hg.early hstep hchecks with h | h <;> rw [h]
        · exact id
        · exact Bool.false_ne_true
      exact hwaits hchecks j (hs.timedOut_of_claims hclaims hearly (huser hchecks)) hclaims
  cases soleStep_move h with
  | begin huser _ hstep => exact hchecked hstep fun _ => .inl huser
  | step hmay hstep =>
      apply hchecked hstep
      intro hchecks
      rcases hmay with ⟨huser, -⟩ | huser | hsome
      · exact .inr (.inl huser)
      · exact .inr (.inr huser)
      · -- a running task does not look at the guard
        exfalso
        obtain ⟨w, hw⟩ := Option.isSome_iff_exists.mp hsome
        have hstarted := (hs.awaits _ w hw).started
        rcases hg.early hstep hchecks with h | h <;> rw [h] at hstarted <;>
          rcases hstarted with h | h <;> cases h
  | start _ _ => exact (and_iff_left trivial).symm
  | drop _ => exact (and_iff_left trivial).symm
  | await _ _ _ _ => exact (and_iff_left trivial).symm

/-- **A run of the sole user** refuses no call exactly if each call that looks
at the guard does so when those that timed out have dropped it. -/
theorem soleRun_busy_iff (hg : g.Lawful I) {r : σ} (hI : I r) (hfresh : ∀ i, g.phase r i = .fresh)
    {as : List (SoleAction ι A β)} (h : run (soleStep g name) (.start r) as = some s) :
    s.NeverBusy g ↔ Meets (soleStep g name) (WaitsForDrop g) (.start r) as := by
  have hstart : (SoleUser.start r : SoleUser σ ι β).Inv g I := SoleUser.start_inv hI hfresh
  rw [run_iff_meets (soleStep_inv hg) (soleStep_busy_iff hg) h hstart, hstart.neverBusy_iff]
  apply and_iff_right
  intro i
  rw [show g.phase (SoleUser.start r : SoleUser σ ι β).resource i = .fresh from hfresh i]
  exact id

end Busy

end IrohBeam
