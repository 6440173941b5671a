/-
IrohBeam/Await.lean

Waiting for a native operation with a timeout: `await_operation/4`, the same
text in `lib/iroh_beam/connection.ex`, `stream.ex` and `endpoint.ex`.

    receive  {Native, ref, result} -> result
    after    timeout -> Native.operation_cancel(operation); {:error, timeout}

The system is one operation, the caller's mailbox as far as it concerns that
operation's reference, and the caller.  `operation_cancel` returns `false` when
the operation has already been completed, and the caller ignores it; so a
timeout reported to the caller means that no result can turn up later exactly
when the swap found the operation not completed (`timeout_strands_nothing_iff`).
`late_result_stranded` is the run in which it does.
-/
import IrohBeam.Operation

namespace IrohBeam

open Transition

variable {β : Type}

/-! ### The system -/

/-- What `await_operation/4` returns. -/
inductive AwaitResult (β : Type) where
  | ok (value : β)
  | error (error : Error)
  | timedOut

/-- Where the caller is: in its `receive`, between the timeout and
`operation_cancel`, between a swap it has won and `notify_one`, or back. -/
inductive AwaitState (β : Type) where
  | receiving
  | cancelling
  | notifying
  | returned (result : AwaitResult β)

/-- One operation, the messages for its reference, and its caller. -/
structure Await (β : Type) where
  op : Operation β
  mailbox : List (Except Error β)
  caller : AwaitState β

def Await.start (kind : OperationKind β) : Await β := ⟨.start kind, [], .receiving⟩

/-- A step of the operation's own parties or of the caller. -/
inductive AwaitAction (β : Type) where
  | op (action : OpAction β)
  | receive
  | timeout
  | cancel
  | notify

/-- The result a message carries. -/
def AwaitResult.ofMessage : Except Error β → AwaitResult β
  | .ok value => .ok value
  | .error e => .error e

/-- Whether a step of the operation can be somebody else's: the caller is
alive, so its death is not reported, and a caller that has won the swap is the
one to notify. -/
def AwaitState.allows : AwaitState β → OpAction β → Bool
  | _, .down => false
  | .notifying, .notify => false
  | _, _ => true

/-- One step.  The timeout fires only when there is no message to receive. -/
def awaitStep (s : Await β) : AwaitAction β → Option (Await β)
  | .op a =>
      if s.caller.allows a then
        (opStep s.op a).map fun op =>
          { s with op := op, mailbox := s.mailbox ++ op.sent.drop s.op.sent.length }
      else none
  | .receive =>
      match s.caller, s.mailbox with
      | .receiving, m :: rest =>
          some { s with mailbox := rest, caller := .returned (.ofMessage m) }
      | _, _ => none
  | .timeout =>
      match s.caller, s.mailbox with
      | .receiving, [] => some { s with caller := .cancelling }
      | _, _ => none
  | .cancel =>
      match s.caller with
      | .cancelling =>
          some { s with
            op := s.op.cancel
            caller := if s.op.state = .running then .notifying else .returned .timedOut }
      | _ => none
  | .notify =>
      match s.caller with
      | .notifying =>
          (opStep s.op .notify).map fun op => { s with op := op, caller := .returned .timedOut }
      | _ => none

/-- What each action does, and when it can be taken. -/
inductive AwaitStep (s : Await β) : AwaitAction β → Await β → Prop
  | op {a op new} : opStep s.op a = some op → op.sent = s.op.sent ++ new →
      AwaitStep s (.op a) { s with op := op, mailbox := s.mailbox ++ new }
  | receive {m rest} : s.caller = .receiving → s.mailbox = m :: rest →
      AwaitStep s .receive { s with mailbox := rest, caller := .returned (.ofMessage m) }
  | timeout : s.caller = .receiving → s.mailbox = [] →
      AwaitStep s .timeout { s with caller := .cancelling }
  | win : s.caller = .cancelling → s.op.state = .running →
      AwaitStep s .cancel { s with op := s.op.cancel, caller := .notifying }
  | lose : s.caller = .cancelling → s.op.state ≠ .running →
      AwaitStep s .cancel { s with caller := .returned .timedOut }
  | notify {op} : s.caller = .notifying → opStep s.op .notify = some op → op.sent = s.op.sent →
      AwaitStep s .notify { s with op := op, caller := .returned .timedOut }

theorem awaitStep_cases {s s' : Await β} {a : AwaitAction β} (h : awaitStep s a = some s') :
    AwaitStep s a s' := by
  cases a with
  | op a =>
      simp only [awaitStep] at h
      split at h
      · obtain ⟨op, hop, rfl⟩ := Option.map_eq_some_iff.mp h
        obtain ⟨new, hnew⟩ := opStep_sent hop
        rw [hnew, List.drop_left]
        exact .op hop hnew
      · cases h
  | receive =>
      simp only [awaitStep] at h
      split at h
      · next m rest hcaller hbox => exact Option.some.inj h ▸ .receive hcaller hbox
      · cases h
  | timeout =>
      simp only [awaitStep] at h
      split at h
      · next hcaller hbox => exact Option.some.inj h ▸ .timeout hcaller hbox
      · cases h
  | cancel =>
      simp only [awaitStep] at h
      split at h
      · next hcaller =>
          obtain rfl := Option.some.inj h
          by_cases hrun : s.op.state = .running
          · rw [if_pos hrun]
            exact .win hcaller hrun
          · rw [if_neg hrun, Operation.cancel_of_ne hrun]
            exact .lose hcaller hrun
      · cases h
  | notify =>
      simp only [awaitStep] at h
      split at h
      · next hcaller =>
          obtain ⟨op, hop, rfl⟩ := Option.map_eq_some_iff.mp h
          have hsent : op.sent = s.op.sent := by
            cases opStep_cases hop with
            | notify _ => rfl
          exact .notify hcaller hop hsent
      · cases h

/-! ### Invariants -/

/-- The caller has received the message. -/
def AwaitState.received : AwaitState β → Bool
  | .returned (.ok _) | .returned (.error _) => true
  | _ => false

/-- The caller's swap is over. -/
def AwaitState.swapped : AwaitState β → Bool
  | .notifying | .returned .timedOut => true
  | _ => false

/-- Until the caller receives it, the operation's message is in the mailbox. -/
structure Await.Inv (s : Await β) : Prop where
  op : s.op.Inv
  mailbox : s.caller.received = false → s.mailbox = s.op.sent

theorem awaitStep_inv (s : Await β) (a : AwaitAction β) (s' : Await β) (hs : s.Inv)
    (h : awaitStep s a = some s') : s'.Inv := by
  cases awaitStep_cases h with
  | op hop hnew =>
      refine ⟨opStep_inv hs.op hop, ?_⟩
      intro hcaller
      rw [hnew, hs.mailbox hcaller]
  | @receive m rest hcaller hbox =>
      refine ⟨hs.op, ?_⟩
      intro hreceived
      cases m <;> cases hreceived
  | timeout hcaller hbox =>
      refine ⟨hs.op, ?_⟩
      intro _
      exact hs.mailbox (by rw [hcaller]; rfl)
  | win hcaller hrun =>
      refine ⟨hs.op.cancel, ?_⟩
      intro _
      rw [Operation.cancel_sent]
      exact hs.mailbox (by rw [hcaller]; rfl)
  | lose hcaller hrun =>
      refine ⟨hs.op, ?_⟩
      intro _
      exact hs.mailbox (by rw [hcaller]; rfl)
  | notify hcaller hop hsent =>
      refine ⟨opStep_inv hs.op hop, ?_⟩
      intro _
      rw [hsent]
      exact hs.mailbox (by rw [hcaller]; rfl)

theorem Await.start_inv (kind : OperationKind β) : (Await.start kind).Inv :=
  ⟨.start kind, fun _ => rfl⟩

/-- The side condition: `operation_cancel` finds the operation not completed. -/
def CancelsInTime (s : Await β) : AwaitAction β → Prop
  | .cancel => s.op.state ≠ .completed
  | _ => True

/-- Once the caller has cancelled in time, the operation is cancelled. -/
def Await.Suppressed (s : Await β) : Prop := s.caller.swapped = true → s.op.state = .cancelled

theorem Operation.cancel_state {o : Operation β} (h : o.state = .running) :
    o.cancel.state = .cancelled := by
  simp [Operation.cancel, h]

theorem Operation.cancelled_of_ne {o : Operation β} (hrun : o.state ≠ .running)
    (hdone : o.state ≠ .completed) : o.state = .cancelled := by
  cases hstate : o.state with
  | running => exact absurd hstate hrun
  | completed => exact absurd hstate hdone
  | cancelled => rfl

/-- A step in time keeps that. -/
theorem awaitStep_suppressed {s s' : Await β} {a : AwaitAction β} (hs : s.Suppressed)
    (hG : CancelsInTime s a) (h : awaitStep s a = some s') : s'.Suppressed := by
  cases awaitStep_cases h with
  | op hop hnew => exact fun hcaller => opStep_cancelled (hs hcaller) hop
  | @receive m rest hcaller hbox =>
      intro hswapped
      cases m <;> cases hswapped
  | timeout hcaller hbox =>
      intro hswapped
      cases hswapped
  | win hcaller hrun => exact fun _ => Operation.cancel_state hrun
  | lose hcaller hrun => exact fun _ => Operation.cancelled_of_ne hrun hG
  | notify hcaller hop hsent =>
      exact fun _ => opStep_cancelled (hs (by rw [hcaller]; rfl)) hop

/-- A suppressed operation has no message for the caller. -/
theorem Await.Inv.mailbox_nil {s : Await β} (hs : s.Inv) (hsup : s.Suppressed)
    (hcaller : s.caller.swapped = true) : s.mailbox = [] := by
  have hreceived : s.caller.received = false := by
    rcases s with ⟨op, mailbox, - | - | - | (value | e | -)⟩ <;> first | rfl | cases hcaller
  rw [hs.mailbox hreceived]
  cases hs.op with
  | racing hrun => rw [hsup hcaller] at hrun; cases hrun
  | cancelled _ _ _ _ hsent => exact hsent
  | owing _ hdone => rw [hsup hcaller] at hdone; cases hdone
  | answered _ hdone => rw [hsup hcaller] at hdone; cases hdone

/-- A state reached by steps in time is suppressed. -/
theorem run_suppressed {kind : OperationKind β} {as : List (AwaitAction β)} {s : Await β}
    (hG : Meets awaitStep CancelsInTime (.start kind) as)
    (h : run awaitStep (.start kind) as = some s) : s.Suppressed := by
  refine run_invariant_of_meets (fun s a s' hs hG hstep => awaitStep_suppressed hs hG hstep) hG h ?_
  intro hswapped
  cases hswapped

/-! ### A timeout and the result -/

/-- The state stays suppressed after the caller's swap, since there is no
second one. -/
theorem Reaches.suppressed {s t : Await β} (h : Reaches awaitStep s t)
    (hs : s.Suppressed ∧ s.caller.swapped = true) : t.Suppressed ∧ t.caller.swapped = true := by
  refine h.invariant (P := fun s => s.Suppressed ∧ s.caller.swapped = true) ?_ hs
  rintro s a s' ⟨hsup, hswapped⟩ hstep
  -- a cancelled operation never becomes completed, so the side condition holds by itself
  have hG : CancelsInTime s a := by
    cases a with
    | cancel =>
        rw [CancelsInTime, hsup hswapped]
        exact OperationState.noConfusion
    | _ => trivial
  refine ⟨awaitStep_suppressed hsup hG hstep, ?_⟩
  cases awaitStep_cases hstep with
  | op _ _ => exact hswapped
  | receive hcaller _ => rw [hcaller] at hswapped; cases hswapped
  | timeout hcaller _ => rw [hcaller] at hswapped; cases hswapped
  | win _ _ => rfl
  | lose _ _ => rfl
  | notify _ _ _ => rfl

/-- A completed operation's message reaches the mailbox, whether it has been
sent or not. -/
theorem completed_strands {s s' : Await β} (hs : s.Inv) (hdone : s.op.state = .completed)
    (h : awaitStep s .cancel = some s') : ∃ t, Reaches awaitStep s' t ∧ t.mailbox ≠ [] := by
  have hne : s.op.state ≠ .running := by
    rw [hdone]
    exact OperationState.noConfusion
  cases awaitStep_cases h with
  | win _ hrun => exact absurd hrun hne
  | lose hcaller _ =>
      have hbox : s.mailbox = s.op.sent := hs.mailbox (by rw [hcaller]; rfl)
      cases hs.op with
      | racing hrun => exact absurd hrun hne
      | cancelled hcancelled => rw [hdone] at hcancelled; cases hcancelled
      | answered m _ _ _ _ _ _ hsent =>
          -- it was sent between the timeout and the swap
          refine ⟨_, .refl _, ?_⟩
          show s.mailbox ≠ []
          rw [hbox, hsent]
          exact List.cons_ne_nil _ _
      | owing r _ hphase _ _ _ _ hsent =>
          -- the supervisor is about to send it
          obtain ⟨t, ht, hne⟩ : ∃ t, awaitStep { s with caller := .returned .timedOut }
              (.op (.send true)) = some t ∧ t.mailbox ≠ [] := by
            simp [awaitStep, AwaitState.allows, opStep, hphase, hsent]
          exact ⟨t, .single ht, hne⟩

/-- **When a timeout means no result.**  In every run in which
`operation_cancel` is always called before the operation is completed, a
caller that got the timeout error has no message for the operation, then or
later; and at each call of `operation_cancel` that condition is exact. -/
theorem timeout_strands_nothing_iff (kind : OperationKind β) :
    (∀ as s, Meets awaitStep CancelsInTime (.start kind) as →
      run awaitStep (.start kind) as = some s →
      s.caller = .returned .timedOut → ∀ t, Reaches awaitStep s t → t.mailbox = []) ∧
    ∀ as s s', run awaitStep (.start kind) as = some s → awaitStep s .cancel = some s' →
      ((∀ t, Reaches awaitStep s' t → t.mailbox = []) ↔ s.op.state ≠ .completed) := by
  constructor
  · intro as s hG h hcaller t ht
    have hinv : s.Inv := run_invariant awaitStep_inv h (Await.start_inv kind)
    have hsup := run_suppressed hG h
    obtain ⟨hsup', hswapped⟩ := Reaches.suppressed ht ⟨hsup, by rw [hcaller]; rfl⟩
    exact (ht.invariant awaitStep_inv hinv).mailbox_nil hsup' hswapped
  · intro as s s' h hstep
    have hinv : s.Inv := run_invariant awaitStep_inv h (Await.start_inv kind)
    have hinv' : s'.Inv := awaitStep_inv _ _ _ hinv hstep
    constructor
    · intro hempty hdone
      obtain ⟨t, ht, hne⟩ := completed_strands hinv hdone hstep
      exact hne (hempty t ht)
    · intro hG t ht
      have hafter : s'.Suppressed ∧ s'.caller.swapped = true := by
        cases awaitStep_cases hstep with
        | win _ hrun => exact ⟨fun _ => Operation.cancel_state hrun, rfl⟩
        | lose _ hrun => exact ⟨fun _ => Operation.cancelled_of_ne hrun hG, rfl⟩
      obtain ⟨hsup', hswapped⟩ := Reaches.suppressed ht hafter
      exact (ht.invariant awaitStep_inv hinv').mailbox_nil hsup' hswapped

/-- The caller cancels in time, and the task ends afterwards. -/
theorem timeout_strands_nothing_sample :
    ∃ s : Await Unit,
      run awaitStep (.start (.endpoint .connectionConnect))
        [.timeout, .cancel, .notify, .op (.finish (.value ())), .op .selectTask,
         .op .complete] = some s ∧
      ∀ t, Reaches awaitStep s t → t.mailbox = [] := by
  obtain ⟨s, hs, hcaller⟩ : ∃ s : Await Unit,
      run awaitStep (.start (.endpoint .connectionConnect))
        [.timeout, .cancel, .notify, .op (.finish (.value ())), .op .selectTask,
         .op .complete] = some s ∧ s.caller = .returned .timedOut := ⟨_, rfl, rfl⟩
  refine ⟨s, hs, (timeout_strands_nothing_iff _).1 _ s ?_ hs hcaller⟩
  exact meets_cons trivial rfl <| meets_cons OperationState.noConfusion rfl <|
    meets_cons trivial rfl <| meets_cons trivial rfl <| meets_cons trivial rfl <|
    meets_cons trivial rfl (meets_nil _)

/-- The operation completes, the timeout fires before its message is there, and
the message comes after the caller has returned. -/
theorem late_result_stranded :
    ¬ ∀ (as : List (AwaitAction Unit)) (s : Await Unit),
      run awaitStep (.start (.endpoint .connectionConnect)) as = some s →
      s.caller = .returned .timedOut → s.mailbox = [] := by
  intro hclaim
  have hempty := hclaim
    [.op (.finish (.value ())), .op .selectTask, .op .complete, .timeout, .cancel,
     .op (.send true)] _ rfl rfl
  cases hempty

end IrohBeam
