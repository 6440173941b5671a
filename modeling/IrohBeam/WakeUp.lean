/-
IrohBeam/WakeUp.lean

The controller's output loop and the emulator's queue
(`start_controller/6`, `output_wait/5` and `output_data/5` of
`src/iroh_dist_controller.erl`).

The emulator queues packets for the link at any time.  A request for a
notification (`dist_ctrl_get_data_notification/1`) is answered by one
`dist_data` message, at once if something is queued and otherwise with the next
packet, and `dist_ctrl_get_data/1` returns `none` only when nothing is queued.
Everything else is the link system of `IrohBeam/LinkSystem.lean`: the
controller takes its messages in any order they may arrive in, and skips those
it does not know.

`Output.Inv` says that a controller that waits, or sends a tick and will wait,
has a wake-up due: a request the emulator has not answered, or a `dist_data` in
the mailbox.  A step of the controller that does not go through the queue keeps
this because it removes no `dist_data` without going to pull (`controlStep_due`).
-/
import IrohBeam.LinkSystem

namespace IrohBeam

open Transition

/-! ### The emulator's side -/

/-- A link with the packets queued for it and the number of notification
requests that have not been answered. -/
structure Output where
  link : LinkRun
  queue : List Packet
  outstanding : ℕ

/-- A link that has just been started; packets may be queued for it already. -/
def Output.start (queue : List Packet) : Output := ⟨.start, queue, 0⟩

/-- Put messages into the controller's mailbox. -/
def LinkRun.deliver (s : LinkRun) (signals : List Signal) : LinkRun :=
  { s with mailbox := s.mailbox ++ signals }

/-- The emulator queues a packet and answers the requests there are. -/
def Output.enqueue (s : Output) (packet : Packet) : Output :=
  { link := s.link.deliver (List.replicate s.outstanding .distData)
    queue := s.queue ++ [packet]
    outstanding := 0 }

/-- `dist_ctrl_get_data_notification/1`. -/
def Output.request (s : Output) : Output :=
  match s.queue with
  | [] => { s with outstanding := s.outstanding + 1 }
  | _ :: _ => { s with link := s.link.deliver [.distData] }

/-- The steps of the link that depend on the queue. -/
def LinkAction.usesQueue : LinkAction → Bool
  | .control (.notify true) | .control (.pull .none) | .control (.pull (.packet _ _)) => true
  | _ => false

/-- The steps of the system: a packet is queued, the controller requests a
notification or calls `dist_ctrl_get_data/1`, or the link takes any other
step. -/
inductive OutputAction where
  | enqueue (packet : Packet)
  | notify
  | pull (outcome : WriteOutcome)
  | link (action : LinkAction)

/-- One step. -/
def outputStep (p : LinkNames) (s : Output) : OutputAction → Option Output
  | .enqueue packet => some (s.enqueue packet)
  | .notify =>
      (linkRunStep p s.link (.control (.notify true))).map fun link =>
        { s with link := link }.request
  | .pull outcome =>
      match s.queue with
      | [] =>
          (linkRunStep p s.link (.control (.pull .none))).map fun link => { s with link := link }
      | packet :: rest =>
          (linkRunStep p s.link (.control (.pull (.packet packet outcome)))).map fun link =>
            { s with link := link, queue := rest }
  | .link a =>
      if a.usesQueue then none
      else (linkRunStep p s.link a).map fun link => { s with link := link }

/-- Every step of the system. -/
inductive OutputMove (p : LinkNames) (s : Output) : OutputAction → Output → Prop
  | enqueue {packet} : OutputMove p s (.enqueue packet) (s.enqueue packet)
  | notify : s.link.stage = .notify →
      OutputMove p s .notify { s with link := { s.link with stage := .waiting } }.request
  | none {outcome} : s.link.stage = .pulling → s.queue = [] →
      OutputMove p s (.pull outcome) { s with link := { s.link with stage := .notify } }
  | packet {packet rest outcome link} : s.queue = packet :: rest →
      controlStep p s.link (.pull (.packet packet outcome)) = some link →
      OutputMove p s (.pull outcome) { s with link := link, queue := rest }
  | link {a link} : a.usesQueue = false → LinkMove p s.link a link →
      OutputMove p s (.link a) { s with link := link }

theorem outputStep_move {p : LinkNames} {s s' : Output} {a : OutputAction}
    (h : outputStep p s a = some s') : OutputMove p s a s' := by
  cases a with
  | enqueue packet => exact Option.some.inj h ▸ .enqueue
  | notify =>
      obtain ⟨link, hlink, rfl⟩ := Option.map_eq_some_iff.mp h
      obtain ⟨hstage, rfl⟩ := when_cases hlink
      exact .notify hstage
  | pull outcome =>
      simp only [outputStep] at h
      split at h
      · next hqueue =>
          obtain ⟨link, hlink, rfl⟩ := Option.map_eq_some_iff.mp h
          obtain ⟨hstage, rfl⟩ := when_cases hlink
          exact .none hstage hqueue
      · next hqueue =>
          obtain ⟨link, hlink, rfl⟩ := Option.map_eq_some_iff.mp h
          exact .packet hqueue hlink
  | link a =>
      simp only [outputStep] at h
      split at h
      · cases h
      · next huses =>
          obtain ⟨link, hlink, rfl⟩ := Option.map_eq_some_iff.mp h
          exact .link (Bool.not_eq_true _ ▸ huses) (linkRunStep_move hlink)

/-! ### A wake-up is due -/

/-- `output_wait/5` waits, or sends a tick and will wait without another
request. -/
def ControlStage.awaits : ControlStage → Bool
  | .waiting | .ticking => true
  | _ => false

/-- A wake-up is due. -/
def Output.Due (s : Output) : Prop :=
  0 < s.outstanding ∨ Signal.distData ∈ s.link.mailbox

structure Output.Inv (s : Output) : Prop where
  due : s.link.stage.awaits = true → s.Due
  /-- A request stays unanswered only as long as nothing is queued. -/
  outstanding : 0 < s.outstanding → s.queue = []

theorem outputStart_inv (queue : List Packet) : (Output.start queue).Inv where
  due := fun h => by cases h
  outstanding := fun h => absurd h (Nat.lt_irrefl 0)

/-- A controller that waits after a step waited before it, and has lost no
`dist_data`. -/
def KeepsDue (s s' : LinkRun) : Prop :=
  s'.stage.awaits = true → s.stage.awaits = true ∧
    (Signal.distData ∈ s.mailbox → Signal.distData ∈ s'.mailbox)

/-- A step to a stage that does not wait. -/
theorem keepsDue_of_stage {s s' : LinkRun} (h : s'.stage.awaits = false) : KeepsDue s s' := by
  intro hawaits
  rw [h] at hawaits
  cases hawaits

/-- A step that leaves the stage and takes nothing from the mailbox. -/
theorem keepsDue_of_mailbox {s s' : LinkRun} (hstage : s'.stage = s.stage) {signals : List Signal}
    (hbox : s'.mailbox = s.mailbox ++ signals) : KeepsDue s s' := by
  intro hawaits
  rw [hstage] at hawaits
  refine ⟨hawaits, ?_⟩
  intro hmem
  rw [hbox]
  exact List.mem_append_left _ hmem

/-- A message `output_wait/5` goes on waiting after is no `dist_data`. -/
theorem outputWait_awaits {signal : Signal} (h : signal.outputWait.awaits = true) :
    signal ≠ .distData := by
  rintro rfl
  cases h

/-- `send_packet` leaves the mailbox, and goes to `next` or out of the loop. -/
theorem sendPacket_keepsDue {p : LinkNames} {s : LinkRun} {length : ℕ}
    {iovec : List Bytes.Binary} {outcome : WriteOutcome} {next : ControlStage}
    (hnext : next.awaits = true → s.stage.awaits = true) :
    KeepsDue s (s.sendPacket p length iovec outcome next) := by
  unfold LinkRun.sendPacket
  split
  · intro hawaits
    exact ⟨hnext hawaits, id⟩
  · exact keepsDue_of_stage rfl

/-- What the controller receives: `holder/2` moves on to a stage that does not
wait, `output_wait/5` to one that waits unless it has taken a `dist_data`. -/
theorem receive_keepsDue {s s' : LinkRun} (h : s.receive = some s') : KeepsDue s s' := by
  unfold LinkRun.receive at h
  split at h
  · split at h
    · exact Option.some.inj h ▸ keepsDue_of_stage rfl
    · exact Option.some.inj h ▸ keepsDue_of_stage rfl
    · cases h
  · next hstage =>
      split at h
      · next signal rest hbox =>
          obtain rfl := Option.some.inj h
          intro hawaits
          refine ⟨by rw [hstage]; rfl, ?_⟩
          intro hmem
          rw [hbox] at hmem
          exact (List.mem_cons.mp hmem).resolve_left (outputWait_awaits hawaits).symm
      · cases h
  · cases h

/-- A step of the controller that does not arm the notification. -/
theorem controlStep_due {p : LinkNames} {s s' : LinkRun} {a : ControlAction}
    (h : controlStep p s a = some s') (ha : ∀ ok, a = .notify ok → ok = false) :
    KeepsDue s s' := by
  cases a with
  | receive => exact receive_keepsDue h
  | closeSession =>
      simp only [controlStep] at h
      split at h
      · exact Option.some.inj h ▸ keepsDue_of_stage rfl
      · exact Option.some.inj h ▸ keepsDue_of_stage rfl
      · cases h
  | setOpt ok =>
      obtain ⟨-, rfl⟩ := when_cases h
      cases ok <;> exact keepsDue_of_stage rfl
  | inputHandler ok =>
      obtain ⟨-, rfl⟩ := when_cases h
      cases ok <;> exact keepsDue_of_stage rfl
  | answered =>
      simp only [controlStep] at h
      split at h
      · exact Option.some.inj h ▸ keepsDue_of_stage rfl
      · exact Option.some.inj h ▸ keepsDue_of_stage rfl
      · cases h
  | failed =>
      simp only [controlStep] at h
      split at h
      · exact Option.some.inj h ▸ keepsDue_of_stage rfl
      · exact Option.some.inj h ▸ keepsDue_of_stage rfl
      · cases h
  | notify ok =>
      obtain ⟨-, rfl⟩ := when_cases h
      rw [ha ok rfl]
      exact keepsDue_of_stage rfl
  | tick outcome =>
      obtain ⟨hstage, rfl⟩ := when_cases h
      exact sendPacket_keepsDue fun _ => by rw [hstage]; rfl
  | pull pulled =>
      cases pulled with
      | failed =>
          obtain ⟨-, rfl⟩ := when_cases h
          exact keepsDue_of_stage rfl
      | none =>
          obtain ⟨-, rfl⟩ := when_cases h
          exact keepsDue_of_stage rfl
      | packet packet outcome =>
          obtain ⟨-, rfl⟩ := when_cases h
          split
          · exact sendPacket_keepsDue fun hawaits => by cases hawaits
          · exact keepsDue_of_stage rfl
  | _ =>
      obtain ⟨-, rfl⟩ := when_cases h
      exact keepsDue_of_stage rfl

/-- A step of the link that does not depend on the queue. -/
theorem linkMove_due {p : LinkNames} {s s' : LinkRun} {a : LinkAction} (h : LinkMove p s a s')
    (ha : a.usesQueue = false) : KeepsDue s s' := by
  cases h with
  | control hstep =>
      refine controlStep_due hstep ?_
      rintro (_ | _) rfl
      · rfl
      · cases ha
  | input hmove =>
      cases hmove <;> exact keepsDue_of_mailbox rfl (List.append_nil _).symm
  | post _ _ => exact keepsDue_of_mailbox rfl rfl
  | exitSignal _ => exact keepsDue_of_mailbox rfl rfl
  | serveControl _ => exact keepsDue_of_mailbox rfl (List.append_nil _).symm
  | serveInput _ => exact keepsDue_of_mailbox rfl (List.append_nil _).symm
  | serveOther _ => exact keepsDue_of_mailbox rfl (List.append_nil _).symm

theorem Output.Inv.due_of_keeps {s : Output} (hs : s.Inv) {link : LinkRun}
    (hkeeps : KeepsDue s.link link) (hawaits : link.stage.awaits = true) :
    0 < s.outstanding ∨ Signal.distData ∈ link.mailbox := by
  obtain ⟨hbefore, hmem⟩ := hkeeps hawaits
  exact (hs.due hbefore).imp_right hmem

/-- A request leaves a wake-up due, whatever is queued. -/
theorem request_inv {s : Output} (hs : 0 < s.outstanding → s.queue = []) : s.request.Inv := by
  unfold Output.request
  split
  · next hqueue => exact ⟨fun _ => .inl (Nat.succ_pos _), fun _ => hqueue⟩
  · next hqueue =>
      refine ⟨fun _ => .inr ?_, hs⟩
      exact List.mem_append_right _ (List.mem_singleton.mpr rfl)

/-- A packet is queued: every request there was is now a `dist_data`. -/
theorem enqueue_inv {s : Output} (hs : s.Inv) (packet : Packet) : (s.enqueue packet).Inv := by
  refine ⟨?_, fun h => absurd h (Nat.lt_irrefl 0)⟩
  intro hawaits
  right
  rcases hs.due hawaits with hout | hmem
  · exact List.mem_append_right _ (List.mem_replicate.mpr ⟨hout.ne', rfl⟩)
  · exact List.mem_append_left _ hmem

/-- Every step keeps the invariant. -/
theorem outputStep_inv (p : LinkNames) (s : Output) (a : OutputAction) (s' : Output) (hs : s.Inv)
    (h : outputStep p s a = some s') : s'.Inv := by
  cases outputStep_move h with
  | enqueue => exact enqueue_inv hs _
  | notify hstage => exact request_inv hs.outstanding
  | none hstage hqueue => exact ⟨fun hawaits => (by cases hawaits), hs.outstanding⟩
  | packet hqueue hstep =>
      refine ⟨hs.due_of_keeps (controlStep_due hstep fun ok hok => by cases hok), ?_⟩
      -- with a packet queued no request is outstanding
      intro hout
      rw [hs.outstanding hout] at hqueue
      cases hqueue
  | link huses hmove => exact ⟨hs.due_of_keeps (linkMove_due hmove huses), hs.outstanding⟩

/-! ### No lost wake-up -/

/-- **No lost wake-up.**  In every state a run reaches in which the controller
waits, a request is outstanding or a `dist_data` is in the mailbox; and if
something is queued, it is the latter. -/
theorem no_lost_wake_up (p : LinkNames) (queue : List Packet) {as : List OutputAction} {s : Output}
    (h : run (outputStep p) (.start queue) as = some s) (hwait : s.link.stage = .waiting) :
    (0 < s.outstanding ∨ Signal.distData ∈ s.link.mailbox) ∧
      (s.queue ≠ [] → Signal.distData ∈ s.link.mailbox) := by
  have hinv : s.Inv := run_invariant (outputStep_inv p) h (outputStart_inv queue)
  have hdue : s.Due := hinv.due (by rw [hwait]; rfl)
  refine ⟨hdue, ?_⟩
  intro hqueue
  exact hdue.resolve_left fun hout => hqueue (hinv.outstanding hout)

/-- A packet queued between the last empty pull and the next request. -/
theorem no_lost_wake_up_sample :
    ∃ s, run (outputStep sampleNames) (.start [])
        (setUp.map .link ++
          [.link .serveControl, .link (.control .answered), .link (.control .confirm), .notify,
            .link (.post .distData), .link (.control .receive), .pull .complete,
            .enqueue ⟨1, [[7]], rfl⟩, .notify]) = some s ∧
      s.queue ≠ [] ∧ Signal.distData ∈ s.link.mailbox := by
  have e : ∃ s, run (outputStep sampleNames) (.start [])
        (setUp.map .link ++
          [.link .serveControl, .link (.control .answered), .link (.control .confirm), .notify,
            .link (.post .distData), .link (.control .receive), .pull .complete,
            .enqueue ⟨1, [[7]], rfl⟩, .notify]) = some s ∧
      s.queue = [⟨1, [[7]], rfl⟩] ∧ s.link.stage = .waiting := ⟨_, rfl, rfl, rfl⟩
  obtain ⟨s, hrun, hqueue, hstage⟩ := e
  have hne : s.queue ≠ [] := by
    rw [hqueue]
    exact List.cons_ne_nil _ _
  exact ⟨s, hrun, hne, (no_lost_wake_up sampleNames [] hrun hstage).2 hne⟩

end IrohBeam
