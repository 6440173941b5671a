/-
IrohBeam/LinkSystem.lean

One distribution link as a system of three processes:

    controller    holder/2, start_controller/6, output_wait/5, output_data/5
    input         input_loop/5, spawned by the controller
    server        iroh_dist_endpoint, with its table of links

(`src/iroh_dist_controller.erl`, `src/iroh_dist_endpoint.erl`).  The controller
and the input process each have a channel to the server; a channel keeps its
order, and the server takes from either of them, or from a process that has
nothing to do with this link, in any order.  A call of the server is a message
in the channel and a wait for the answer that may end without it, by a timeout
or because the server is gone.

A state records what has happened: the messages the server has taken up, the
packets the input process has handed to `dist_ctrl_put_data/2`, and whether
`close_session/1` has been called.  The server's table is `serveAll` of the
messages, so `Links.lean` says what is in it.

`LinkRun.Inv` ties the controller's stage to the calls it has sent and the
server has answered; the step lemma `controlStep_change` says once what a step
of the controller does to them.
-/
import IrohBeam.Run
import IrohBeam.Links
import IrohBeam.Controller

namespace IrohBeam

open Transition Bytes

/-! ### The parties -/

/-- What a link goes by: the node its `handshake_complete` names, the session
and the controller's own pid. -/
structure LinkNames where
  node : Atom
  session : Session
  owner : Pid

/-- What the controller receives.  `other` is what `output_wait/5` skips, such
as the exit of a process it has nothing to do with. -/
inductive Signal where
  | handshakeComplete
  | close
  | distData
  | distTick
  | parentExit
  | inputExit
  | other
  deriving DecidableEq, Repr

/-- How a controller ends: killed before it traps exits, from `holder/2`, in one
of the calls outside the `try`, in the `after` part, or at its end. -/
inductive Ending where
  | killed
  | refused
  | setOpt
  | inputHandler
  | register
  | unregister
  | done
  deriving DecidableEq, Repr

/-- What the controller does next. -/
inductive ControlStage where
  | spawned
  | linking
  | holding
  | refusing
  | setOpt
  | inputHandler
  | startInput
  | register
  | registering
  | confirm
  | notify
  | waiting
  | ticking
  | pulling
  | unregister
  | unregistering
  | closing
  | ended (how : Ending)
  deriving DecidableEq, Repr

/-- What the input process does next; a batch is the packets of one read, in
those handed to `dist_ctrl_put_data/2` and those still to be. -/
inductive InputStage where
  | absent
  | unstarted
  | receiving (parser : Parser)
  | putting (parser : Parser) (done todo : List (List Binary))
  | ended

/-- The packets of the batch the input process is in that it has handed over. -/
def InputStage.pending : InputStage → List (List Binary)
  | .putting _ done _ => done
  | _ => []

/-- The system.  `reply` is set once the server has answered the last call of
the controller, `told` once the input process has been sent `start`, and
`exitSignal` while the end of the input process is on its way.  `lost` is what it had
handed over of a batch that it did not come to report; the code does not keep it. -/
structure LinkRun where
  stage : ControlStage
  mailbox : List Signal
  reply : Bool
  closed : Bool
  input : InputStage
  told : Bool
  exitSignal : Bool
  fromControl : List Message
  fromInput : List Message
  history : List Message
  handed : List (List Binary)
  lost : List (List Binary)

/-- `start_link/1` has spawned the controller. -/
def LinkRun.start : LinkRun :=
  { stage := .spawned, mailbox := [], reply := false, closed := false, input := .absent
    told := false, exitSignal := false, fromControl := [], fromInput := [], history := []
    handed := [], lost := [] }

/-- The server's table after what it has taken up. -/
def LinkRun.links (s : LinkRun) (server : Server) : LinkMap :=
  (serveAll server s.history).server.links

/-! ### The controller -/

/-- The messages `holder/2` receives; the others stay in the mailbox. -/
def Signal.held : Signal → Bool
  | .handshakeComplete | .close | .parentExit => true
  | _ => false

/-- What `output_wait/5` does on a message. -/
def Signal.outputWait : Signal → ControlStage
  | .distData => .pulling
  | .distTick => .ticking
  | .close | .parentExit | .inputExit => .unregister
  | .handshakeComplete | .other => .waiting

/-- What `dist_ctrl_get_data/1` does, with what the stream does to a packet. -/
inductive Pulled where
  | failed
  | none
  | packet (packet : Packet) (outcome : WriteOutcome)

/-- The steps of the controller, with what the emulator, the stream and the
server make of them. -/
inductive ControlAction where
  | trapExit
  | killed
  | link
  | receive
  | closeSession
  | setOpt (ok : Bool)
  | inputHandler (ok : Bool)
  | startInput
  | register (path : Option Path)
  | answered
  | failed
  | confirm
  | notify (ok : Bool)
  | tick (outcome : WriteOutcome)
  | pull (pulled : Pulled)
  | unregister

/-- A step that is taken at one stage only. -/
def LinkRun.when (s : LinkRun) (stage : ControlStage) (s' : LinkRun) : Option LinkRun :=
  if s.stage = stage then some s' else none

/-- `ok = send_packet(...)`: what is sent is reported to the server, and any
other result leaves the loop. -/
def LinkRun.sendPacket (p : LinkNames) (s : LinkRun) (length : ℕ) (iovec : List Binary)
    (outcome : WriteOutcome) (next : ControlStage) : LinkRun :=
  match (IrohBeam.sendPacket p.session length iovec outcome).2 with
  | .ok () =>
      { s with
        stage := next
        fromControl := s.fromControl ++ [.updateLink p.node p.owner .sent length 1] }
  | .error _ => { s with stage := .unregister }

/-- `holder/2` takes the first message it waits for, `output_wait/5` the first
message. -/
def LinkRun.receive (s : LinkRun) : Option LinkRun :=
  match s.stage with
  | .holding =>
      match s.mailbox.find? Signal.held with
      | some .handshakeComplete =>
          some { s with
            mailbox := s.mailbox.eraseP Signal.held
            stage := .setOpt
            input := .unstarted }
      | some _ => some { s with mailbox := s.mailbox.eraseP Signal.held, stage := .refusing }
      | none => none
  | .waiting =>
      match s.mailbox with
      | signal :: rest => some { s with mailbox := rest, stage := signal.outputWait }
      | [] => none
  | _ => none

/-- One step of the controller. -/
def controlStep (p : LinkNames) (s : LinkRun) : ControlAction → Option LinkRun
  | .trapExit => s.when .spawned { s with stage := .linking }
  | .killed => s.when .spawned { s with stage := .ended .killed }
  | .link => s.when .linking { s with stage := .holding }
  | .receive => s.receive
  | .closeSession =>
      match s.stage with
      | .refusing => some { s with stage := .ended .refused, closed := true }
      | .closing => some { s with stage := .ended .done, closed := true }
      | _ => none
  | .setOpt ok =>
      s.when .setOpt { s with stage := if ok then .inputHandler else .ended .setOpt }
  | .inputHandler ok =>
      s.when .inputHandler { s with stage := if ok then .startInput else .ended .inputHandler }
  | .startInput => s.when .startInput { s with stage := .register, told := true }
  | .register path =>
      s.when .register { s with
        stage := .registering
        reply := false
        fromControl :=
          s.fromControl ++ [.call (.registerLink p.node p.session p.owner path) p.owner] }
  | .answered =>
      match s.stage, s.reply with
      | .registering, true => some { s with stage := .confirm }
      | .unregistering, true => some { s with stage := .closing }
      | _, _ => none
  | .failed =>
      match s.stage with
      | .registering => some { s with stage := .ended .register }
      | .unregistering => some { s with stage := .ended .unregister }
      | _ => none
  | .confirm => s.when .confirm { s with stage := .notify }
  | .notify ok => s.when .notify { s with stage := if ok then .waiting else .unregister }
  | .tick outcome => s.when .ticking (s.sendPacket p 0 [] outcome .waiting)
  | .pull .failed => s.when .pulling { s with stage := .unregister }
  | .pull .none => s.when .pulling { s with stage := .notify }
  | .pull (.packet packet outcome) =>
      s.when .pulling
        (if packet.length ≤ p.session.maxFrame then
          s.sendPacket p packet.length packet.iovec outcome .pulling
        else { s with stage := .unregister })
  | .unregister =>
      s.when .unregister { s with
        stage := .unregistering
        reply := false
        fromControl := s.fromControl ++ [.call (.unregisterLink p.node p.owner) p.owner] }

/-! ### The input process and the server -/

/-- The steps of the input process.  It may end at any stage: the stream ends
or fails, `dist_ctrl_put_data/2` fails, or the controller it is linked to has
ended. -/
inductive InputAction where
  | begin
  | recv (data : Binary)
  | put
  | report
  | fail

/-- The size of the packets, as `iolist_size/1` adds it up. -/
def totalSize (packets : List (List Binary)) : ℕ :=
  (packets.map fun packet => packet.flatten.length).sum

/-- The `update_link` of one batch. -/
def LinkNames.report (p : LinkNames) (batch : List (List Binary)) : Message :=
  .updateLink p.node p.owner .received (totalSize batch) batch.length

/-- The input process ends. -/
def LinkRun.endInput (s : LinkRun) : LinkRun :=
  { s with input := .ended, exitSignal := true, lost := s.lost ++ s.input.pending }

/-- One step of the input process. -/
def inputStep (p : LinkNames) (s : LinkRun) : InputAction → Option LinkRun
  | .begin =>
      match s.input, s.told with
      | .unstarted, true => some { s with input := .receiving parserNew }
      | _, _ => none
  | .recv data =>
      match s.input with
      | .receiving parser =>
          match parserFeed parser data p.session.maxFrame with
          | .ok (packets, parser') => some { s with input := .putting parser' [] packets }
          | .error _ => some s.endInput
      | _ => none
  | .put =>
      match s.input with
      | .putting parser done (packet :: todo) =>
          some { s with
            input := .putting parser (done ++ [packet]) todo
            handed := s.handed ++ [packet] }
      | _ => none
  | .report =>
      match s.input with
      | .putting parser done [] =>
          some { s with input := .receiving parser, fromInput := s.fromInput ++ [p.report done] }
      | _ => none
  | .fail =>
      match s.input with
      | .absent | .ended => none
      | _ => some s.endInput

/-- A `register_link` or `unregister_link`, by its node. -/
inductive LinkCall where
  | register (node : Atom)
  | unregister (node : Atom)
  deriving DecidableEq

/-- The call of the link table that a message of this owner is. -/
def Message.linkCall (owner : Pid) : Message → Option LinkCall
  | .call (.registerLink node _ o _) _ => if o = owner then some (.register node) else none
  | .call (.unregisterLink node o) _ => if o = owner then some (.unregister node) else none
  | _ => none

/-- The process a message about the link table speaks for. -/
def Message.owner : Message → Option Pid
  | .call (.registerLink _ _ owner _) _ => some owner
  | .call (.unregisterLink _ owner) _ => some owner
  | .updateLink _ owner _ _ _ => some owner
  | _ => none

/-- The server takes up a message, and answers it if it is a call. -/
def LinkRun.serve (p : LinkNames) (s : LinkRun) (m : Message) : LinkRun :=
  { s with history := s.history ++ [m], reply := s.reply || (m.linkCall p.owner).isSome }

/-- The steps of the system.  The exit of the parent is a message only once the
controller traps exits, and only its own input process sends `inputExit`. -/
inductive LinkAction where
  | control (action : ControlAction)
  | input (action : InputAction)
  | post (signal : Signal)
  | exitSignal
  | serveControl
  | serveInput
  | serveOther (message : Message)

/-- One step.  What other processes send speaks for others: `register_link`,
`unregister_link` and `update_link` are called for `self()` only. -/
def linkRunStep (p : LinkNames) (s : LinkRun) : LinkAction → Option LinkRun
  | .control a => controlStep p s a
  | .input a => inputStep p s a
  | .post signal =>
      if signal ≠ .inputExit ∧ (signal = .parentExit → s.stage ≠ .spawned) then
        some { s with mailbox := s.mailbox ++ [signal] }
      else none
  | .exitSignal =>
      if s.exitSignal then some { s with mailbox := s.mailbox ++ [.inputExit], exitSignal := false }
      else none
  | .serveControl =>
      match s.fromControl with
      | m :: rest => some ({ s with fromControl := rest }.serve p m)
      | [] => none
  | .serveInput =>
      match s.fromInput with
      | m :: rest => some ({ s with fromInput := rest }.serve p m)
      | [] => none
  | .serveOther m => if m.owner ≠ some p.owner then some (s.serve p m) else none

/-! ### What a step of the controller does -/

/-- The calls of the link table a controller at this stage has sent. -/
def ControlStage.calls (node : Atom) : ControlStage → List LinkCall
  | .registering | .confirm | .notify | .waiting | .ticking | .pulling | .unregister
  | .ended .register => [.register node]
  | .unregistering | .closing | .ended .unregister | .ended .done =>
      [.register node, .unregister node]
  | _ => []

/-- How many of them the server has answered, at least. -/
def ControlStage.answered (reply : Bool) : ControlStage → ℕ
  | .registering => reply.toNat
  | .confirm | .notify | .waiting | .ticking | .pulling | .unregister => 1
  | .unregistering => 1 + reply.toNat
  | .closing | .ended .done => 2
  | _ => 0

/-- One more answer counts for one. -/
theorem ControlStage.answered_le_succ (stage : ControlStage) (reply reply' : Bool) :
    stage.answered reply' ≤ stage.answered reply + 1 := by
  have hle : reply'.toNat ≤ 1 := Bool.toNat_le reply'
  cases stage with
  | registering => exact hle.trans (Nat.le_add_left 1 _)
  | unregistering =>
      show 1 + reply'.toNat ≤ 1 + reply.toNat + 1
      omega
  | ended how => cases how <;> exact Nat.le_succ _
  | _ => exact Nat.le_succ _

/-- The controller has ended, and called `close_session/1` before that. -/
def ControlStage.closes : ControlStage → Bool
  | .ended .refused | .ended .done => true
  | _ => false

/-- The controller has ended. -/
def ControlStage.over : ControlStage → Bool
  | .ended _ => true
  | _ => false

/-- The controller has ended without having called it. -/
def ControlStage.crashes : ControlStage → Bool
  | .ended .refused | .ended .done => false
  | .ended _ => true
  | _ => false

/-- The steps that end the controller outside its `try`, or in its `after` part
before `close_session/1`. -/
def ControlAction.breaks : ControlAction → Bool
  | .killed | .setOpt false | .inputHandler false | .failed => true
  | _ => false

/-- The input process has not been spawned. -/
def ControlStage.holds : ControlStage → Bool
  | .spawned | .linking | .holding => true
  | _ => false

/-- What a step of the controller can do: it sends some messages, none of which
reports packets received, and moves on or ends. -/
structure ControlChange (p : LinkNames) (s s' : LinkRun) (crash : Bool) : Prop where
  running : s.stage.over = false
  history : s'.history = s.history
  fromInput : s'.fromInput = s.fromInput
  handed : s'.handed = s.handed
  lost : s'.lost = s.lost
  messages : ∃ ms, s'.fromControl = s.fromControl ++ ms ∧
    s'.stage.calls p.node = s.stage.calls p.node ++ ms.filterMap (Message.linkCall p.owner) ∧
    ∀ m ∈ ms, m.counts p.node p.owner .received = (0, 0)
  answered : s'.stage.answered s'.reply ≤ s.stage.answered s.reply
  closed : s'.closed = (s.closed || s'.stage.closes)
  crashes : s'.stage.crashes = crash
  input : s.stage.holds = true ∧ s'.input = .unstarted ∨ s'.input = s.input
  holds : s'.stage.holds = true → s.stage.holds = true ∧ s'.input = s.input

theorem when_cases {s s' t : LinkRun} {stage : ControlStage} (h : s.when stage s' = some t) :
    s.stage = stage ∧ t = s' := by
  unfold LinkRun.when at h
  split at h
  · next hstage => exact ⟨hstage, (Option.some.inj h).symm⟩
  · cases h

/-- A step that sends nothing. -/
theorem ControlChange.quiet {p : LinkNames} {s : LinkRun} {old new : ControlStage}
    {told closed : Bool} {mailbox : List Signal} {crash : Bool} (hstage : s.stage = old)
    (hrun : old.over = false) (hcalls : new.calls p.node = old.calls p.node)
    (hanswered : new.answered s.reply ≤ old.answered s.reply)
    (hclosed : closed = (s.closed || new.closes)) (hcrashes : new.crashes = crash)
    (hholds : new.holds = (new.holds && old.holds)) :
    ControlChange p s { s with stage := new, told, closed, mailbox } crash where
  running := by rwa [hstage]
  history := rfl
  fromInput := rfl
  handed := rfl
  lost := rfl
  messages := ⟨[], (List.append_nil _).symm, by simp [hstage, hcalls], by simp⟩
  answered := by rwa [hstage]
  closed := hclosed
  crashes := hcrashes
  input := .inr rfl
  holds := fun h => by
    rw [show new.holds = true from h, Bool.true_and] at hholds
    exact ⟨by rw [hstage, ← hholds], rfl⟩

/-- A step that only moves on. -/
theorem ControlChange.move {p : LinkNames} {s : LinkRun} {old new : ControlStage} {told : Bool}
    {mailbox : List Signal} {crash : Bool} (hstage : s.stage = old) (hrun : old.over = false)
    (hcalls : new.calls p.node = old.calls p.node)
    (hanswered : new.answered s.reply ≤ old.answered s.reply) (hcloses : new.closes = false)
    (hcrashes : new.crashes = crash) (hholds : new.holds = (new.holds && old.holds)) :
    ControlChange p s { s with stage := new, told, mailbox } crash :=
  .quiet hstage hrun hcalls hanswered (by simp [hcloses]) hcrashes hholds

/-- A step that sends one message and moves on. -/
theorem ControlChange.send {p : LinkNames} {s : LinkRun} {old new : ControlStage} {m : Message}
    {reply : Bool} (hstage : s.stage = old) (hrun : old.over = false)
    (hcalls : new.calls p.node = old.calls p.node ++ (m.linkCall p.owner).toList)
    (hcounts : m.counts p.node p.owner .received = (0, 0))
    (hanswered : new.answered reply ≤ old.answered s.reply) (hcloses : new.closes = false)
    (hcrashes : new.crashes = false) (hholds : new.holds = false) :
    ControlChange p s { s with stage := new, reply, fromControl := s.fromControl ++ [m] } false where
  running := by rwa [hstage]
  history := rfl
  fromInput := rfl
  handed := rfl
  lost := rfl
  messages := by
    refine ⟨[m], rfl, ?_, by simpa using hcounts⟩
    rw [hstage]
    show new.calls p.node = _
    rw [hcalls]
    cases hm : m.linkCall p.owner <;> simp [hm]
  answered := by rwa [hstage]
  closed := by simp [hcloses]
  crashes := hcrashes
  input := .inr rfl
  holds := fun h => by
    rw [show new.holds = true from h] at hholds
    cases hholds

theorem sendPacket_change {p : LinkNames} {s : LinkRun} {length : ℕ} {iovec : List Binary}
    {outcome : WriteOutcome} {old next : ControlStage} (hstage : s.stage = old)
    (hold : old = .ticking ∨ old = .pulling) (hnext : next = .waiting ∨ next = .pulling) :
    ControlChange p s (s.sendPacket p length iovec outcome next) false := by
  have hrun : old.over = false := by rcases hold with rfl | rfl <;> rfl
  have hcounts : (Message.updateLink p.node p.owner .sent length 1).counts p.node p.owner .received =
      (0, 0) := if_neg fun h => by cases h.2.2
  unfold LinkRun.sendPacket
  split
  · rcases hold with rfl | rfl <;> rcases hnext with rfl | rfl <;>
      exact .send hstage hrun rfl hcounts le_rfl rfl rfl rfl
  · rcases hold with rfl | rfl <;> exact .move hstage hrun rfl le_rfl rfl rfl rfl

theorem receive_change {p : LinkNames} {s s' : LinkRun} (h : s.receive = some s') :
    ControlChange p s s' false := by
  unfold LinkRun.receive at h
  split at h
  · next hstage =>
      split at h
      · obtain rfl := Option.some.inj h
        exact
          { running := by rw [hstage]; rfl
            history := rfl
            fromInput := rfl
            handed := rfl
            lost := rfl
            messages := ⟨[], (List.append_nil _).symm, by rw [hstage]; rfl, by simp⟩
            answered := by rw [hstage]; exact le_rfl
            closed := (Bool.or_false _).symm
            crashes := rfl
            input := .inl ⟨by rw [hstage]; rfl, rfl⟩
            holds := fun h => by cases h }
      · obtain rfl := Option.some.inj h
        exact .move hstage rfl rfl le_rfl rfl rfl rfl
      · cases h
  · next hstage =>
      split at h
      · next signal rest _ =>
          obtain rfl := Option.some.inj h
          cases signal <;>
            exact .move hstage rfl rfl le_rfl rfl rfl rfl
      · cases h
  · cases h

/-- `close_session/1`, with which a controller ends. -/
theorem closeSession_change {p : LinkNames} {s : LinkRun} {old new : ControlStage}
    (hstage : s.stage = old) (hrun : old.over = false)
    (hcalls : new.calls p.node = old.calls p.node)
    (hanswered : new.answered s.reply ≤ old.answered s.reply) (hcloses : new.closes = true)
    (hcrashes : new.crashes = false) (hholds : new.holds = false) :
    ControlChange p s { s with stage := new, closed := true } false :=
  .quiet hstage hrun hcalls hanswered (by simp [hcloses]) hcrashes (by simp [hholds])

/-- **What a step of the controller does**, one case for each action. -/
theorem controlStep_change {p : LinkNames} {s s' : LinkRun} {a : ControlAction}
    (h : controlStep p s a = some s') : ControlChange p s s' a.breaks := by
  cases a with
  | trapExit =>
      obtain ⟨hstage, rfl⟩ := when_cases h
      exact .move hstage rfl rfl le_rfl rfl rfl rfl
  | killed =>
      obtain ⟨hstage, rfl⟩ := when_cases h
      exact .move hstage rfl rfl le_rfl rfl rfl rfl
  | link =>
      obtain ⟨hstage, rfl⟩ := when_cases h
      exact .move hstage rfl rfl le_rfl rfl rfl rfl
  | receive => exact receive_change h
  | closeSession =>
      simp only [controlStep] at h
      split at h
      · next hstage =>
          obtain rfl := Option.some.inj h
          exact closeSession_change hstage rfl rfl (Nat.zero_le _) rfl rfl rfl
      · next hstage =>
          obtain rfl := Option.some.inj h
          exact closeSession_change hstage rfl rfl le_rfl rfl rfl rfl
      · cases h
  | setOpt ok =>
      obtain ⟨hstage, rfl⟩ := when_cases h
      cases ok <;> exact .move hstage rfl rfl le_rfl rfl rfl rfl
  | inputHandler ok =>
      obtain ⟨hstage, rfl⟩ := when_cases h
      cases ok <;> exact .move hstage rfl rfl le_rfl rfl rfl rfl
  | startInput =>
      obtain ⟨hstage, rfl⟩ := when_cases h
      exact .move hstage rfl rfl le_rfl rfl rfl rfl
  | register path =>
      obtain ⟨hstage, rfl⟩ := when_cases h
      refine .send hstage rfl ?_ rfl le_rfl rfl rfl rfl
      rw [Message.linkCall, if_pos rfl]
      rfl
  | answered =>
      simp only [controlStep] at h
      split at h
      · next hstage hreply =>
          obtain rfl := Option.some.inj h
          exact .move hstage rfl rfl (by rw [hreply]; rfl) rfl rfl rfl
      · next hstage hreply =>
          obtain rfl := Option.some.inj h
          exact .move hstage rfl rfl (by rw [hreply]; rfl) rfl rfl rfl
      · cases h
  | failed =>
      simp only [controlStep] at h
      split at h
      · next hstage =>
          obtain rfl := Option.some.inj h
          exact .move hstage rfl rfl (Nat.zero_le _) rfl rfl rfl
      · next hstage =>
          obtain rfl := Option.some.inj h
          exact .move hstage rfl rfl (Nat.zero_le _) rfl rfl rfl
      · cases h
  | confirm =>
      obtain ⟨hstage, rfl⟩ := when_cases h
      exact .move hstage rfl rfl le_rfl rfl rfl rfl
  | notify ok =>
      obtain ⟨hstage, rfl⟩ := when_cases h
      cases ok <;> exact .move hstage rfl rfl le_rfl rfl rfl rfl
  | tick outcome =>
      obtain ⟨hstage, rfl⟩ := when_cases h
      exact sendPacket_change hstage (.inl rfl) (.inl rfl)
  | pull pulled =>
      cases pulled with
      | failed =>
          obtain ⟨hstage, rfl⟩ := when_cases h
          exact .move hstage rfl rfl le_rfl rfl rfl rfl
      | none =>
          obtain ⟨hstage, rfl⟩ := when_cases h
          exact .move hstage rfl rfl le_rfl rfl rfl rfl
      | packet packet outcome =>
          obtain ⟨hstage, rfl⟩ := when_cases h
          split
          · exact sendPacket_change hstage (.inr rfl) (.inr rfl)
          · exact .move hstage rfl rfl le_rfl rfl rfl rfl
  | unregister =>
      obtain ⟨hstage, rfl⟩ := when_cases h
      refine .send hstage rfl ?_ rfl le_rfl rfl rfl rfl
      rw [Message.linkCall, if_pos rfl]
      rfl

/-- The controller has left its output loop. -/
def ControlStage.left : ControlStage → Bool
  | .unregister | .unregistering | .closing | .ended _ => true
  | _ => false

/-- How a step of the controller leaves the output loop: the end of its input process
stays in the mailbox until it acts on it, what it has left it does not come back to,
and it ends without an answer to its registration only by a failed call. -/
structure ControlLeaves (s s' : LinkRun) (a : ControlAction) : Prop where
  exitSignal : s'.exitSignal = s.exitSignal
  left : s.stage.left = true → s'.stage.left = true
  inputExit : .inputExit ∈ s.mailbox → .inputExit ∈ s'.mailbox ∨ s'.stage.left = true
  unanswered : s'.stage = .ended .register → a = .failed ∧ s.stage = .registering

/-- A step that takes no message. -/
theorem ControlLeaves.move {s s' : LinkRun} {a : ControlAction}
    (hexit : s'.exitSignal = s.exitSignal) (hmailbox : s'.mailbox = s.mailbox)
    (hleft : s.stage.left = true → s'.stage.left = true)
    (hnew : s'.stage = .ended .register → a = .failed ∧ s.stage = .registering) :
    ControlLeaves s s' a :=
  ⟨hexit, hleft, fun hmem => .inl (hmailbox ▸ hmem), hnew⟩

theorem receive_leaves {s s' : LinkRun} (h : s.receive = some s') :
    ControlLeaves s s' .receive := by
  unfold LinkRun.receive at h
  split at h
  · next hstage =>
      -- the end of the input process is no message of `holder/2`
      have hkept : .inputExit ∈ s.mailbox → .inputExit ∈ s.mailbox.eraseP Signal.held :=
        (List.mem_eraseP_of_neg Bool.false_ne_true).mpr
      have hheld : s.stage.left ≠ true := by
        rw [hstage]
        exact Bool.false_ne_true
      split at h
      · obtain rfl := Option.some.inj h
        exact ⟨rfl, fun hleft => absurd hleft hheld, fun hmem => .inl (hkept hmem),
          fun h => by cases h⟩
      · obtain rfl := Option.some.inj h
        exact ⟨rfl, fun hleft => absurd hleft hheld, fun hmem => .inl (hkept hmem),
          fun h => by cases h⟩
      · cases h
  · next hstage =>
      have hwaits : s.stage.left ≠ true := by
        rw [hstage]
        exact Bool.false_ne_true
      split at h
      · next signal rest hmailbox =>
          obtain rfl := Option.some.inj h
          refine ⟨rfl, fun hleft => absurd hleft hwaits, ?_, ?_⟩
          · intro hmem
            rw [hmailbox] at hmem
            rcases List.mem_cons.mp hmem with rfl | hmem
            · exact .inr rfl
            · exact .inl hmem
          · intro hended
            cases signal <;> cases hended
      · cases h
  · cases h

theorem sendPacket_leaves {p : LinkNames} {s : LinkRun} {a : ControlAction}
    (hstage : s.stage.left = false) {length : ℕ} {iovec : List Binary} {outcome : WriteOutcome}
    {next : ControlStage} (hnext : next ≠ .ended .register) :
    ControlLeaves s (s.sendPacket p length iovec outcome next) a := by
  have hrunning : s.stage.left ≠ true := Bool.eq_false_iff.mp hstage
  unfold LinkRun.sendPacket
  split
  · exact .move rfl rfl (fun hleft => absurd hleft hrunning) fun h => absurd h hnext
  · exact .move rfl rfl (fun _ => rfl) fun h => by cases h

theorem controlStep_leaves {p : LinkNames} {s s' : LinkRun} {a : ControlAction}
    (h : controlStep p s a = some s') : ControlLeaves s s' a := by
  have hwhen : ∀ {old new}, s.when old new = some s' → new.exitSignal = s.exitSignal →
      new.mailbox = s.mailbox → (old.left = true → new.stage.left = true) →
      new.stage ≠ .ended .register → ControlLeaves s s' a := by
    intro old new hstep hexit hmailbox hleft hnew
    obtain ⟨hstage, rfl⟩ := when_cases hstep
    exact .move hexit hmailbox (fun hold => hleft (hstage ▸ hold)) fun h => absurd h hnew
  cases a with
  | trapExit => exact hwhen h rfl rfl (fun h => by cases h) (by simp)
  | killed => exact hwhen h rfl rfl (fun _ => rfl) (by simp)
  | link => exact hwhen h rfl rfl (fun h => by cases h) (by simp)
  | receive => exact receive_leaves h
  | closeSession =>
      simp only [controlStep] at h
      split at h
      · obtain rfl := Option.some.inj h
        exact .move rfl rfl (fun _ => rfl) (by simp)
      · obtain rfl := Option.some.inj h
        exact .move rfl rfl (fun _ => rfl) (by simp)
      · cases h
  | setOpt ok =>
      cases ok with
      | true => exact hwhen h rfl rfl (fun h => by cases h) (by simp)
      | false => exact hwhen h rfl rfl (fun _ => rfl) (by simp)
  | inputHandler ok =>
      cases ok with
      | true => exact hwhen h rfl rfl (fun h => by cases h) (by simp)
      | false => exact hwhen h rfl rfl (fun _ => rfl) (by simp)
  | startInput => exact hwhen h rfl rfl (fun h => by cases h) (by simp)
  | register path => exact hwhen h rfl rfl (fun h => by cases h) (by simp)
  | answered =>
      simp only [controlStep] at h
      split at h
      · next hstage _ =>
          obtain rfl := Option.some.inj h
          refine .move rfl rfl (fun hleft => ?_) (by simp)
          rw [hstage] at hleft
          cases hleft
      · obtain rfl := Option.some.inj h
        exact .move rfl rfl (fun _ => rfl) (by simp)
      · cases h
  | failed =>
      simp only [controlStep] at h
      split at h
      · next hstage =>
          obtain rfl := Option.some.inj h
          exact .move rfl rfl (fun _ => rfl) fun _ => ⟨rfl, hstage⟩
      · obtain rfl := Option.some.inj h
        exact .move rfl rfl (fun _ => rfl) (by simp)
      · cases h
  | confirm => exact hwhen h rfl rfl (fun h => by cases h) (by simp)
  | notify ok =>
      cases ok with
      | true => exact hwhen h rfl rfl (fun h => by cases h) (by simp)
      | false => exact hwhen h rfl rfl (fun _ => rfl) (by simp)
  | tick outcome =>
      obtain ⟨hstage, rfl⟩ := when_cases h
      exact sendPacket_leaves (by rw [hstage]; rfl) (by simp)
  | pull pulled =>
      cases pulled with
      | failed => exact hwhen h rfl rfl (fun _ => rfl) (by simp)
      | none => exact hwhen h rfl rfl (fun h => by cases h) (by simp)
      | packet packet outcome =>
          obtain ⟨hstage, rfl⟩ := when_cases h
          split
          · exact sendPacket_leaves (by rw [hstage]; rfl) (by simp)
          · exact .move rfl rfl (fun _ => rfl) (by simp)
  | unregister => exact hwhen h rfl rfl (fun _ => rfl) (by simp)

/-! ### The invariant -/

/-- The calls of this link that the server has taken up, in order. -/
def LinkRun.processed (p : LinkNames) (s : LinkRun) : List LinkCall :=
  s.history.filterMap (Message.linkCall p.owner)

/-- The calls taken up and those on their way are the ones the stage has sent,
and the stage knows how many have been answered. -/
structure LinkRun.Inv (p : LinkNames) (s : LinkRun) : Prop where
  calls : s.processed p ++ s.fromControl.filterMap (Message.linkCall p.owner) =
    s.stage.calls p.node
  answered : s.stage.answered s.reply ≤ (s.processed p).length
  closed : s.closed = s.stage.closes
  input : s.stage.holds = true → s.input = .absent
  control : ∀ m ∈ s.fromControl, m.counts p.node p.owner .received = (0, 0)
  reports : ∀ m ∈ s.fromInput, ∃ batch, m = p.report batch

theorem linkStart_inv (p : LinkNames) : LinkRun.start.Inv p where
  calls := rfl
  answered := le_rfl
  closed := rfl
  input := fun _ => rfl
  control := by simp [LinkRun.start]
  reports := by simp [LinkRun.start]

theorem controlStep_inv {p : LinkNames} {s s' : LinkRun} {a : ControlAction} (hs : s.Inv p)
    (h : controlStep p s a = some s') : s'.Inv p := by
  obtain ⟨hrun, hhistory, hreports, -, -, ⟨ms, hms, hcalls, hcounts⟩, hanswered, hclosed, -, -,
    hholds⟩ := controlStep_change h
  have hprocessed : s'.processed p = s.processed p := by rw [LinkRun.processed, hhistory]; rfl
  refine ⟨?_, ?_, ?_, ?_, ?_, ?_⟩
  · rw [hprocessed, hms, List.filterMap_append, ← List.append_assoc, hs.calls, hcalls]
  · rw [hprocessed]
    exact hanswered.trans hs.answered
  · have hopen : s.closed = false := by
      rw [hs.closed]
      cases hstage : s.stage with
      | ended how =>
          rw [hstage] at hrun
          cases hrun
      | _ => rfl
    rw [hclosed, hopen, Bool.false_or]
  · intro hheld
    obtain ⟨hold, hinput⟩ := hholds hheld
    rw [hinput]
    exact hs.input hold
  · intro m hm
    rw [hms] at hm
    rcases List.mem_append.mp hm with hm | hm
    · exact hs.control m hm
    · exact hcounts m hm
  · rw [hreports]
    exact hs.reports

/-- A turn of the server on a message of this link or of another. -/
theorem serve_inv {p : LinkNames} {s : LinkRun} {m : Message} {call : List LinkCall}
    (hcall : (m.linkCall p.owner).toList = call)
    (hcalls : s.processed p ++ (call ++ s.fromControl.filterMap (Message.linkCall p.owner)) =
      s.stage.calls p.node)
    (hanswered : s.stage.answered s.reply ≤ (s.processed p).length)
    (hclosed : s.closed = s.stage.closes) (hinput : s.stage.holds = true → s.input = .absent)
    (hcontrol : ∀ m ∈ s.fromControl, m.counts p.node p.owner .received = (0, 0))
    (hreports : ∀ m ∈ s.fromInput, ∃ batch, m = p.report batch) : (s.serve p m).Inv p := by
  have hprocessed : (s.serve p m).processed p = s.processed p ++ call := by
    rw [← hcall]
    show (s.history ++ [m]).filterMap _ = s.history.filterMap _ ++ _
    rw [List.filterMap_append]
    cases hm : m.linkCall p.owner <;> simp [hm]
  refine ⟨?_, ?_, hclosed, hinput, hcontrol, hreports⟩
  · rw [hprocessed, List.append_assoc]
    exact hcalls
  · -- an answer counts only at the two stages that wait for one
    rw [hprocessed, List.length_append, ← hcall]
    show s.stage.answered (s.reply || (m.linkCall p.owner).isSome) ≤ _
    have hone : s.stage.answered (s.reply || (m.linkCall p.owner).isSome) ≤
        s.stage.answered s.reply + (m.linkCall p.owner).toList.length := by
      cases m.linkCall p.owner with
      | none => simp
      | some c => exact s.stage.answered_le_succ s.reply _
    omega

theorem report_linkCall (p : LinkNames) (batch : List (List Binary)) :
    (p.report batch).linkCall p.owner = none := rfl

theorem linkCall_of_owner {owner : Pid} {m : Message} (h : m.owner ≠ some owner) :
    m.linkCall owner = none := by
  cases m with
  | call request caller =>
      cases request with
      | registerLink node session o path => exact if_neg fun ho => h (congrArg some ho)
      | unregisterLink node o => exact if_neg fun ho => h (congrArg some ho)
      | _ => rfl
  | _ => rfl

/-- Every step of the input process, with what it finds. -/
inductive InputMove (p : LinkNames) (s : LinkRun) : InputAction → LinkRun → Prop
  | begin : s.input = .unstarted → s.told = true →
      InputMove p s .begin { s with input := .receiving parserNew }
  | recv {data parser packets parser'} : s.input = .receiving parser →
      parserFeed parser data p.session.maxFrame = .ok (packets, parser') →
      InputMove p s (.recv data) { s with input := .putting parser' [] packets }
  | refuse {data parser error} : s.input = .receiving parser →
      parserFeed parser data p.session.maxFrame = .error error →
      InputMove p s (.recv data) s.endInput
  | put {parser done packet todo} : s.input = .putting parser done (packet :: todo) →
      InputMove p s .put
        { s with input := .putting parser (done ++ [packet]) todo, handed := s.handed ++ [packet] }
  | report {parser done} : s.input = .putting parser done [] →
      InputMove p s .report
        { s with input := .receiving parser, fromInput := s.fromInput ++ [p.report done] }
  | fail : s.input ≠ .absent → s.input ≠ .ended → InputMove p s .fail s.endInput

theorem inputStep_move {p : LinkNames} {s s' : LinkRun} {a : InputAction}
    (h : inputStep p s a = some s') : InputMove p s a s' := by
  cases a with
  | begin =>
      simp only [inputStep] at h
      split at h
      · next hinput htold =>
          obtain rfl := Option.some.inj h
          exact .begin hinput htold
      · cases h
  | recv data =>
      simp only [inputStep] at h
      split at h
      · next hinput =>
          split at h
          · next hfeed =>
              obtain rfl := Option.some.inj h
              exact .recv hinput hfeed
          · next hfeed =>
              obtain rfl := Option.some.inj h
              exact .refuse hinput hfeed
      · cases h
  | put =>
      simp only [inputStep] at h
      split at h
      · next hinput =>
          obtain rfl := Option.some.inj h
          exact .put hinput
      · cases h
  | report =>
      simp only [inputStep] at h
      split at h
      · next hinput =>
          obtain rfl := Option.some.inj h
          exact .report hinput
      · cases h
  | fail =>
      simp only [inputStep] at h
      split at h
      · cases h
      · cases h
      · next habsent hended =>
          obtain rfl := Option.some.inj h
          exact .fail habsent hended

/-- Only a process that has been spawned takes steps. -/
theorem InputMove.spawned {p : LinkNames} {s s' : LinkRun} {a : InputAction}
    (h : InputMove p s a s') : s.input ≠ .absent := by
  cases h with
  | begin hinput _ => rw [hinput]; exact InputStage.noConfusion
  | recv hinput _ => rw [hinput]; exact InputStage.noConfusion
  | refuse hinput _ => rw [hinput]; exact InputStage.noConfusion
  | put hinput => rw [hinput]; exact InputStage.noConfusion
  | report hinput => rw [hinput]; exact InputStage.noConfusion
  | fail habsent _ => exact habsent

/-- The input process leaves the controller and the server alone, and sends
nothing but reports. -/
theorem InputMove.frame {p : LinkNames} {s s' : LinkRun} {a : InputAction}
    (h : InputMove p s a s') :
    s'.stage = s.stage ∧ s'.reply = s.reply ∧ s'.closed = s.closed ∧
      s'.fromControl = s.fromControl ∧ s'.history = s.history ∧
      ∃ ms, s'.fromInput = s.fromInput ++ ms ∧ ∀ m ∈ ms, ∃ batch, m = p.report batch := by
  have hnothing : ∃ ms, s.fromInput = s.fromInput ++ ms ∧ ∀ m ∈ ms, ∃ batch, m = p.report batch :=
    ⟨[], (List.append_nil _).symm, by simp⟩
  cases h with
  | report _ =>
      refine ⟨rfl, rfl, rfl, rfl, rfl, _, rfl, ?_⟩
      intro m hm
      exact ⟨_, List.mem_singleton.mp hm⟩
  | _ => exact ⟨rfl, rfl, rfl, rfl, rfl, hnothing⟩

/-- Every step of the system. -/
inductive LinkMove (p : LinkNames) (s : LinkRun) : LinkAction → LinkRun → Prop
  | control {a s'} : controlStep p s a = some s' → LinkMove p s (.control a) s'
  | input {a s'} : InputMove p s a s' → LinkMove p s (.input a) s'
  | post {signal} : signal ≠ .inputExit → (signal = .parentExit → s.stage ≠ .spawned) →
      LinkMove p s (.post signal) { s with mailbox := s.mailbox ++ [signal] }
  | exitSignal : s.exitSignal = true →
      LinkMove p s .exitSignal
        { s with mailbox := s.mailbox ++ [.inputExit], exitSignal := false }
  | serveControl {m rest} : s.fromControl = m :: rest →
      LinkMove p s .serveControl ({ s with fromControl := rest }.serve p m)
  | serveInput {m rest} : s.fromInput = m :: rest →
      LinkMove p s .serveInput ({ s with fromInput := rest }.serve p m)
  | serveOther {m} : m.owner ≠ some p.owner → LinkMove p s (.serveOther m) (s.serve p m)

theorem linkRunStep_move {p : LinkNames} {s s' : LinkRun} {a : LinkAction}
    (h : linkRunStep p s a = some s') : LinkMove p s a s' := by
  cases a with
  | control a => exact .control h
  | input a => exact .input (inputStep_move h)
  | post signal =>
      simp only [linkRunStep] at h
      split at h
      · next hguard =>
          obtain rfl := Option.some.inj h
          exact .post hguard.1 hguard.2
      · cases h
  | exitSignal =>
      simp only [linkRunStep] at h
      split at h
      · next hsignal =>
          obtain rfl := Option.some.inj h
          exact .exitSignal hsignal
      · cases h
  | serveControl =>
      simp only [linkRunStep] at h
      split at h
      · next hbox =>
          obtain rfl := Option.some.inj h
          exact .serveControl hbox
      · cases h
  | serveInput =>
      simp only [linkRunStep] at h
      split at h
      · next hbox =>
          obtain rfl := Option.some.inj h
          exact .serveInput hbox
      · cases h
  | serveOther m =>
      simp only [linkRunStep] at h
      split at h
      · next howner =>
          obtain rfl := Option.some.inj h
          exact .serveOther howner
      · cases h

/-- Once the controller has left its output loop it has left it for good. -/
theorem linkRunStep_left {p : LinkNames} {s s' : LinkRun} {a : LinkAction}
    (h : linkRunStep p s a = some s') : s.stage.left = true → s'.stage.left = true := by
  cases linkRunStep_move h with
  | control hstep => exact (controlStep_leaves hstep).left
  | input hmove =>
      rw [hmove.frame.1]
      exact id
  | _ => exact id

/-- Every step keeps the invariant. -/
theorem linkRunStep_inv (p : LinkNames) (s : LinkRun) (a : LinkAction) (s' : LinkRun)
    (hs : s.Inv p) (h : linkRunStep p s a = some s') : s'.Inv p := by
  cases linkRunStep_move h with
  | control hstep => exact controlStep_inv hs hstep
  | input hmove =>
      obtain ⟨hstage, hreply, hclosed, hcontrol, hhistory, ms, hms, hreports⟩ := hmove.frame
      refine ⟨?_, ?_, ?_, ?_, ?_, ?_⟩
      · rw [LinkRun.processed, hhistory, hcontrol, hstage]
        exact hs.calls
      · rw [LinkRun.processed, hhistory, hstage, hreply]
        exact hs.answered
      · rw [hclosed, hstage]
        exact hs.closed
      · rw [hstage]
        intro hheld
        exact absurd (hs.input hheld) hmove.spawned
      · rw [hcontrol]
        exact hs.control
      · intro m hm
        rw [hms] at hm
        rcases List.mem_append.mp hm with hm | hm
        · exact hs.reports m hm
        · exact hreports m hm
  | post _ _ => exact ⟨hs.calls, hs.answered, hs.closed, hs.input, hs.control, hs.reports⟩
  | exitSignal _ => exact ⟨hs.calls, hs.answered, hs.closed, hs.input, hs.control, hs.reports⟩
  | @serveControl m rest hbox =>
      have hcontrol := hs.control
      have hcalls := hs.calls
      rw [hbox] at hcontrol hcalls
      refine serve_inv rfl ?_ hs.answered hs.closed hs.input
        (fun m' hm' => hcontrol m' (List.mem_cons_of_mem m hm')) hs.reports
      rw [← hcalls]
      cases hm : m.linkCall p.owner <;> simp [hm, LinkRun.processed]
  | @serveInput m rest hbox =>
      have hreports := hs.reports
      rw [hbox] at hreports
      obtain ⟨batch, rfl⟩ := hreports m List.mem_cons_self
      exact serve_inv (by rw [report_linkCall]) hs.calls hs.answered hs.closed hs.input
        hs.control (fun m' hm' => hreports m' (List.mem_cons_of_mem _ hm'))
  | serveOther howner =>
      exact serve_inv (by rw [linkCall_of_owner howner]) hs.calls hs.answered hs.closed hs.input
        hs.control hs.reports

/-! ### What the server has taken up -/

/-- A registration that was taken up is followed by its removal. -/
theorem removal_of_processed {p : LinkNames} {s : LinkRun}
    (hprocessed : s.processed p = [] ∨
      s.processed p = [.register p.node, .unregister p.node])
    {before after : List Message} {m : Message} {node : Atom}
    (hhistory : s.history = before ++ m :: after)
    (hm : m.linkCall p.owner = some (.register node)) :
    ∃ m' ∈ after, m'.linkCall p.owner = some (.unregister node) := by
  have hsplit : s.processed p = before.filterMap (Message.linkCall p.owner) ++
      .register node :: after.filterMap (Message.linkCall p.owner) := by
    rw [LinkRun.processed, hhistory, List.filterMap_append, List.filterMap_cons_some hm]
  rcases hprocessed with hnone | hboth
  · rw [hnone] at hsplit
    exact absurd hsplit.symm (by simp)
  · rw [hboth] at hsplit
    cases hbefore : before.filterMap (Message.linkCall p.owner) with
    | nil =>
        rw [hbefore, List.nil_append] at hsplit
        obtain ⟨hnode, hafter⟩ := List.cons.inj hsplit
        obtain rfl := LinkCall.register.inj hnode
        have hmem : LinkCall.unregister p.node ∈ after.filterMap (Message.linkCall p.owner) := by
          rw [← hafter]
          exact List.mem_singleton_self _
        obtain ⟨m', hm', hcall⟩ := List.mem_filterMap.mp hmem
        exact ⟨m', hm', hcall⟩
    | cons c cs =>
        -- the registration is the first call of the two
        rw [hbefore, List.cons_append] at hsplit
        obtain ⟨-, htail⟩ := List.cons.inj hsplit
        cases cs with
        | nil => cases (List.cons.inj htail).1
        | cons d ds => exact absurd (congrArg List.length htail) (by simp)

/-- A registration of this owner is a call of it. -/
theorem linkCall_of_registration {m : Message} {node : Atom} {link : Link}
    (h : m.registration node = some link) : m.linkCall link.owner = some (.register node) := by
  unfold Message.registration at h
  split at h
  · split at h
    · next hnode =>
        obtain rfl := Option.some.inj h
        rw [Message.linkCall, if_pos rfl, hnode]
    · cases h
  · cases h

/-- The removal takes the entry out of the table. -/
theorem removes_of_linkCall {m : Message} {node : Atom} {owner : Pid}
    (h : m.linkCall owner = some (.unregister node)) : m.removes node owner = true := by
  unfold Message.linkCall at h
  split at h
  · split at h <;> cases h
  · split at h
    · next howner =>
        obtain rfl := LinkCall.unregister.inj (Option.some.inj h)
        exact decide_eq_true ⟨rfl, howner⟩
    · cases h
  · cases h

/-- Where every registration of the owner is followed by its removal, the table
has no entry of the owner. -/
theorem no_entry_of_removals {p : LinkNames} {server : Server} (hserver : server.links = ∅)
    {s : LinkRun}
    (hordered : ∀ before m after node, s.history = before ++ m :: after →
      m.linkCall p.owner = some (.register node) →
      ∃ m' ∈ after, m'.linkCall p.owner = some (.unregister node))
    {node : Atom} {link : Link} (hlink : (s.links server).lookup node = some link) :
    link.owner ≠ p.owner := by
  intro howner
  have hof := linkOf_serveAll hserver s.history node
  obtain ⟨before, m, after, link', hhistory, hm, hlast, hkept⟩ :=
    hof.present.mp (Option.isSome_iff_exists.mpr ⟨link, hlink⟩)
  obtain ⟨hsame, -⟩ := hof.counters before m after link' link hhistory hm hlast hlink
  rw [howner] at hsame
  obtain ⟨m', hm', hcall⟩ :=
    hordered before m after node hhistory (by rw [hsame]; exact linkCall_of_registration hm)
  have hremoves := hkept m' hm'
  rw [← hsame, removes_of_linkCall hcall] at hremoves
  cases hremoves

/-! ### A sample link -/

def sampleNames : LinkNames := ⟨atom "b@h", sampleConfig.session 0 0 samplePeerId, 5⟩

def linkServer : Server := .start sampleConfig 0 samplePeerId ⟨samplePeerId, [], []⟩ 0 9

/-- From `start_link/1` to the `register_link` call of the set-up. -/
def setUp : List LinkAction :=
  [.control .trapExit, .control .link, .post .handshakeComplete, .control .receive,
    .control (.setOpt true), .control (.inputHandler true), .control .startInput,
    .control (.register none)]

end IrohBeam
