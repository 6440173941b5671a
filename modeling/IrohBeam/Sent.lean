/-
IrohBeam/Sent.lean

The counters of what a link has sent, and the bytes on its stream.

The controller sends a packet, and when the stream has taken all of its frame,
casts its length to the server (`send_packet/4` of
`src/iroh_dist_controller.erl`).  A `SentRun` is the system of
`IrohBeam/LinkSystem.lean` with what the controller has written to the stream,
the packets it has sent and the one whose send has failed.

What is on the stream needs no account of its own: the sends of a run are events
of the output loop of `IrohBeam/Controller.lean`, which writes the same
(`run_mirrors`).

The registration goes through the same channel as the casts and before them, and
the link is not registered by anyone else under this owner; so unlike what is
received (`IrohBeam/Received.lean`) nothing is counted too early, and

    taken up + on its way  =  sent

in every run (`sentStep_account`).  `sent_exact` adds what is on the stream: the
frames of the packets that are counted, and behind them at most the beginning of
one more, after which the controller does not send again.
-/
import IrohBeam.Received

namespace IrohBeam

open Transition Bytes

/-! ### What is sent -/

/-- The bytes and frames that messages report as sent on this link. -/
def LinkNames.sentCounted (p : LinkNames) (ms : List Message) : ℕ × ℕ :=
  (ms.map (Message.counts p.node p.owner .sent)).sum

/-- Size and number of the packets sent. -/
def sentMeasure (packets : List Binary) : ℕ × ℕ := ((packets.map List.length).sum, packets.length)

/-- What a step of the controller calls `send_packet/4` with, and what the stream
does. -/
def ControlAction.packet (p : LinkNames) : ControlAction → Option (List Binary × WriteOutcome)
  | .tick outcome => some ([], outcome)
  | .pull (.packet packet outcome) =>
      if packet.length ≤ p.session.maxFrame then some (packet.iovec, outcome) else none
  | _ => none

/-- A link with what its controller has written to the stream, the packets it has
sent and the packet whose send has failed. -/
structure SentRun where
  link : LinkRun
  written : Binary
  sent : List Binary
  failed : Option Binary

def SentRun.start : SentRun := ⟨.start, [], [], none⟩

/-- The stream takes a packet, or a part of it. -/
def SentRun.send (p : LinkNames) (s : SentRun) (link : LinkRun) (iovec : List Binary)
    (outcome : WriteOutcome) : SentRun :=
  match sendPacket p.session iovec.flatten.length iovec outcome with
  | (written, .ok ()) => ⟨link, s.written ++ written, s.sent ++ [iovec.flatten], s.failed⟩
  | (written, .error _) => ⟨link, s.written ++ written, s.sent, some iovec.flatten⟩

/-- One step of the link. -/
def sentStep (p : LinkNames) (s : SentRun) : LinkAction → Option SentRun
  | .control a =>
      (controlStep p s.link a).map fun link =>
        match a.packet p with
        | some (iovec, outcome) => s.send p link iovec outcome
        | none => { s with link }
  | a => (linkRunStep p s.link a).map fun link => { s with link }

/-! ### Counting -/

section Count

variable {p : LinkNames}

theorem sentCounted_append (ms ms' : List Message) :
    p.sentCounted (ms ++ ms') = p.sentCounted ms + p.sentCounted ms' := by
  rw [LinkNames.sentCounted, List.map_append, List.sum_append]
  rfl

theorem sentCounted_cons (m : Message) (ms : List Message) :
    p.sentCounted (m :: ms) = m.counts p.node p.owner .sent + p.sentCounted ms := rfl

theorem sentCounted_singleton (m : Message) :
    p.sentCounted [m] = m.counts p.node p.owner .sent := add_zero _

theorem sentMeasure_concat (packets : List Binary) (packet : Binary) :
    sentMeasure (packets ++ [packet]) = sentMeasure packets + (packet.length, 1) := by
  simp [sentMeasure]

/-- The counters of an entry are the two parts of `sentCounted`. -/
theorem sentCounted_eq (ms : List Message) :
    p.sentCounted ms =
      (bytesCounted p.node p.owner .sent ms, framesCounted p.node p.owner .sent ms) := by
  induction ms with
  | nil => rfl
  | cons m ms ih =>
      rw [sentCounted_cons, ih]
      rfl

/-- What speaks for another process reports nothing of this link. -/
theorem sent_of_owner {m : Message} (h : m.owner ≠ some p.owner) :
    m.counts p.node p.owner .sent = 0 := by
  cases m with
  | updateLink node owner direction bytes frames =>
      exact if_neg fun hall => h (congrArg some hall.2.1)
  | _ => rfl

/-- The input process reports nothing sent. -/
theorem report_sent (batch : List (List Binary)) :
    (p.report batch).counts p.node p.owner .sent = 0 :=
  if_neg fun hall => by cases hall.2.2

end Count

/-! ### What a step of the controller sends -/

/-- The controller is in its output loop, where it sends. -/
def ControlStage.sends : ControlStage → Bool
  | .ticking | .pulling => true
  | _ => false

/-- A step that sends no packet, but a call perhaps. -/
def Quiet (p : LinkNames) (s s' : LinkRun) : Prop :=
  s'.fromControl = s.fromControl ∨
    ∃ m, s'.fromControl = s.fromControl ++ [m] ∧ m.counts p.node p.owner .sent = 0

theorem receive_quiet {p : LinkNames} {s s' : LinkRun} (h : s.receive = some s') :
    Quiet p s s' := by
  unfold LinkRun.receive at h
  split at h
  · split at h
    · obtain rfl := Option.some.inj h
      exact .inl rfl
    · obtain rfl := Option.some.inj h
      exact .inl rfl
    · cases h
  · split at h
    · obtain rfl := Option.some.inj h
      exact .inl rfl
    · cases h
  · cases h

/-- What a step of the controller sends: a packet, or none. -/
inductive ControlSends (p : LinkNames) (s s' : LinkRun) (a : ControlAction) : Prop
  | packet {iovec outcome next} : a.packet p = some (iovec, outcome) →
      iovec.flatten.length ≤ p.session.maxFrame → s.stage.sends = true →
      s' = s.sendPacket p iovec.flatten.length iovec outcome next → ControlSends p s s' a
  | quiet : a.packet p = none → Quiet p s s' → ControlSends p s s' a

theorem controlStep_sends {p : LinkNames} {s s' : LinkRun} {a : ControlAction}
    (h : controlStep p s a = some s') : ControlSends p s s' a := by
  have hwhen : ∀ {old new}, s.when old new = some s' → new.fromControl = s.fromControl →
      Quiet p s s' := by
    intro old new hstep hchannel
    obtain ⟨-, rfl⟩ := when_cases hstep
    exact .inl hchannel
  cases a with
  | trapExit => exact .quiet rfl (hwhen h rfl)
  | killed => exact .quiet rfl (hwhen h rfl)
  | link => exact .quiet rfl (hwhen h rfl)
  | receive => exact .quiet rfl (receive_quiet h)
  | closeSession =>
      refine .quiet rfl ?_
      simp only [controlStep] at h
      split at h
      · obtain rfl := Option.some.inj h
        exact .inl rfl
      · obtain rfl := Option.some.inj h
        exact .inl rfl
      · cases h
  | setOpt ok => exact .quiet rfl (hwhen h rfl)
  | inputHandler ok => exact .quiet rfl (hwhen h rfl)
  | startInput => exact .quiet rfl (hwhen h rfl)
  | register path =>
      obtain ⟨-, rfl⟩ := when_cases h
      exact .quiet rfl (.inr ⟨_, rfl, rfl⟩)
  | answered =>
      refine .quiet rfl ?_
      simp only [controlStep] at h
      split at h
      · obtain rfl := Option.some.inj h
        exact .inl rfl
      · obtain rfl := Option.some.inj h
        exact .inl rfl
      · cases h
  | failed =>
      refine .quiet rfl ?_
      simp only [controlStep] at h
      split at h
      · obtain rfl := Option.some.inj h
        exact .inl rfl
      · obtain rfl := Option.some.inj h
        exact .inl rfl
      · cases h
  | confirm => exact .quiet rfl (hwhen h rfl)
  | notify ok => exact .quiet rfl (hwhen h rfl)
  | tick outcome =>
      obtain ⟨hstage, rfl⟩ := when_cases h
      exact .packet rfl (Nat.zero_le _) (by rw [hstage]; rfl) rfl
  | pull pulled =>
      cases pulled with
      | failed => exact .quiet rfl (hwhen h rfl)
      | none => exact .quiet rfl (hwhen h rfl)
      | packet packet outcome =>
          obtain ⟨hstage, rfl⟩ := when_cases h
          by_cases hfits : packet.length ≤ p.session.maxFrame
          · have hsend : (if packet.length ≤ p.session.maxFrame then
                  s.sendPacket p packet.length packet.iovec outcome .pulling
                else { s with stage := .unregister }) =
                s.sendPacket p packet.iovec.flatten.length packet.iovec outcome .pulling := by
              rw [if_pos hfits, packet.size_eq]
            exact .packet (if_pos hfits) (by rwa [packet.size_eq]) (by rw [hstage]; rfl) hsend
          · refine .quiet (if_neg hfits) ?_
            rw [if_neg hfits]
            exact .inl rfl
  | unregister =>
      obtain ⟨-, rfl⟩ := when_cases h
      exact .quiet rfl (.inr ⟨_, rfl, rfl⟩)

/-! ### The account -/

/-- Before the registration nothing is reported as sent. -/
def LinkNames.Late (p : LinkNames) (ms : List Message) : Prop :=
  ∀ before, before <+: ms → (∀ m ∈ before, m.linkCall p.owner ≠ some (.register p.node)) →
    p.sentCounted before = 0

section Late

variable {p : LinkNames}

/-- What reports nothing may stand anywhere. -/
theorem late_insert {before after : List Message} {m : Message} (h : p.Late (before ++ after))
    (hm : m.counts p.node p.owner .sent = 0) : p.Late (before ++ m :: after) := by
  intro start hprefix hnone
  rcases List.prefix_or_prefix_of_prefix hprefix (List.prefix_append before _) with
    hstart | ⟨rest, rfl⟩
  · exact h start (hstart.trans (List.prefix_append _ _)) hnone
  · have hrest := (List.prefix_append_right_inj before).mp hprefix
    cases rest with
    | nil =>
        rw [List.append_nil]
        exact h before (List.prefix_append _ _) fun m' hm' =>
          hnone m' (List.mem_append_left _ hm')
    | cons m' rest =>
        obtain ⟨rfl, htail⟩ := List.cons_prefix_cons.mp hrest
        have hold : p.sentCounted (before ++ rest) = 0 := by
          refine h _ ((List.prefix_append_right_inj _).mpr htail) fun m'' hm'' => hnone m'' ?_
          exact (List.mem_append.mp hm'').elim (List.mem_append_left _)
            fun hmem => List.mem_append_right _ (List.mem_cons_of_mem _ hmem)
        rw [sentCounted_append, sentCounted_cons, hm, zero_add, ← sentCounted_append]
        exact hold

/-- Anything may stand behind the registration. -/
theorem late_concat {ms : List Message} {m m' : Message} (h : p.Late ms) (hmem : m' ∈ ms)
    (hregister : m'.linkCall p.owner = some (.register p.node)) : p.Late (ms ++ [m]) := by
  intro before hprefix hnone
  rcases List.prefix_concat_iff.mp hprefix with rfl | hprefix
  · exact absurd hregister (hnone m' (List.mem_append_left _ hmem))
  · exact h before hprefix hnone

end Late

/-- What is sent has been taken up or is on its way, and no report is ahead of
the registration. -/
structure SentRun.Account (p : LinkNames) (s : SentRun) : Prop where
  total : p.sentCounted s.link.history + p.sentCounted s.link.fromControl = sentMeasure s.sent
  late : p.Late (s.link.history ++ s.link.fromControl)

theorem sentStart_account (p : LinkNames) : SentRun.start.Account p where
  total := rfl
  late := by
    intro before hprefix _
    rw [List.prefix_nil.mp hprefix]
    rfl

/-- A step that sends no packet keeps the account. -/
theorem SentRun.Account.quiet {p : LinkNames} {s : SentRun} {link : LinkRun} (hs : s.Account p)
    (hhistory : link.history = s.link.history) (h : Quiet p s.link link) :
    SentRun.Account p { s with link } := by
  constructor
  · show p.sentCounted link.history + p.sentCounted link.fromControl = _
    rw [← hs.total, hhistory]
    rcases h with hchannel | ⟨m, hchannel, hm⟩
    · rw [hchannel]
    · rw [hchannel, sentCounted_append, sentCounted_singleton, hm, add_zero]
  · show p.Late (link.history ++ link.fromControl)
    rw [hhistory]
    rcases h with hchannel | ⟨m, hchannel, hm⟩
    · rw [hchannel]
      exact hs.late
    · rw [hchannel, ← List.append_assoc]
      exact late_insert (by rw [List.append_nil]; exact hs.late) hm

/-- In the output loop the registration has been sent. -/
theorem register_of_sends {p : LinkNames} {s : LinkRun} (hs : s.Inv p)
    (h : s.stage.sends = true) :
    ∃ m ∈ s.history ++ s.fromControl, m.linkCall p.owner = some (.register p.node) := by
  have hcalls : s.stage.calls p.node = [.register p.node] := by
    cases hstage : s.stage with
    | ticking => rfl
    | pulling => rfl
    | _ =>
        rw [hstage] at h
        cases h
  have hmem : .register p.node ∈ (s.history ++ s.fromControl).filterMap
      (Message.linkCall p.owner) := by
    rw [List.filterMap_append]
    exact (hs.calls.trans hcalls) ▸ List.mem_singleton_self _
  exact List.mem_filterMap.mp hmem

/-- The stream takes a packet, or a part of it. -/
theorem send_account {p : LinkNames} (hp : p.session.Sound) {s : SentRun} (hinv : s.link.Inv p)
    (hs : s.Account p) {iovec : List Binary} (outcome : WriteOutcome) {next : ControlStage}
    (hfits : iovec.flatten.length ≤ p.session.maxFrame) (hsends : s.link.stage.sends = true) :
    (s.send p (s.link.sendPacket p iovec.flatten.length iovec outcome next) iovec
      outcome).Account p := by
  have hsend := sendPacket_eq hp hfits rfl outcome
  cases outcome with
  | complete =>
      simp only [SentRun.send, LinkRun.sendPacket, hsend]
      constructor
      · show p.sentCounted s.link.history + p.sentCounted (s.link.fromControl ++ [_]) =
          sentMeasure (s.sent ++ [iovec.flatten])
        rw [sentCounted_append, sentCounted_singleton, sentMeasure_concat, ← add_assoc, hs.total,
          Message.counts, if_pos ⟨rfl, rfl, rfl⟩]
      · obtain ⟨m, hm, hregister⟩ := register_of_sends hinv hsends
        show p.Late (s.link.history ++ (s.link.fromControl ++ [_]))
        rw [← List.append_assoc]
        exact late_concat hs.late hm hregister
  | failed accepted error =>
      simp only [SentRun.send, LinkRun.sendPacket, hsend]
      exact ⟨hs.total, hs.late⟩

/-- The server takes up a message that reports nothing sent. -/
theorem serve_sent_account {p : LinkNames} {s : SentRun} {link : LinkRun} {m : Message}
    (hs : s.Account p) (hhistory : link.history = s.link.history ++ [m])
    (hchannel : link.fromControl = s.link.fromControl)
    (hm : m.counts p.node p.owner .sent = 0) : SentRun.Account p { s with link } := by
  constructor
  · show p.sentCounted link.history + p.sentCounted link.fromControl = _
    rw [hhistory, hchannel, sentCounted_append, sentCounted_singleton, hm, add_zero]
    exact hs.total
  · show p.Late (link.history ++ link.fromControl)
    rw [hhistory, hchannel, List.append_assoc]
    exact late_insert hs.late hm

/-- What is recorded beside the link takes part in no step. -/
theorem sentStep_link (p : LinkNames) (s : SentRun) (a : LinkAction) :
    (sentStep p s a).map SentRun.link = linkRunStep p s.link a := by
  have hsend : ∀ link iovec outcome, (s.send p link iovec outcome).link = link := by
    intro link iovec outcome
    unfold SentRun.send
    split <;> rfl
  cases a with
  | control a =>
      show ((controlStep p s.link a).map _).map _ = controlStep p s.link a
      rw [Option.map_map]
      cases controlStep p s.link a with
      | none => rfl
      | some link =>
          rw [Option.map_some]
          refine congrArg some ?_
          rw [Function.comp_apply]
          split
          · exact hsend _ _ _
          · rfl
  | _ =>
      show ((linkRunStep p s.link _).map _).map _ = _
      rw [Option.map_map]
      exact Option.map_id_apply

theorem run_sentStep_link (p : LinkNames) (as : List LinkAction) (s : SentRun) :
    (run (sentStep p) s as).map SentRun.link = run (linkRunStep p) s.link as :=
  (run_map (fun s a => (sentStep_link p s a).symm) s as).symm

/-- **The step lemma**: every step keeps the account. -/
theorem sentStep_account {p : LinkNames} (hp : p.session.Sound) {s s' : SentRun} {a : LinkAction}
    (hinv : s.link.Inv p) (hs : s.Account p) (h : sentStep p s a = some s') : s'.Account p := by
  have hlink : linkRunStep p s.link a = some s'.link := by
    rw [← sentStep_link, h]
    rfl
  cases a with
  | control a =>
      obtain ⟨link, hstep, rfl⟩ := Option.map_eq_some_iff.mp h
      have hhistory := (controlStep_change hstep).history
      cases controlStep_sends hstep with
      | packet hpacket hfits hsends hs' =>
          rw [hpacket]
          rw [hs']
          exact send_account hp hinv hs _ hfits hsends
      | quiet hpacket hquiet =>
          rw [hpacket]
          exact hs.quiet hhistory hquiet
  | input a =>
      obtain ⟨link, hstep, rfl⟩ := Option.map_eq_some_iff.mp h
      obtain ⟨-, -, -, hchannel, hhistory, -⟩ := (inputStep_move hstep).frame
      exact hs.quiet hhistory (.inl hchannel)
  | post signal =>
      obtain ⟨link, hstep, rfl⟩ := Option.map_eq_some_iff.mp h
      cases linkRunStep_move hstep with
      | post _ _ => exact hs.quiet rfl (.inl rfl)
  | exitSignal =>
      obtain ⟨link, hstep, rfl⟩ := Option.map_eq_some_iff.mp h
      cases linkRunStep_move hstep with
      | exitSignal _ => exact hs.quiet rfl (.inl rfl)
  | serveControl =>
      obtain ⟨link, hstep, rfl⟩ := Option.map_eq_some_iff.mp h
      cases linkRunStep_move hstep with
      | @serveControl m rest hbox =>
          -- the message only changes its place
          constructor
          · show p.sentCounted (s.link.history ++ [m]) + p.sentCounted rest = _
            rw [← hs.total, hbox, sentCounted_append, sentCounted_singleton, sentCounted_cons,
              add_assoc]
          · show p.Late (s.link.history ++ [m] ++ rest)
            have hlate := hs.late
            rwa [hbox, List.append_cons] at hlate
  | serveInput =>
      obtain ⟨link, hstep, rfl⟩ := Option.map_eq_some_iff.mp h
      cases linkRunStep_move hstep with
      | @serveInput m rest hbox =>
          obtain ⟨batch, rfl⟩ := hinv.reports m (by rw [hbox]; exact List.mem_cons_self)
          exact serve_sent_account hs rfl rfl (report_sent batch)
  | serveOther m =>
      obtain ⟨link, hstep, rfl⟩ := Option.map_eq_some_iff.mp h
      cases linkRunStep_move hstep with
      | serveOther howner => exact serve_sent_account hs rfl rfl (sent_of_owner howner)

/-! ### What is on the stream -/

/-- The event of the output loop that a step of the controller is. -/
def ControlAction.event : ControlAction → Option (ControllerEvent × WriteOutcome)
  | .tick outcome => some (.tick, outcome)
  | .pull (.packet packet outcome) => some (.data packet, outcome)
  | _ => none

def LinkAction.event : LinkAction → Option (ControllerEvent × WriteOutcome)
  | .control a => a.event
  | _ => none

/-- The controller of a link writes what the output loop writes, and has left its
loop if that one has ended. -/
structure SentRun.Mirrors (s : SentRun) (c : Controller) : Prop where
  written : s.written = c.written
  sent : s.sent = c.sent
  failed : s.failed = c.failed
  left : c.exit ≠ none → s.link.stage.left = true

theorem sentStart_mirrors : SentRun.start.Mirrors .start where
  written := rfl
  sent := rfl
  failed := rfl
  left h := absurd rfl h

theorem sends_not_left {stage : ControlStage} (h : stage.sends = true) : stage.left ≠ true := by
  cases stage with
  | ticking => exact Bool.false_ne_true
  | pulling => exact Bool.false_ne_true
  | _ => cases h

/-- Both send a packet. -/
theorem SentRun.Mirrors.send {p : LinkNames} {s : SentRun} {c : Controller} (hs : s.Mirrors c)
    (hrun : c.exit = none) {length : ℕ} {iovec : List Binary} (hsize : iovec.flatten.length = length)
    (outcome : WriteOutcome) (next : ControlStage) :
    (s.send p (s.link.sendPacket p length iovec outcome next) iovec outcome).Mirrors
      (c.send p.session length iovec outcome) := by
  subst hsize
  unfold SentRun.send LinkRun.sendPacket Controller.send
  rcases IrohBeam.sendPacket p.session iovec.flatten.length iovec outcome with ⟨written, e | u⟩
  · exact ⟨congrArg (· ++ written) hs.written, hs.sent, rfl, fun _ => rfl⟩
  · exact ⟨congrArg (· ++ written) hs.written, congrArg (· ++ [iovec.flatten]) hs.sent, hs.failed,
      fun h => absurd hrun h⟩

/-- A step that sends no packet. -/
theorem SentRun.Mirrors.link {s : SentRun} {c : Controller} (hs : s.Mirrors c) {link : LinkRun}
    (hleft : s.link.stage.left = true → link.stage.left = true) :
    SentRun.Mirrors { s with link } c :=
  ⟨hs.written, hs.sent, hs.failed, fun h => hleft (hs.left h)⟩

/-- **The step lemma**: a step that sends is the event of the output loop, and no
other step writes. -/
theorem sentStep_mirrors {p : LinkNames} {s s' : SentRun} {c : Controller} {a : LinkAction}
    (hs : s.Mirrors c) (h : sentStep p s a = some s') :
    s'.Mirrors (a.event.toList.foldl (controllerStep p.session) c) := by
  have hrunning : s.link.stage.sends = true → c.exit = none := fun hsends =>
    not_not.mp fun hexit => sends_not_left hsends (hs.left hexit)
  cases a with
  | control a =>
      obtain ⟨link, hstep, rfl⟩ := Option.map_eq_some_iff.mp h
      cases a with
      | tick outcome =>
          obtain ⟨hstage, rfl⟩ := when_cases hstep
          have hrun := hrunning (by rw [hstage]; rfl)
          show SentRun.Mirrors _ (controllerStep p.session c (.tick, outcome))
          rw [controllerStep, hrun]
          exact hs.send hrun rfl outcome .waiting
      | pull pulled =>
          cases pulled with
          | packet packet outcome =>
              obtain ⟨hstage, rfl⟩ := when_cases hstep
              have hrun := hrunning (by rw [hstage]; rfl)
              show SentRun.Mirrors _ (controllerStep p.session c (.data packet, outcome))
              rw [controllerStep, hrun]
              simp only [ControlAction.packet]
              by_cases hfits : packet.length ≤ p.session.maxFrame
              · simp only [if_pos hfits]
                exact hs.send hrun packet.size_eq outcome .pulling
              · -- both leave the loop without a send
                simp only [if_neg hfits]
                exact ⟨hs.written, hs.sent, hs.failed, fun _ => rfl⟩
          | _ => exact hs.link (controlStep_leaves hstep).left
      | _ => exact hs.link (controlStep_leaves hstep).left
  | _ =>
      obtain ⟨link, hstep, rfl⟩ := Option.map_eq_some_iff.mp h
      exact hs.link (linkRunStep_left hstep)

/-- **The run lemma**: the sends of a run are the events of the output loop. -/
theorem run_mirrors {p : LinkNames} {as : List LinkAction} {s s' : SentRun} {c : Controller}
    (hs : s.Mirrors c) (h : run (sentStep p) s as = some s') :
    s'.Mirrors ((as.filterMap LinkAction.event).foldl (controllerStep p.session) c) := by
  induction as generalizing s c with
  | nil => exact Option.some.inj h ▸ hs
  | cons a as ih =>
      obtain ⟨t, ht, hrest⟩ := run_cons_eq_some h
      have hnext := ih (sentStep_mirrors hs ht) hrest
      cases hevent : a.event with
      | none =>
          rw [hevent] at hnext
          rw [List.filterMap_cons_none hevent]
          exact hnext
      | some e =>
          rw [hevent] at hnext
          rw [List.filterMap_cons_some hevent]
          exact hnext

/-- What both have on the stream: the frames of the packets sent, and behind them a
part of the frame whose send has failed. -/
theorem SentRun.Mirrors.stream {p : LinkNames} {s : SentRun} {c : Controller} (hs : s.Mirrors c)
    (hc : c.Inv p.session) :
    (∀ packet ∈ s.sent ++ s.failed.toList, packet.length ≤ p.session.maxFrame) ∧
      (s.failed ≠ none → s.link.stage.left = true) ∧
      ∃ part, part <+: Frame.encodeAll 4 s.failed.toList ∧
        s.written = Frame.encodeAll 4 s.sent ++ part := by
  obtain ⟨part, hwritten, hpart⟩ := hc.written
  rw [hs.written, hs.sent, hs.failed]
  exact ⟨hc.fits, fun hfailed => hs.left fun hexit => hfailed (hc.running hexit),
    part, hpart, hwritten⟩

/-! ### Runs -/

theorem run_sent_account {p : LinkNames} (hp : p.session.Sound) {as : List LinkAction}
    {s : SentRun} (h : run (sentStep p) .start as = some s) : s.link.Inv p ∧ s.Account p := by
  refine run_invariant (P := fun t => t.link.Inv p ∧ t.Account p) ?_ h
    ⟨linkStart_inv p, sentStart_account p⟩
  rintro t a t' ⟨hinv, hs⟩ hstep
  have hlink : linkRunStep p t.link a = some t'.link := by
    rw [← sentStep_link, hstep]
    rfl
  exact ⟨linkRunStep_inv p t.link a t'.link hinv hlink, sentStep_account hp hinv hs hstep⟩

/-- The counters of the registered link: what has been taken up in all. -/
theorem sent_counters {p : LinkNames} {server : Server} (hserver : server.links = ∅)
    {s : SentRun} (hinv : s.link.Inv p) (hs : s.Account p) {link : Link}
    (hlink : (s.link.links server).lookup p.node = some link) (howner : link.owner = p.owner) :
    (link.bytesSent, link.framesSent) = p.sentCounted s.link.history := by
  have hof := linkOf_serveAll hserver s.link.history p.node
  obtain ⟨before, m, after, link', hhistory, hm, hlast, -⟩ :=
    hof.present.mp (Option.isSome_iff_exists.mpr ⟨link, hlink⟩)
  obtain ⟨hsame, -, -, hbytes, -, hframes, -⟩ :=
    hof.counters before m after link' link hhistory hm hlast hlink
  have hcall : m.linkCall p.owner = some (.register p.node) := by
    rw [← howner, hsame]
    exact linkCall_of_registration hm
  have hbefore : p.sentCounted before = 0 := by
    refine hs.late before ?_ (no_registration_before hinv hhistory hcall)
    rw [hhistory, List.append_assoc]
    exact List.prefix_append _ _
  have hzero : m.counts p.node p.owner .sent = (0, 0) := by
    cases m with
    | updateLink node owner direction bytes frames => cases hm
    | _ => rfl
  rw [hhistory, sentCounted_append, sentCounted_cons, hbefore, hzero, sentCounted_eq, hbytes,
    hframes, ← hsame, howner]
  exact ((zero_add _).trans (zero_add _)).symm

/-- **Sent counters are exact** in every state of every run: the entry of this
link lacks what is still on its way to the server, and nothing else.  What the
stream has taken are the frames of the packets counted, and once the controller
has left its output loop the beginning of one more at most. -/
theorem sent_exact (p : LinkNames) (hp : p.session.Sound) (config : Config) (endpoint : Pid)
    (endpointId : EndpointId) (endpointAddr : EndpointAddr) (creation : ℕ) (acceptor : Pid)
    {as : List LinkAction} {s : SentRun} (h : run (sentStep p) .start as = some s) :
    let server := Server.start config endpoint endpointId endpointAddr creation acceptor
    run (linkRunStep p) .start as = some s.link ∧
      (∀ link, (s.link.links server).lookup p.node = some link → link.owner = p.owner →
        (link.bytesSent, link.framesSent) + p.sentCounted s.link.fromControl =
          sentMeasure s.sent) ∧
      (s.written = Frame.encodeAll 4 s.sent ∨
        s.link.stage.left = true ∧ ∃ packet : Binary, packet.length ≤ p.session.maxFrame ∧
          ∃ part, part <+: Frame.encode 4 packet ∧
            s.written = Frame.encodeAll 4 s.sent ++ part) := by
  intro server
  obtain ⟨hinv, hs⟩ := run_sent_account hp h
  refine ⟨?_, ?_, ?_⟩
  · show _ = some s.link
    rw [← Option.map_some, ← h]
    exact (run_sentStep_link p as .start).symm
  · intro link hlink howner
    rw [sent_counters rfl hinv hs hlink howner]
    exact hs.total
  · obtain ⟨hfits, hleft, part, hpart, hwritten⟩ :=
      (run_mirrors sentStart_mirrors h).stream (controllerRun_inv hp _)
    cases hfailed : s.failed with
    | none =>
        rw [hfailed] at hpart
        rw [hwritten, List.prefix_nil.mp hpart, List.append_nil]
        exact .inl rfl
    | some packet =>
        rw [hfailed] at hfits hleft hpart
        rw [Option.toList_some, Frame.encodeAll_cons, Frame.encodeAll_nil, List.append_nil] at hpart
        exact .inr ⟨hleft (Option.some_ne_none packet), packet,
          hfits packet (List.mem_append_right _ List.mem_cons_self), part, hpart, hwritten⟩

/-- After the set-up a packet of two bytes is sent and counted, and of the next
one the stream takes five bytes. -/
def sendTwo : List LinkAction :=
  setUp ++ [.serveControl, .control .answered, .control .confirm, .control (.notify true),
    .post .distData, .control .receive, .control (.pull (.packet samplePacket .complete)),
    .serveControl,
    .control (.pull (.packet failingPacket (.failed 5 ⟨.closed, .streamSend, ""⟩)))]

theorem sent_exact_sample :
    ∃ s, run (sentStep sampleNames) .start sendTwo = some s ∧
      s.written = [0, 0, 0, 2, 1, 2, 0, 0, 0, 1, 3] ∧ s.link.stage = .unregister ∧
      ∃ link, (s.link.links linkServer).lookup sampleNames.node = some link ∧
        (link.bytesSent, link.framesSent) + sampleNames.sentCounted s.link.fromControl =
          sentMeasure s.sent := by
  obtain ⟨s, hrun, hwritten, hstage, link, hlink, howner⟩ :
      ∃ s, run (sentStep sampleNames) .start sendTwo = some s ∧
        s.written = [0, 0, 0, 2, 1, 2, 0, 0, 0, 1, 3] ∧ s.link.stage = .unregister ∧
        ∃ link, (s.link.links linkServer).lookup sampleNames.node = some link ∧
          link.owner = sampleNames.owner :=
    ⟨_, rfl, rfl, rfl, _, rfl, rfl⟩
  have hexact := sent_exact sampleNames ⟨by decide, by decide⟩ sampleConfig 0 samplePeerId
    ⟨samplePeerId, [], []⟩ 0 9 hrun
  exact ⟨s, hrun, hwritten, hstage, link, hlink, hexact.2.1 link hlink howner⟩

end IrohBeam
