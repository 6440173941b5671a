/-
IrohBeam/Secrets.lean

What the distribution keeps to itself.  Two parts of a configuration are secret:
the identity and the tokens of custom relays.  `endpoint_options/1` hands them to
the endpoint; everything else works on the same configuration, so nothing but the
code says that they go nowhere else.

`redacted` takes them out: the identity is gone, and of a token it is left that
there is one, which `safe/1` reports.  A turn of the server on the redacted
configuration has the same effects (`handle_redacted`), so a run does
(`handoffStep_redacted` with `run_map`), and the processes that set up and accept
links get the same answers.  `secrets_stay_inside` states it for two
configurations that differ in their secrets only: with either of them everything
that leaves the server, goes over a stream or is dialled is the same.
-/
import IrohBeam.Dial

namespace IrohBeam

open Transition Bytes

/-! ### Redaction -/

/-- A relay with an empty token in place of its own. -/
def Relay.redacted (relay : Relay) : Relay :=
  { relay with token := relay.token.map fun _ => [] }

def Network.redacted : Network → Network
  | .custom relays => .custom (relays.map Relay.redacted)
  | network => network

/-- The configuration without its secrets. -/
def Config.redacted (c : Config) : Config :=
  { c with identity := .ephemeral, network := c.network.redacted }

def Server.redacted (s : Server) : Server := { s with config := s.config.redacted }

def Handoff.redacted (s : Handoff) : Handoff := { s with server := s.server.redacted }

theorem safeNetwork_redacted (network : Network) :
    safeNetwork network.redacted = safeNetwork network := by
  cases network with
  | custom relays =>
      show Sum.inr ((relays.map Relay.redacted).map _) = Sum.inr (relays.map _)
      rw [List.map_map]
      refine congrArg Sum.inr (List.map_congr_left fun relay _ => ?_)
      simp [Relay.redacted]
  | _ => rfl

/-- `safe/1` reports nothing that is redacted. -/
theorem safe_redacted (c : Config) : c.redacted.safe = c.safe := by
  show ({ c.safe with network := safeNetwork c.network.redacted } : SafeConfig) = c.safe
  rw [safeNetwork_redacted]
  rfl

/-! ### The server -/

@[simp] theorem links_redacted (s : Server) : s.redacted.links = s.links := rfl

@[simp] theorem ownedLink_redacted (s : Server) (node : Atom) (owner : Pid) :
    s.redacted.ownedLink node owner = s.ownedLink node owner := rfl

theorem handleCall_redacted (request : Request) (caller : Caller) (s : Server) :
    handleCall request caller s.redacted =
      ((handleCall request caller s).1.redacted, (handleCall request caller s).2) := by
  cases request with
  | status =>
      show (s.redacted, [Effect.reply caller (.status s.config.redacted.safe _ _ _ _)]) = _
      rw [safe_redacted]
      rfl
  | unregisterLink node owner =>
      simp only [handleCall, ownedLink_redacted]
      cases s.ownedLink node owner <;> rfl
  | closeLink node =>
      simp only [handleCall, links_redacted]
      cases s.links.lookup node <;> rfl
  | takeIncoming =>
      obtain ⟨_, _, _, _, _, _, incoming, waiter, _⟩ := s
      cases waiter with
      | some other => rfl
      | none => cases incoming <;> rfl
  | _ => rfl

/-- **A turn of the server** does the same without the secrets. -/
theorem handle_redacted (m : Message) (s : Server) :
    handle m s.redacted = ((handle m s).1.redacted, (handle m s).2) := by
  cases m with
  | call request caller =>
      show ((handleCall request caller s.redacted).1, (handleCall request caller s.redacted).2,
        none) = _
      rw [handleCall_redacted]
      rfl
  | updateLink node owner direction bytes frames =>
      simp only [handle, Server.updateLink, ownedLink_redacted]
      cases s.ownedLink node owner <;> rfl
  | incoming session =>
      obtain ⟨_, _, _, _, _, _, incoming, waiter, _⟩ := s
      cases waiter with
      | some other => rfl
      | none => cases incoming <;> rfl
  | _ => rfl

theorem handled_redacted (s : Handoff) (m : Message) (rest : List Message) :
    s.redacted.handled m rest = (s.handled m rest).redacted := by
  unfold Handoff.handled
  rw [show s.redacted.server = s.server.redacted from rfl, handle_redacted]
  rfl

theorem finish_redacted (s : Handoff) (endpointAlive : Bool) :
    s.redacted.finish endpointAlive = (s.finish endpointAlive).redacted := by
  cases endpointAlive <;> rfl

theorem turn_eq {s : Handoff} {m : Message} {rest : List Message} (halive : s.alive = true)
    (hmailbox : s.mailbox = m :: rest) (endpointAlive : Bool) :
    handoffStep s (.turn endpointAlive) =
      some (if (handle m s.server).2.2.isNone then s.handled m rest
        else (s.handled m rest).finish endpointAlive) := by
  simp only [handoffStep, halive, hmailbox]
  cases (handle m s.server).2.2 <;> rfl

/-- **A step of the server's system** does the same without the secrets. -/
theorem handoffStep_redacted (s : Handoff) (a : HandoffAction) :
    handoffStep s.redacted a = (handoffStep s a).map Handoff.redacted := by
  cases a with
  | post m =>
      simp only [handoffStep]
      rw [apply_ite (Option.map Handoff.redacted)]
      rfl
  | turn endpointAlive =>
      obtain ⟨server, alive, mailbox, arrived, asked, log⟩ := s
      cases alive with
      | false => rfl
      | true =>
          cases mailbox with
          | nil => rfl
          | cons m rest =>
              rw [turn_eq rfl rfl, turn_eq rfl rfl, handled_redacted, finish_redacted,
                show (Handoff.redacted _).server = server.redacted from rfl, handle_redacted,
                Option.map_some, apply_ite Handoff.redacted]
  | stop endpointAlive =>
      simp only [handoffStep]
      rw [apply_ite (Option.map Handoff.redacted)]
      cases endpointAlive <;> rfl

/-! ### Setting up and accepting links -/

/-- `do_setup/6` dials and decides the same. -/
theorem doSetup_redacted (s : Handoff) (node myNode : Atom) (d : Dialled) :
    s.redacted.doSetup node myNode d = s.doSetup node myNode d := rfl

/-- The stream of a set-up, behind the `outgoing/3` of `do_setup/6`. -/
def Handoff.setupWire (s : Handoff) (node myNode : Atom) (d : Dialled) : Wire :=
  match s.connect node d with
  | (.ok session, _) => (outgoing session myNode node d.wire).2
  | (.error _, _) => d.wire

/-- It writes the same. -/
theorem setupWire_redacted (s : Handoff) (node myNode : Atom) (d : Dialled) :
    s.redacted.setupWire node myNode d = s.setupWire node myNode d := rfl

/-- `accept_loop/3` accepts the same. -/
theorem acceptAttempt_redacted (s : Handoff) (a : Attempt) :
    s.redacted.acceptAttempt a = s.acceptAttempt a := rfl

/-- The stream of an accepted connection, behind the `incoming/1` of
`accept_loop/3`. -/
def Handoff.acceptWire (s : Handoff) (a : Attempt) : Wire :=
  match a.stream with
  | none => a.wire
  | some stream =>
      (incoming s.validatePreface (s.server.config.session a.connection stream a.remoteId)
        a.wire).2

/-- It answers the same. -/
theorem acceptWire_redacted (s : Handoff) (a : Attempt) :
    s.redacted.acceptWire a = s.acceptWire a := rfl

theorem peerAddress_redacted (splitNode : Atom → SplitNode) (s : Handoff) (session : Session)
    (node : Atom) : peerAddress splitNode s.redacted session node =
      peerAddress splitNode s session node := rfl

/-- What of two states no process outside can tell apart. -/
structure Handoff.Alike (s s' : Handoff) : Prop where
  alive : s'.alive = s.alive
  mailbox : s'.mailbox = s.mailbox
  log : s'.log = s.log
  doSetup : ∀ node myNode d, s'.doSetup node myNode d = s.doSetup node myNode d
  setupWire : ∀ node myNode d, s'.setupWire node myNode d = s.setupWire node myNode d
  acceptAttempt : ∀ a, s'.acceptAttempt a = s.acceptAttempt a
  acceptWire : ∀ a, s'.acceptWire a = s.acceptWire a
  peerAddress : ∀ splitNode session node,
    IrohBeam.peerAddress splitNode s' session node = IrohBeam.peerAddress splitNode s session node

theorem alike_of_redacted {s s' : Handoff} (h : s'.redacted = s.redacted) : s.Alike s' where
  alive := show s'.redacted.alive = s.redacted.alive from congrArg _ h
  mailbox := show s'.redacted.mailbox = s.redacted.mailbox from congrArg _ h
  log := show s'.redacted.log = s.redacted.log from congrArg _ h
  doSetup := by
    intro node myNode d
    rw [← doSetup_redacted, h, doSetup_redacted]
  setupWire := by
    intro node myNode d
    rw [← setupWire_redacted, h, setupWire_redacted]
  acceptAttempt := by
    intro a
    rw [← acceptAttempt_redacted, h, acceptAttempt_redacted]
  acceptWire := by
    intro a
    rw [← acceptWire_redacted, h, acceptWire_redacted]
  peerAddress := by
    intro splitNode session node
    rw [← peerAddress_redacted, h, peerAddress_redacted]

/-- **Secrets stay inside.**  With configurations that differ only in identity
and relay tokens, whatever messages come in whatever order, the server sends the
same replies and does the same otherwise, links are set up, accepted and addressed
alike, and the same bytes are written to their streams. -/
theorem secrets_stay_inside {c c' : Config} (hc : c'.redacted = c.redacted) (endpoint : Pid)
    (endpointId : EndpointId) (endpointAddr : EndpointAddr) (creation : ℕ) (acceptor : Pid)
    {as : List HandoffAction} {s : Handoff}
    (h : run handoffStep (.start (.start c endpoint endpointId endpointAddr creation acceptor)) as =
      some s) :
    ∃ s', run handoffStep
        (.start (.start c' endpoint endpointId endpointAddr creation acceptor)) as = some s' ∧
      s.Alike s' := by
  have hstart : ∀ config : Config,
      (Handoff.start (.start config endpoint endpointId endpointAddr creation acceptor)).redacted =
        .start (.start config.redacted endpoint endpointId endpointAddr creation acceptor) :=
    fun _ => rfl
  have hrun := run_map handoffStep_redacted
    (.start (.start c' endpoint endpointId endpointAddr creation acceptor)) as
  rw [hstart, hc, ← hstart, run_map handoffStep_redacted, h, Option.map_some] at hrun
  obtain ⟨s', hs', hredacted⟩ := Option.map_eq_some_iff.mp hrun.symm
  exact ⟨s', hs', alike_of_redacted hredacted⟩

/-- A configuration with a secret key and a relay token. -/
def secretConfig (key : ℕ) (token : Binary) : Config :=
  { sampleConfig with
    identity := .secretKey ⟨key⟩
    network := .custom [⟨[104], some token⟩] }

/-- `a@h` reaches `b@h`. -/
def secretDialled : Dialled :=
  { connect := .ok (3, samplePeerId)
    openBi := .ok 4
    wire :=
      { unread := [1]
        replies := fun _ => .bytes 1
        written := []
        outcomes := fun _ => .complete } }

/-- The status is reported alike, and a set-up writes the two node names. -/
theorem secrets_stay_inside_sample :
    ∃ s s', run handoffStep
        (.start (.start (secretConfig 1 [1]) 0 samplePeerId ⟨samplePeerId, [], []⟩ 0 1))
        [.post (.call .status 7), .turn true] = some s ∧ s.log.length = 1 ∧
      run handoffStep
        (.start (.start (secretConfig 2 [2]) 0 samplePeerId ⟨samplePeerId, [], []⟩ 0 1))
        [.post (.call .status 7), .turn true] = some s' ∧ s.Alike s' ∧
      (s'.setupWire (atom "b@h") (atom "a@h") secretDialled).written =
        prefaceFrame (ascii "a@h") (ascii "b@h") := by
  obtain ⟨s, hrun, hlog, hconnect⟩ : ∃ s, run handoffStep
      (.start (.start (secretConfig 1 [1]) 0 samplePeerId ⟨samplePeerId, [], []⟩ 0 1))
      [.post (.call .status 7), .turn true] = some s ∧ s.log.length = 1 ∧
      s.connect (atom "b@h") secretDialled =
        (.ok ((secretConfig 1 [1]).session 3 4 samplePeerId),
          [.connect (.id samplePeerId) 10000, .openBi 3]) := ⟨_, rfl, rfl, rfl⟩
  have hsecret : (secretConfig 2 [2]).redacted = (secretConfig 1 [1]).redacted := rfl
  obtain ⟨s', hrun', halike⟩ := secrets_stay_inside hsecret _ _ _ _ _ hrun
  refine ⟨s, s', hrun, hlog, hrun', halike, ?_⟩
  rw [halike.setupWire]
  simp only [Handoff.setupWire, hconnect]
  exact outgoing_written (by decide) (by decide) (by decide) rfl

end IrohBeam
