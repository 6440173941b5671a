/-
IrohBeam/Admission.lean

Which node an incoming link comes up as.

A remote side opens connections and sends whatever bytes it likes.  For each
of them the acceptor reads a preface and asks the server whether the claim in
it is authorised (`accept_loop/3`, `iroh_dist_preface:incoming/1`); an accepted
session goes through the hand-over of `IrohBeam/Handoff.lean`, and later the
kernel asks for the session's address under the node it is about to mark up
(`peer_address/2` of `src/iroh_dist.erl`).

`admitted_under_own_name` puts the pieces together: a session that was handed
out carries the name of a configured peer whose identity is the authenticated
one, and has an address under that name only.  The authenticated identity is
whatever the transport reports; no property of it is used beyond that the
session carries it.
-/
import IrohBeam.Handshake
import IrohBeam.Handoff

namespace IrohBeam

open Bytes Transition

/-! ### Calls to the server -/

/-- `validate_preface/3`. -/
def Handoff.validatePreface (s : Handoff) (remoteName : Binary) (remoteId : EndpointId)
    (targetName : Binary) : Except PeerError Atom :=
  if s.alive then s.server.config.authorizeClaim remoteName remoteId targetName
  else .error .notStarted

/-- `validate_peer/2`. -/
def Handoff.validatePeer (s : Handoff) (node : Atom) (remoteId : EndpointId) :
    Except PeerError Unit :=
  if s.alive then IrohBeam.validatePeer s.server.config node remoteId else .error .notStarted

/-- Both calls return what the server's reply says. -/
theorem calls_reply (s : Handoff) (halive : s.alive = true) (caller : Caller) (node : Atom)
    (remoteName targetName : Binary) (remoteId : EndpointId) :
    (handleCall (.validatePreface remoteName remoteId targetName) caller s.server).2 =
        [.reply caller (replyOf .authorized (s.validatePreface remoteName remoteId targetName))] ∧
      (handleCall (.validatePeer node remoteId) caller s.server).2 =
        [.reply caller (replyOf (fun _ => .ok) (s.validatePeer node remoteId))] := by
  simp [handleCall, Handoff.validatePreface, Handoff.validatePeer, halive]

/-! ### The acceptor -/

/-- An accepted connection: the identity the transport reports, the stream if
`accept_bi/2` gets one, and the bytes on it. -/
structure Attempt where
  connection : ℕ
  remoteId : EndpointId
  stream : Option ℕ
  wire : Wire

/-- What `accept_loop/3` makes of a connection: the session it sends to the
server, or nothing when it closes the connection. -/
def Handoff.acceptAttempt (s : Handoff) (a : Attempt) : Option Session :=
  match a.stream with
  | none => none
  | some stream =>
      match incoming s.validatePreface
          (s.server.config.session a.connection stream a.remoteId) a.wire with
      | (.ok session, _) => some session
      | (.error _, _) => none

/-- The hand-over together with the connections that have been accepted. -/
structure Admission where
  handoff : Handoff
  attempts : List Attempt

def Admission.start (server : Server) : Admission := ⟨.start server, []⟩

/-- A step: the acceptor takes a connection, or the server's system moves
without the acceptor. -/
inductive AdmissionAction where
  | connection (attempt : Attempt)
  | server (action : HandoffAction)

/-- The session an action sends. -/
def HandoffAction.session : HandoffAction → Option Session
  | .post m => m.session
  | _ => none

/-- One step.  Only the acceptor sends sessions. -/
def admissionStep (s : Admission) : AdmissionAction → Option Admission
  | .connection a =>
      match s.handoff.acceptAttempt a with
      | some session =>
          (handoffStep s.handoff (.post (.incoming session))).map fun handoff =>
            ⟨handoff, s.attempts ++ [a]⟩
      | none => some { s with attempts := s.attempts ++ [a] }
  | .server action =>
      if action.session = none then
        (handoffStep s.handoff action).map fun handoff => { s with handoff := handoff }
      else none

/-! ### The address of a session -/

/-- What `dist_util:split_node/1` makes of a node name. -/
inductive SplitNode where
  | node (name host : Binary)
  | other

/-- A name of the form `name@host` is split into its parts. -/
def SplitsNodes (splitNode : Atom → SplitNode) : Prop :=
  ∀ node name host, nodeParts node = [name, host] → name ≠ [] → host ≠ [] →
    splitNode node = .node name host

/-- The fields of `#net_address{}` that differ between peers. -/
structure NetAddress where
  address : EndpointId
  host : Binary

/-- Why `peer_address/2` shuts the link down. -/
inductive Shutdown where
  | splitNode
  | identityBinding (error : PeerError)

/-- `peer_address/2`. -/
def peerAddress (splitNode : Atom → SplitNode) (s : Handoff) (session : Session) (node : Atom) :
    Except Shutdown NetAddress :=
  match s.validatePeer node session.remoteId with
  | .ok () =>
      match splitNode node with
      | .node _ host => .ok ⟨session.remoteId, host⟩
      | .other => .error .splitNode
  | .error e => .error (.identityBinding e)

theorem validatePeer_ok_iff {c : Config} {node : Atom} {remoteId : EndpointId} :
    validatePeer c node remoteId = .ok () ↔
      ∃ peer, c.peers.lookup node = some peer ∧ peer.id = remoteId := by
  unfold validatePeer Config.expectedId Config.resolve
  cases c.peers.lookup node with
  | none => simp [Except.map]
  | some peer =>
      by_cases hid : peer.id = remoteId <;> simp [Except.map, hid]

/-- An address is given out exactly for a configured node whose identity the
session has. -/
theorem peerAddress_ok_iff {splitNode : Atom → SplitNode} (hsplit : SplitsNodes splitNode)
    {s : Handoff} (hids : IndexesAgree s.server.config.peers s.server.config.ids)
    {session : Session} {node : Atom} :
    (∃ address, peerAddress splitNode s session node = .ok address) ↔
      s.alive = true ∧ ∃ peer, s.server.config.peers.lookup node = some peer ∧
        peer.id = session.remoteId := by
  cases halive : s.alive with
  | false => simp [peerAddress, Handoff.validatePeer, halive]
  | true =>
      have hcall : s.validatePeer node session.remoteId =
          validatePeer s.server.config node session.remoteId := by
        simp [Handoff.validatePeer, halive]
      simp only [peerAddress, hcall, true_and]
      rw [← validatePeer_ok_iff]
      constructor
      · rintro ⟨address, haddress⟩
        split at haddress
        · assumption
        · cases haddress
      · intro hok
        -- the node is configured, so its name splits
        obtain ⟨peer, hpeer, -⟩ := validatePeer_ok_iff.mp hok
        obtain ⟨name, host, hparts, hname, hhost⟩ := (hids node peer hpeer).1
        rw [hok, hsplit node name host hparts hname hhost]
        exact ⟨_, rfl⟩

/-! ### What the acceptor lets through -/

/-- `session` is what the acceptor made of the attempt `a`: it carries the
identity reported for `a` and the name `node` that the preface on `a` claims,
and that name belongs to that identity. -/
structure BoundTo (c : Config) (a : Attempt) (session : Session) (node : Atom) : Prop where
  claimed : session.claimedNode = some node
  connection : session.connection = a.connection
  remoteId : session.remoteId = a.remoteId
  peer : ∃ peer, c.peers.lookup node = some peer ∧ peer.id = session.remoteId
  names : node.text.length ≤ 255 ∧ c.name.text.length ≤ 255
  preface : prefaceFrame node.text c.name.text <+: a.wire.unread

theorem acceptAttempt_bound {s : Handoff} {a : Attempt} {session : Session}
    (h : s.acceptAttempt a = some session) :
    ∃ node, BoundTo s.server.config a session node := by
  unfold Handoff.acceptAttempt at h
  split at h
  · cases h
  · next stream _ =>
      split at h
      · next session' w' hin =>
          obtain rfl := Option.some.inj h
          obtain ⟨remote, target, node, hremote, htarget, hpre, hvalid, rfl⟩ := incoming_ok hin
          unfold Handoff.validatePreface at hvalid
          split at hvalid
          · obtain ⟨rfl, rfl, hpeer⟩ := authorizeClaim_eq_ok hvalid
            exact ⟨node, rfl, rfl, rfl, hpeer, ⟨hremote, htarget⟩, hpre⟩
          · cases hvalid
      · cases h

/-- Every session that arrived is bound to an accepted connection. -/
structure Admission.Inv (c : Config) (s : Admission) : Prop where
  config : s.handoff.server.config = c
  handoff : s.handoff.Inv
  bound : ∀ session ∈ s.handoff.arrived, ∃ a ∈ s.attempts, ∃ node, BoundTo c a session node

/-- The server's configuration never changes. -/
theorem handoffStep_config {s s' : Handoff} {a : HandoffAction}
    (h : handoffStep s a = some s') : s'.server.config = s.server.config := by
  cases a with
  | post m =>
      obtain ⟨-, -, rfl⟩ := post_cases h
      rfl
  | turn endpointAlive =>
      obtain ⟨-, m, rest, -, rfl | ⟨-, rfl⟩⟩ := turn_cases h
      · exact handle_config m s.server
      · exact handle_config m s.server
  | stop endpointAlive =>
      obtain ⟨-, rfl⟩ := stop_cases h
      rfl

/-- Only a message that brings a session adds to what has arrived. -/
theorem handoffStep_arrived {s s' : Handoff} {a : HandoffAction}
    (h : handoffStep s a = some s') :
    s'.arrived = s.arrived ++ a.session.toList := by
  cases a with
  | post m =>
      obtain ⟨-, -, rfl⟩ := post_cases h
      rfl
  | turn endpointAlive =>
      obtain ⟨-, m, rest, -, rfl | ⟨-, rfl⟩⟩ := turn_cases h
      · exact (List.append_nil _).symm
      · exact (List.append_nil _).symm
  | stop endpointAlive =>
      obtain ⟨-, rfl⟩ := stop_cases h
      exact (List.append_nil _).symm

/-- Every step keeps the sessions bound. -/
theorem admissionStep_inv {c : Config} (s : Admission) (a : AdmissionAction) (s' : Admission)
    (hs : s.Inv c) (h : admissionStep s a = some s') : s'.Inv c := by
  cases a with
  | connection a =>
      simp only [admissionStep] at h
      have hgrow : ∀ session ∈ s.handoff.arrived,
          ∃ a' ∈ s.attempts ++ [a], ∃ node, BoundTo c a' session node := by
        intro session hsession
        obtain ⟨a', ha', hbound⟩ := hs.bound session hsession
        exact ⟨a', List.mem_append_left _ ha', hbound⟩
      split at h
      · next session haccept =>
          obtain ⟨handoff, hstep, rfl⟩ := Option.map_eq_some_iff.mp h
          refine ⟨(handoffStep_config hstep).trans hs.config,
            handoffStep_inv _ _ _ hs.handoff hstep, ?_⟩
          intro session' hsession'
          rw [handoffStep_arrived hstep] at hsession'
          rcases List.mem_append.mp hsession' with hold | hnew
          · exact hgrow session' hold
          · obtain rfl := List.mem_singleton.mp hnew
            have hbound := acceptAttempt_bound haccept
            rw [hs.config] at hbound
            exact ⟨a, by simp, hbound⟩
      · obtain rfl := Option.some.inj h
        exact ⟨hs.config, hs.handoff, hgrow⟩
  | server action =>
      simp only [admissionStep] at h
      split at h
      · next hnone =>
          obtain ⟨handoff, hstep, rfl⟩ := Option.map_eq_some_iff.mp h
          refine ⟨(handoffStep_config hstep).trans hs.config,
            handoffStep_inv _ _ _ hs.handoff hstep, ?_⟩
          rw [handoffStep_arrived hstep, hnone, Option.toList_none, List.append_nil]
          exact hs.bound
      · cases h

/-- What has been handed out has arrived. -/
theorem handed_arrived {s : Handoff} (hs : s.Inv) {caller : Caller} {session : Session}
    (h : (caller, session) ∈ s.handed) : session ∈ s.arrived := by
  obtain ⟨taken, htaken, hsub⟩ := hs.order
  have hmem : session ∈ s.handed.map Prod.snd := List.mem_map.mpr ⟨_, h, rfl⟩
  rw [htaken]
  exact List.mem_append_left _ (hsub.subset (List.mem_append_left _ hmem))

/-- **A link comes up under its own name.**  Whatever connections are accepted
and whatever bytes come in on them: a session that `take_incoming/1` hands out
claims a configured node `node`, the identity reported for its connection is
that node's, the preface on the connection names `node` as source and the
local node as target, and the session has an address under a node `m` exactly
when `m = node` (as long as the server runs). -/
theorem admitted_under_own_name {nif : IdentityNif} {options : Term} {mode : Mode} {c : Config}
    (hc : validate nif options mode = .ok c) {splitNode : Atom → SplitNode}
    (hsplit : SplitsNodes splitNode) (endpoint : Pid) (endpointId : EndpointId)
    (endpointAddr : EndpointAddr) (creation : ℕ) (acceptor : Pid) {as : List AdmissionAction}
    {s : Admission}
    (h : run admissionStep
      (.start (.start c endpoint endpointId endpointAddr creation acceptor)) as = some s)
    {caller : Caller} {session : Session} (hhanded : (caller, session) ∈ s.handoff.handed) :
    ∃ node, session.claimedNode = some node ∧
      (∃ peer, c.peers.lookup node = some peer ∧ peer.id = session.remoteId) ∧
      (∃ a ∈ s.attempts, a.connection = session.connection ∧ a.remoteId = session.remoteId ∧
        node.text.length ≤ 255 ∧ c.name.text.length ≤ 255 ∧
        prefaceFrame node.text c.name.text <+: a.wire.unread) ∧
      ∀ m, (∃ address, peerAddress splitNode s.handoff session m = .ok address) ↔
        m = node ∧ s.handoff.alive = true := by
  have hinv : s.Inv c := by
    refine run_invariant admissionStep_inv h ⟨rfl, start_inv rfl rfl, ?_⟩
    intro session hsession
    cases hsession
  have hids := validate_ids hc
  obtain ⟨a, ha, node, hbound⟩ := hinv.bound session (handed_arrived hinv.handoff hhanded)
  refine ⟨node, hbound.claimed, hbound.peer, ⟨a, ha, hbound.connection.symm,
    hbound.remoteId.symm, hbound.names.1, hbound.names.2, hbound.preface⟩, ?_⟩
  intro m
  rw [peerAddress_ok_iff hsplit (by rw [hinv.config]; exact hids), hinv.config]
  constructor
  · -- two nodes with the session's identity are one node
    rintro ⟨halive, peer, hpeer, hid⟩
    obtain ⟨peer', hpeer', hid'⟩ := hbound.peer
    exact ⟨hids.node_unique hpeer hpeer' (hid.trans hid'.symm), halive⟩
  · rintro ⟨rfl, halive⟩
    exact ⟨halive, hbound.peer⟩

/-! ### A sample admission -/

/-- `dist_util:split_node/1` on names of the form `name@host`. -/
def sampleSplitNode (node : Atom) : SplitNode :=
  match nodeParts node with
  | [name, host] => .node name host
  | _ => .other

def sampleServer : Server := .start sampleConfig 0 samplePeerId ⟨samplePeerId, [], []⟩ 0 1

/-- The peer `b@h` connects and sends its preface. -/
def sampleAttempt : Attempt := ⟨0, samplePeerId, some 0, sampleWire⟩

theorem sampleAttempt_accepted :
    (Handoff.start sampleServer).acceptAttempt sampleAttempt =
      some { sampleConfig.session 0 0 samplePeerId with claimedNode := some (atom "b@h") } := by
  have hs : 0 < (sampleConfig.session 0 0 samplePeerId).streamTimeout := by decide
  obtain ⟨w, hadv, -, hin⟩ := incoming_preface hs (Handoff.start sampleServer).validatePreface
    (l := ascii "b@h") (r := ascii "a@h") (by decide) (by decide) (w := sampleWire)
    (fun _ => ⟨1, Nat.one_pos, rfl⟩) (List.append_assoc _ _ _)
  have hne : ([1] : Binary) ≠ [] := List.cons_ne_nil _ _
  have hack := send_complete 1024 (congrFun hadv.outcomes 0) hs hne (by decide)
  have hvalid : (Handoff.start sampleServer).validatePreface (ascii "b@h") samplePeerId
      (ascii "a@h") = .ok (atom "b@h") := rfl
  simp only [Handoff.acceptAttempt, sampleAttempt]
  change (match incoming (Handoff.start sampleServer).validatePreface
    (sampleConfig.session 0 0 samplePeerId) sampleWire with
      | (.ok session, _) => some session
      | (.error _, _) => none) = _
  have hid : (sampleConfig.session 0 0 samplePeerId).remoteId = samplePeerId := rfl
  rw [hin]
  simp only [acceptClaim, hid, hvalid, prefaceSend, hack]

/-- The session that comes of it. -/
def sampleSession : Session :=
  { sampleConfig.session 0 0 samplePeerId with claimedNode := some (atom "b@h") }

theorem admitted_under_own_name_sample :
    ∃ s node,
      run admissionStep (.start sampleServer)
          [.connection sampleAttempt, .server (.turn true),
           .server (.post (.call .takeIncoming 7)), .server (.turn true)] = some s ∧
        (7, sampleSession) ∈ s.handoff.handed ∧ sampleSession.claimedNode = some node ∧
        ∀ m, (∃ address, peerAddress sampleSplitNode s.handoff sampleSession m = .ok address) ↔
          m = node ∧ s.handoff.alive = true := by
  have hsplit : SplitsNodes sampleSplitNode := by
    intro node name host hparts _ _
    simp only [sampleSplitNode, hparts]
  obtain ⟨s, hrun, hhanded⟩ : ∃ s, run admissionStep (.start sampleServer)
      [.connection sampleAttempt, .server (.turn true),
       .server (.post (.call .takeIncoming 7)), .server (.turn true)] = some s ∧
      s.handoff.handed = [(7, sampleSession)] := by
    rw [run_cons, admissionStep, Admission.start, sampleAttempt_accepted]
    exact ⟨_, rfl, rfl⟩
  have hmem : (7, sampleSession) ∈ s.handoff.handed := by
    rw [hhanded]
    exact List.mem_singleton_self _
  obtain ⟨node, hnode, -, -, haddress⟩ :=
    admitted_under_own_name validate_sample hsplit 0 samplePeerId ⟨samplePeerId, [], []⟩ 0 1 hrun
      hmem
  exact ⟨s, node, hrun, hmem, hnode, haddress⟩

end IrohBeam
