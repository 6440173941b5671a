/-
IrohBeam/Dial.lean

The outgoing side of a link: `do_setup/6` of `src/iroh_dist.erl`, with
`connect/1` and `connect_peer/1` of `src/iroh_dist_endpoint.erl`, up to the
distribution handshake.

The set-up process looks the node up, dials its target, compares the identity
the transport reports with the configured one, opens a stream and sends a
preface on it.  What the network does is a `Dialled`: the answers of the calls
and the stream.  What `do_setup/6` does to the network is a list of effects.

* `setup_disposes` — whatever the answers are, a connection that was opened is
  closed or goes into the handshake, and then it has an address under the node
  that was dialled, and under no other.

`Joined` puts the two ends of a stream together, `do_setup/6` at one node and
the acceptor of `IrohBeam/Admission.lean` at the other.  Nothing is assumed of
the stream but that each side reads a prefix of what the other has written.

* `setup_agreement` — if the dialling side comes to the handshake, the other
  side has authorised it; both mean the same two nodes, and each has the other's
  name bound to the identity that the transport has authenticated.
* `setup_verdict` — on a stream that loses nothing it comes to the handshake
  exactly then.
-/
import IrohBeam.Admission

namespace IrohBeam

open Bytes Transition

/-! ### Dialling -/

/-- What the calls of one set-up get: the connection with the identity reported
for it, the stream, and the bytes on the stream. -/
structure Dialled where
  connect : Except Error (ℕ × EndpointId)
  openBi : Except Error ℕ
  wire : Wire

/-- What a set-up does to the network. -/
inductive DialEffect where
  | connect (target : Target) (timeout : ℕ)
  | openBi (connection : ℕ)
  | closeConnection (connection : ℕ)
  | closeSession (session : Session)
  | startController (session : Session)
  deriving DecidableEq

/-- The reasons `connect/1` refuses with. -/
inductive ConnectError where
  | peer (error : PeerError)
  | error (error : Error)
  deriving DecidableEq

/-- `safe_reason/1`. -/
def ConnectError.safe : ConnectError → HandshakeError
  | .peer e => .peer e
  | .error e => safeReason e

/-- `connect_peer/1`, with the limits of the configuration that `resolve/1` has
put into the peer. -/
def connectPeer (c : Config) (peer : Peer) (d : Dialled) :
    Except ConnectError Session × List DialEffect :=
  match d.connect with
  | .ok (connection, remoteId) =>
      if remoteId = peer.id then
        match d.openBi with
        | .ok stream =>
            (.ok (c.session connection stream remoteId),
              [.connect peer.target c.connectTimeout, .openBi connection])
        | .error e =>
            (.error (.error e), [.connect peer.target c.connectTimeout, .openBi connection,
              .closeConnection connection])
      else
        (.error (.peer .identityMismatch),
          [.connect peer.target c.connectTimeout, .closeConnection connection])
  | .error e => (.error (.error e), [.connect peer.target c.connectTimeout])

/-- `resolve/1`. -/
def Handoff.resolve (s : Handoff) (node : Atom) : Except PeerError Peer :=
  if s.alive then s.server.config.resolve node else .error .notStarted

/-- `connect/1`. -/
def Handoff.connect (s : Handoff) (node : Atom) (d : Dialled) :
    Except ConnectError Session × List DialEffect :=
  match s.resolve node with
  | .ok peer => connectPeer s.server.config peer d
  | .error e => (.error (.peer e), [])

/-- How a set-up goes on: with the distribution handshake on a session, or by
shutting down. -/
inductive SetupResult where
  | handshake (session : Session)
  | irohPreface (reason : HandshakeError)
  | irohConnect (reason : HandshakeError)

/-- `do_setup/6`, up to the handshake. -/
def Handoff.doSetup (s : Handoff) (node myNode : Atom) (d : Dialled) :
    SetupResult × List DialEffect :=
  match s.connect node d with
  | (.ok session, effects) =>
      match (outgoing session myNode node d.wire).1 with
      | .ok () => (.handshake session, effects ++ [.startController session])
      | .error e => (.irohPreface e, effects ++ [.closeSession session])
  | (.error e, effects) => (.irohConnect e.safe, effects)

/-! ### What becomes of a connection -/

/-- The connection an effect gives away: closed, or handed to a controller. -/
def DialEffect.disposed : DialEffect → Option ℕ
  | .closeConnection connection => some connection
  | .closeSession session => some session.connection
  | .startController session => some session.connection
  | _ => none

/-- The connection a set-up has been given. -/
def Dialled.connection (d : Dialled) : Option ℕ := d.connect.toOption.map Prod.fst

/-- The target an effect dials. -/
def DialEffect.dialled : DialEffect → Option Target
  | .connect target _ => some target
  | _ => none

section Connect

variable {s : Handoff} {node : Atom} {d : Dialled} {session : Session} {effects : List DialEffect}

theorem resolve_eq_ok {peer : Peer} (h : s.resolve node = .ok peer) :
    s.alive = true ∧ s.server.config.peers.lookup node = some peer := by
  unfold Handoff.resolve Config.resolve at h
  split at h
  · next halive =>
      split at h
      · next peer' hpeer =>
          obtain rfl := Except.ok.inj h
          exact ⟨halive, hpeer⟩
      · cases h
  · cases h

/-- A session comes from a connection to the identity that is configured for the
node. -/
theorem connect_eq_ok (h : s.connect node d = (.ok session, effects)) :
    ∃ peer connection stream, s.alive = true ∧ s.server.config.peers.lookup node = some peer ∧
      d.connect = .ok (connection, peer.id) ∧ d.openBi = .ok stream ∧
      session = s.server.config.session connection stream peer.id ∧
      effects = [.connect peer.target s.server.config.connectTimeout, .openBi connection] := by
  unfold Handoff.connect at h
  split at h
  · next peer hresolve =>
      obtain ⟨halive, hpeer⟩ := resolve_eq_ok hresolve
      unfold connectPeer at h
      split at h
      · next connection remoteId hconnect =>
          split at h
          · next hid =>
              split at h
              · next stream hopen =>
                  obtain ⟨hsession, heffects⟩ := Prod.mk.inj h
                  subst hid
                  exact ⟨peer, connection, stream, halive, hpeer, hconnect, hopen,
                    (Except.ok.inj hsession).symm, heffects.symm⟩
              · cases (Prod.mk.inj h).1
          · cases (Prod.mk.inj h).1
      · cases (Prod.mk.inj h).1
  · cases (Prod.mk.inj h).1

/-- A `connect/1` that fails has closed what it opened, and has dialled nothing
for a node that is not configured. -/
theorem connect_eq_error {e : ConnectError} (h : s.connect node d = (.error e, effects)) :
    (∀ peer, s.resolve node ≠ .ok peer) ∧ effects = [] ∨
      ∃ peer, s.resolve node = .ok peer ∧
        effects.filterMap DialEffect.dialled = [peer.target] ∧
        effects.filterMap DialEffect.disposed = d.connection.toList := by
  unfold Handoff.connect at h
  split at h
  · next peer hresolve =>
      right
      refine ⟨peer, hresolve, ?_⟩
      unfold connectPeer at h
      unfold Dialled.connection
      split at h
      · next connection remoteId hconnect =>
          rw [hconnect]
          split at h
          · split at h
            · cases (Prod.mk.inj h).1
            · obtain ⟨-, rfl⟩ := Prod.mk.inj h
              exact ⟨rfl, rfl⟩
          · obtain ⟨-, rfl⟩ := Prod.mk.inj h
            exact ⟨rfl, rfl⟩
      · next hconnect =>
          rw [hconnect]
          obtain ⟨-, rfl⟩ := Prod.mk.inj h
          exact ⟨rfl, rfl⟩
  · next hresolve =>
      obtain ⟨-, rfl⟩ := Prod.mk.inj h
      refine .inl ⟨fun peer hpeer => ?_, rfl⟩
      rw [hpeer] at hresolve
      cases hresolve

/-- A set-up that comes to the handshake has gone through `connect/1` and
`outgoing/3`. -/
theorem doSetup_handshake {myNode : Atom} (h : (s.doSetup node myNode d).1 = .handshake session) :
    ∃ effects w', s.connect node d = (.ok session, effects) ∧
      outgoing session myNode node d.wire = (.ok (), w') ∧
      (s.doSetup node myNode d).2 = effects ++ [.startController session] := by
  unfold Handoff.doSetup at h ⊢
  split at h
  · next session' effects hconnect =>
      split at h
      · next hout =>
          obtain rfl := SetupResult.handshake.inj h
          refine ⟨effects, (outgoing session' myNode node d.wire).2, hconnect, ?_, ?_⟩
          · rw [← hout]
          · simp only
      · cases h
  · cases h

/-- A set-up of a configured node goes on with the handshake if its dial, its stream
and its preface have gone well. -/
theorem doSetup_eq_handshake {myNode : Atom} {peer : Peer} {connection stream : ℕ}
    (halive : s.alive = true) (hpeer : s.server.config.peers.lookup node = some peer)
    (hconnect : d.connect = .ok (connection, peer.id)) (hopen : d.openBi = .ok stream)
    (hout : (outgoing (s.server.config.session connection stream peer.id) myNode node d.wire).1 =
      .ok ()) :
    (s.doSetup node myNode d).1 =
      .handshake (s.server.config.session connection stream peer.id) := by
  have hconn : s.connect node d =
      (.ok (s.server.config.session connection stream peer.id),
        [.connect peer.target s.server.config.connectTimeout, .openBi connection]) := by
    simp only [Handoff.connect, Handoff.resolve, if_pos halive, Config.resolve, hpeer,
      connectPeer, hconnect, if_true, hopen]
  simp only [Handoff.doSetup, hconn, hout]

/-- What every set-up does to the network. -/
structure Disposes (s : Handoff) (node : Atom) (d : Dialled) (effects : List DialEffect) :
    Prop where
  dialled : effects.filterMap DialEffect.dialled =
    ((s.resolve node).toOption.map Peer.target).toList
  disposed : effects.filterMap DialEffect.disposed =
    ((s.resolve node).toOption.bind fun _ => d.connection).toList

/-- A set-up dials the target of the node, if it is configured, and gives the
connection away once. -/
theorem doSetup_disposes (s : Handoff) (node myNode : Atom) (d : Dialled) :
    Disposes s node d (s.doSetup node myNode d).2 := by
  have hok : ∀ {session effects}, s.connect node d = (.ok session, effects) →
      ∀ effect : DialEffect, effect.disposed = some session.connection → effect.dialled = none →
      Disposes s node d (effects ++ [effect]) := by
    intro session effects hconnect effect hdisposed hdialled
    obtain ⟨peer, connection, stream, halive, hpeer, hconn, -, rfl, rfl⟩ := connect_eq_ok hconnect
    have hresolve : s.resolve node = .ok peer := by
      rw [Handoff.resolve, if_pos halive, Config.resolve, hpeer]
    refine ⟨?_, ?_⟩
    · rw [hresolve, List.filterMap_append, List.filterMap_cons_none hdialled]
      rfl
    · rw [hresolve, List.filterMap_append, List.filterMap_cons_some hdisposed, Dialled.connection,
        hconn]
      rfl
  unfold Handoff.doSetup
  split
  · next session effects hconnect =>
      split
      · exact hok hconnect (.startController session) rfl rfl
      · exact hok hconnect (.closeSession session) rfl rfl
  · next e effects hconnect =>
      rcases connect_eq_error hconnect with ⟨hnone, rfl⟩ | ⟨peer, hresolve, hdialled, hdisposed⟩
      · have herror : (s.resolve node).toOption = none := by
          cases hresolve : s.resolve node with
          | error e => rfl
          | ok peer => exact absurd hresolve (hnone peer)
        exact ⟨by rw [herror]; rfl, by rw [herror]; rfl⟩
      · exact ⟨by rw [hresolve]; exact hdialled, by rw [hresolve]; exact hdisposed⟩

end Connect

/-- **A set-up loses no connection.**  Whatever the network answers: the target
of the configured peer is dialled, and nothing for a node that is not configured;
a connection that was opened is given away exactly once, closed or with its
session; and a session that goes into the handshake has the identity of the
dialled node, the limits of the configuration, and an address under that node
only. -/
theorem setup_disposes {nif : IdentityNif} {options : Term} {mode : Mode} {s : Handoff}
    (hc : validate nif options mode = .ok s.server.config) {splitNode : Atom → SplitNode}
    (hsplit : SplitsNodes splitNode) (node myNode : Atom) (d : Dialled) :
    Disposes s node d (s.doSetup node myNode d).2 ∧
      ∀ session, (s.doSetup node myNode d).1 = .handshake session →
        .startController session ∈ (s.doSetup node myNode d).2 ∧
        (∃ connection stream, d.connection = some connection ∧ d.openBi = .ok stream ∧
          session = s.server.config.session connection stream session.remoteId) ∧
        ∀ m, (∃ address, peerAddress splitNode s session m = .ok address) ↔ m = node := by
  refine ⟨doSetup_disposes s node myNode d, ?_⟩
  intro session hsession
  obtain ⟨effects, w', hconnect, -, heffects⟩ := doSetup_handshake hsession
  obtain ⟨peer, connection, stream, halive, hpeer, hconn, hopen, rfl, -⟩ := connect_eq_ok hconnect
  refine ⟨?_, ⟨connection, stream, ?_, hopen, rfl⟩, ?_⟩
  · rw [heffects]
    exact List.mem_append_right _ (List.mem_singleton_self _)
  · rw [Dialled.connection, hconn]
    rfl
  · intro m
    have hids := validate_ids hc
    rw [peerAddress_ok_iff hsplit hids]
    constructor
    · -- another node would have another identity
      rintro ⟨-, q, hq, hid⟩
      exact hids.node_unique hq hpeer hid
    · rintro rfl
      exact ⟨halive, peer, hpeer, rfl⟩

/-! ### The preface at both ends -/

/-- A send that succeeds has written all of its data. -/
theorem send_eq_ok {w w' : Wire} {data : Binary} {timeout maxBytes : ℕ}
    (h : w.send data timeout maxBytes = (.ok (), w')) :
    w'.written = w.written ++ data ∧ w'.unread = w.unread := by
  unfold Wire.send startStreamSend at h
  split at h
  · next hvalid =>
      have hne : ¬ (data = [] ∨ 64 * 1024 = 0) := by
        rintro (hnil | h)
        · rw [hnil] at hvalid
          exact absurd hvalid.2.2.1 (by simp)
        · cases h
      rw [if_neg hne] at h
      cases hout : w.outcomes 0 with
      | complete =>
          rw [hout] at h
          simp only [if_true] at h
          obtain ⟨-, rfl⟩ := Prod.mk.inj h
          exact ⟨rfl, rfl⟩
      | failed accepted e =>
          rw [hout] at h
          cases (Prod.mk.inj h).1
  · cases (Prod.mk.inj h).1

/-- `outgoing/3` succeeds when the preface has been written and the first byte
that comes back is one. -/
theorem outgoing_eq_ok {session : Session} {localNode remoteNode : Atom} {w w' : Wire}
    (h : outgoing session localNode remoteNode w = (.ok (), w')) :
    localNode.text.length ≤ 255 ∧ remoteNode.text.length ≤ 255 ∧
      w'.written = w.written ++ prefaceFrame localNode.text remoteNode.text ∧
      [1] <+: w.unread := by
  unfold outgoing prefaceSend at h
  split at h
  · next hnames =>
      refine ⟨hnames.1, hnames.2, ?_⟩
      split at h
      · next w₁ hsend =>
          split at hsend
          · next w₂ hsent =>
              obtain rfl := (Prod.mk.inj hsend).2
              obtain ⟨hwritten, hunread⟩ := send_eq_ok hsent
              have hread := recvExact_written session 1 [] w₂
              split at h
              · next ack w₃ hack =>
                  rw [hack] at hread
                  obtain ⟨hone, rfl⟩ := Prod.mk.inj h
                  split at hone
                  · next hack1 =>
                      obtain ⟨read, -, hchunks, hun⟩ := recvExact_ok hack
                      refine ⟨hread.trans hwritten, w₃.unread, ?_⟩
                      rw [← hunread, hun, ← hack1, hchunks]
                      rfl
                  · cases hone
              · cases (Prod.mk.inj h).1
          · cases (Prod.mk.inj hsend).1
      · cases (Prod.mk.inj h).1
  · cases (Prod.mk.inj h).1

/-- A preface that begins another is that preface. -/
theorem prefaceFrame_prefix {l r l' r' : Binary} (hl : l.length ≤ 255) (hr : r.length ≤ 255)
    (hl' : l'.length ≤ 255) (hr' : r'.length ≤ 255)
    (h : prefaceFrame l r <+: prefaceFrame l' r') : l = l' ∧ r = r' := by
  rw [prefaceFrame_eq, prefaceFrame_eq] at h
  have hheads : (prefaceHeader l r).length = (prefaceHeader l' r').length := by
    rw [length_prefaceHeader, length_prefaceHeader]
  have hhead : prefaceHeader l r = prefaceHeader l' r' := by
    have hle := List.prefix_of_prefix_length_le ((List.prefix_append _ _).trans h)
      (List.prefix_append _ _) hheads.le
    exact hle.eq_of_length hheads
  -- the headers have the lengths of the names
  obtain ⟨-, hlsize, hrsize⟩ := prefaceHeader_fields hl hr
  obtain ⟨-, hlsize', hrsize'⟩ := prefaceHeader_fields hl' hr'
  rw [hhead] at h hlsize hrsize
  have hnames : l ++ r = l' ++ r' := by
    apply ((List.prefix_append_right_inj _).mp h).eq_of_length
    rw [List.length_append, List.length_append, ← hlsize, ← hrsize, hlsize', hrsize']
  exact List.append_inj hnames (hlsize.symm.trans hlsize')

/-- Once `incoming/1` has read a preface, it goes on with the claim; until then it
has written nothing and failed. -/
theorem incoming_cases (validatePreface : Binary → EndpointId → Binary → Except PeerError Atom)
    (session : Session) (w : Wire) :
    (∃ e, (incoming validatePreface session w).1 = .error e) ∧
        (incoming validatePreface session w).2.written = w.written ∨
      ∃ remote target w₁, remote.length ≤ 255 ∧ target.length ≤ 255 ∧
        prefaceFrame remote target <+: w.unread ∧ w₁.written = w.written ∧
        incoming validatePreface session w =
          acceptClaim validatePreface session remote target w₁ := by
  have hheader := recvExact_written session (magic.length + 4) [] w
  unfold incoming
  split
  · next header w₁ hread =>
      rw [hread] at hheader
      obtain ⟨_, hlen, rfl, hun⟩ := recvExact_ok hread
      dsimp only
      split
      · next hfields =>
          obtain ⟨hmagic, hremote, htarget⟩ := hfields
          have hnames := recvExact_written session (ofBe ((header.drop 9).take 2) +
            ofBe ((header.drop 11).take 2)) [] w₁
          split
          · next names w₂ hread₂ =>
              rw [hread₂] at hnames
              obtain ⟨_, hlen₂, rfl, hun₂⟩ := recvExact_ok hread₂
              right
              refine ⟨_, _, w₂, ?_, ?_, ?_, hnames.trans hheader, rfl⟩
              · rw [List.length_take]
                omega
              · rw [List.length_drop]
                omega
              · rw [prefaceFrame_eq, List.take_append_drop, hun, hun₂, ← List.append_assoc,
                  ← prefaceHeader_of_fields hlen hmagic]
                · exact List.prefix_append _ _
                · rw [List.length_take]
                  omega
                · rw [List.length_drop]
                  omega
          · next e w₂ hread₂ =>
              rw [hread₂] at hnames
              exact .inl ⟨⟨e, rfl⟩, hnames.trans hheader⟩
      · exact .inl ⟨⟨_, rfl⟩, hheader⟩
  · next e w₁ hread =>
      rw [hread] at hheader
      exact .inl ⟨⟨e, rfl⟩, hheader⟩

/-- A claim is acknowledged only if it was authorised, and with one byte. -/
theorem acceptClaim_cases (validatePreface : Binary → EndpointId → Binary → Except PeerError Atom)
    (session : Session) (remote target : Binary) (w : Wire) :
    (∃ e, (acceptClaim validatePreface session remote target w).1 = .error e) ∧
        (acceptClaim validatePreface session remote target w).2.written = w.written ∨
      ∃ node, validatePreface remote session.remoteId target = .ok node ∧
        (acceptClaim validatePreface session remote target w) =
          match prefaceSend session [1] w with
          | (.ok (), w') => (.ok { session with claimedNode := some node }, w')
          | (.error e, w') => (.error e, w') := by
  unfold acceptClaim
  cases hvalid : validatePreface remote session.remoteId target with
  | ok node => exact .inr ⟨node, rfl, rfl⟩
  | error e => exact .inl ⟨⟨_, rfl⟩, rfl⟩

/-! ### Two nodes -/

/-- The two ends of one stream, each before and after its side of the preface:
either side finds there what the other has written. -/
structure Joined (dialler dialler' acceptor acceptor' : Wire) : Prop where
  fresh : dialler.written = [] ∧ acceptor.written = []
  there : acceptor.unread <+: dialler'.written
  back : dialler.unread <+: acceptor'.written

/-- **The dialling side speaks last.**  If `outgoing/3` succeeds at one end of a
stream, `incoming/1` at the other has read these very names and was told that
the claim is authorised. -/
theorem preface_agreement {session session' : Session} {localNode remoteNode : Atom}
    {validatePreface : Binary → EndpointId → Binary → Except PeerError Atom} {w w' v v' : Wire}
    {result : Except HandshakeError Session}
    (hout : outgoing session localNode remoteNode w = (.ok (), w'))
    (hin : incoming validatePreface session' v = (result, v')) (hjoined : Joined w w' v v') :
    ∃ node, validatePreface localNode.text session'.remoteId remoteNode.text = .ok node ∧
      ∀ accepted, result = .ok accepted →
        accepted = { session' with claimedNode := some node } := by
  obtain ⟨hlocal, hremote, hwritten, hack⟩ := outgoing_eq_ok hout
  rw [hjoined.fresh.1, List.nil_append] at hwritten
  -- the byte that came back has been written there
  have hback : v'.written ≠ [] := by
    intro hnil
    have hone := hack.trans hjoined.back
    rw [hnil] at hone
    exact List.cons_ne_nil _ _ (List.prefix_nil.mp hone)
  rcases incoming_cases validatePreface session' v with
    ⟨-, hsilent⟩ | ⟨remote, target, v₁, hr, ht, hpre, hv₁, hclaim⟩
  · rw [hin] at hsilent
    exact absurd (hsilent.trans hjoined.fresh.2) hback
  · have hnames := hpre.trans hjoined.there
    rw [hwritten] at hnames
    obtain ⟨rfl, rfl⟩ := prefaceFrame_prefix hr ht hlocal hremote hnames
    rw [hin] at hclaim
    rcases acceptClaim_cases validatePreface session' localNode.text remoteNode.text v₁ with
      ⟨-, hsilent⟩ | ⟨node, hvalid, heq⟩
    · rw [← hclaim] at hsilent
      exact absurd ((hsilent.trans hv₁).trans hjoined.fresh.2) hback
    · refine ⟨node, hvalid, ?_⟩
      rintro accepted rfl
      rw [heq] at hclaim
      split at hclaim
      · exact Except.ok.inj (Prod.mk.inj hclaim).1
      · cases (Prod.mk.inj hclaim).1

/-- The session with which the acceptor reads the preface of an attempt. -/
def Handoff.attemptSession (t : Handoff) (a : Attempt) (stream : ℕ) : Session :=
  t.server.config.session a.connection stream a.remoteId

theorem acceptAttempt_eq {t : Handoff} {a : Attempt} {stream : ℕ} (ha : a.stream = some stream) :
    t.acceptAttempt a =
      (incoming t.validatePreface (t.attemptSession a stream) a.wire).1.toOption := by
  simp only [Handoff.acceptAttempt, ha, Handoff.attemptSession]
  cases incoming t.validatePreface (t.server.config.session a.connection stream a.remoteId) a.wire
    with
  | mk result w => cases result <;> rfl

/-- The other side authorises a name exactly if it is its own that is meant, and
the name is that of a configured peer with the reported identity. -/
theorem validatePreface_ok_iff {t : Handoff}
    (hids : IndexesAgree t.server.config.peers t.server.config.ids) {name target node : Atom}
    {remoteId : EndpointId} :
    t.validatePreface name.text remoteId target.text = .ok node ↔
      t.alive = true ∧ t.server.config.name = target ∧ node = name ∧
        ∃ peer, t.server.config.peers.lookup name = some peer ∧ peer.id = remoteId := by
  unfold Handoff.validatePreface
  constructor
  · intro h
    split at h
    · next halive =>
        obtain ⟨htarget, hname, hpeer⟩ := authorizeClaim_eq_ok h
        obtain rfl : node = name := by
          cases node
          cases name
          exact congrArg Atom.mk hname
        refine ⟨halive, ?_, rfl, hpeer⟩
        cases hc : t.server.config.name
        cases target
        rw [hc] at htarget
        exact congrArg Atom.mk htarget.symm
    · cases h
  · rintro ⟨halive, rfl, rfl, peer, hpeer, rfl⟩
    rw [if_pos halive, Config.authorizeClaim, if_pos rfl]
    have hmem : (⟨node, peer⟩ : Sigma fun _ => Peer) ∈ t.server.config.peers.entries :=
      List.of_mem_dlookup hpeer
    cases hfind : t.server.config.peers.entries.find? fun e => e.1.text = node.text with
    | none =>
        have hnot := List.find?_eq_none.mp hfind _ hmem
        simp at hnot
    | some e =>
        obtain ⟨found, peer'⟩ := e
        have htext := List.find?_some hfind
        obtain rfl : found = node := by
          cases found
          cases node
          exact congrArg Atom.mk (by simpa using htext)
        have hpeer' : t.server.config.peers.lookup found = some peer' :=
          List.mem_dlookup t.server.config.peers.nodupKeys (List.mem_of_find?_eq_some hfind)
        obtain rfl := Option.some.inj (hpeer.symm.trans hpeer')
        have hnil : found ≠ atom "nil" := by
          -- `nil` is no node name
          rintro rfl
          obtain ⟨name, host, hparts, -⟩ := (hids _ _ hpeer).1
          have hone : (nodeParts (atom "nil")).length = 1 := by decide
          rw [hparts] at hone
          cases hone
        simp [hnil]

/-- **Both ends of a link mean the same two nodes.**  If the set-up for `node`
comes to the handshake, then the identity the dialling side was given is that of
`node`, and the other side is `node` by its own name; it was asked about
`myNode` with the identity that it was given, and that is the one it has for
`myNode`.  What it makes of the connection is a session with that name, and an
address under that name only. -/
theorem setup_agreement {nif : IdentityNif} {options : Term} {mode : Mode} {s t : Handoff}
    (hc : validate nif options mode = .ok t.server.config) {splitNode : Atom → SplitNode}
    (hsplit : SplitsNodes splitNode) {node myNode : Atom} {d : Dialled} {a : Attempt}
    {session : Session} {stream : ℕ} (hsetup : (s.doSetup node myNode d).1 = .handshake session)
    (hstream : a.stream = some stream)
    (hjoined : Joined d.wire (outgoing session myNode node d.wire).2 a.wire
      (incoming t.validatePreface (t.attemptSession a stream) a.wire).2) :
    (∃ peer, s.server.config.peers.lookup node = some peer ∧ peer.id = session.remoteId) ∧
      t.server.config.name = node ∧
      (∃ peer, t.server.config.peers.lookup myNode = some peer ∧ peer.id = a.remoteId) ∧
      ∀ accepted, t.acceptAttempt a = some accepted →
        accepted.claimedNode = some myNode ∧ accepted.remoteId = a.remoteId ∧
        ∀ m, (∃ address, peerAddress splitNode t accepted m = .ok address) ↔ m = myNode := by
  have hids := validate_ids hc
  obtain ⟨effects, w', hconnect, hout, -⟩ := doSetup_handshake hsetup
  obtain ⟨peer, connection, stream', -, hpeer, -, -, hsession, -⟩ := connect_eq_ok hconnect
  rw [hout] at hjoined
  obtain ⟨named, hvalid, haccepted⟩ := preface_agreement hout (Prod.mk.eta.symm) hjoined
  obtain ⟨halive, hname, rfl, hknown⟩ := (validatePreface_ok_iff hids).mp hvalid
  refine ⟨⟨peer, hpeer, by rw [hsession]; rfl⟩, hname, hknown, ?_⟩
  intro accepted haccept
  rw [acceptAttempt_eq hstream] at haccept
  obtain rfl := haccepted accepted (by
    cases hresult : (incoming t.validatePreface (t.attemptSession a stream) a.wire).1 with
    | ok session' =>
        rw [hresult] at haccept
        exact congrArg _ (Option.some.inj haccept)
    | error e =>
        rw [hresult] at haccept
        cases haccept)
  refine ⟨rfl, rfl, ?_⟩
  intro m
  rw [peerAddress_ok_iff hsplit hids]
  obtain ⟨peer', hpeer', hid'⟩ := hknown
  constructor
  · rintro ⟨-, q, hq, hid⟩
    exact hids.node_unique hq hpeer' (hid.trans hid'.symm)
  · rintro rfl
    exact ⟨halive, peer', hpeer', hid'⟩

/-! ### A stream that loses nothing -/

/-- Every receive gets at least one byte or the end of the stream, and every send
is taken whole. -/
structure Wire.Lossless (w : Wire) : Prop where
  flows : w.Flows
  outcomes : ∀ i, w.outcomes i = .complete

/-- Each side finds all that the other has written. -/
structure Joined.Exact (dialler dialler' acceptor acceptor' : Wire) : Prop where
  fresh : dialler.written = [] ∧ acceptor.written = []
  there : acceptor.unread = dialler'.written
  back : dialler.unread = acceptor'.written

theorem Joined.Exact.joined {w w' v v' : Wire} (h : Joined.Exact w w' v v') : Joined w w' v v' :=
  ⟨h.fresh, h.there ▸ List.prefix_rfl, h.back ▸ List.prefix_rfl⟩

section Verdict

variable {session session' : Session} {localNode remoteNode : Atom}
  {validatePreface : Binary → EndpointId → Binary → Except PeerError Atom} {w v : Wire}

/-- An authorised preface is acknowledged. -/
theorem incoming_acknowledges (hs' : 0 < session'.streamTimeout) (hv : v.Lossless)
    (hlocal : localNode.text.length ≤ 255) (hremote : remoteNode.text.length ≤ 255)
    (hun : v.unread = prefaceFrame localNode.text remoteNode.text) {node : Atom}
    (hvalid : validatePreface localNode.text session'.remoteId remoteNode.text = .ok node) :
    (incoming validatePreface session' v).1 = .ok { session' with claimedNode := some node } ∧
      (incoming validatePreface session' v).2.written = v.written ++ [1] := by
  rw [← List.append_nil (prefaceFrame _ _)] at hun
  obtain ⟨v₁, hadv, -, hin⟩ := incoming_preface hs' validatePreface hlocal hremote hv.flows hun
  have hcomplete : v₁.outcomes 0 = .complete := by
    rw [hadv.outcomes]
    exact hv.outcomes 0
  have hone := send_complete 1024 hcomplete hs' (List.cons_ne_nil (1 : UInt8) []) (by decide)
  rw [hin]
  simp only [acceptClaim, hvalid, prefaceSend, hone, hadv.written, and_self]

/-- The acknowledgement ends `outgoing/3`. -/
theorem outgoing_acknowledged (hs : 0 < session.streamTimeout) (hw : w.Lossless)
    (hlocal : localNode.text.length ≤ 255) (hremote : remoteNode.text.length ≤ 255)
    (hun : w.unread = [1]) : (outgoing session localNode remoteNode w).1 = .ok () := by
  have hlen := length_prefaceFrame localNode.text remoteNode.text
  have hne : prefaceFrame localNode.text remoteNode.text ≠ [] := by
    apply List.ne_nil_of_length_pos
    omega
  have hsend := send_complete 1024 (hw.outcomes 0) hs hne (by omega)
  obtain ⟨w₂, hread, -⟩ := recvExact_eq hs (w := { w with
    written := w.written ++ prefaceFrame localNode.text remoteNode.text
    outcomes := fun i => w.outcomes (i + 1) }) hw.flows 1 (by rw [hun]; rfl) (by decide) []
  simp only [outgoing, if_pos (And.intro hlocal hremote), prefaceSend, hsend, hread]
  rw [hun]
  rfl

/-- **The verdict of a preface** on a stream that loses nothing: it is that of the
other side's server. -/
theorem preface_verdict (hs : 0 < session.streamTimeout) (hs' : 0 < session'.streamTimeout)
    (hw : w.Lossless) (hv : v.Lossless)
    (hjoined : Joined.Exact w (outgoing session localNode remoteNode w).2 v
      (incoming validatePreface session' v).2) :
    (outgoing session localNode remoteNode w).1 = .ok () ↔
      localNode.text.length ≤ 255 ∧ remoteNode.text.length ≤ 255 ∧
        ∃ node, validatePreface localNode.text session'.remoteId remoteNode.text = .ok node := by
  constructor
  · intro hok
    have hout : outgoing session localNode remoteNode w =
        (.ok (), (outgoing session localNode remoteNode w).2) := by rw [← hok]
    obtain ⟨hlocal, hremote, -⟩ := outgoing_eq_ok hout
    obtain ⟨node, hvalid, -⟩ := preface_agreement hout Prod.mk.eta.symm hjoined.joined
    exact ⟨hlocal, hremote, node, hvalid⟩
  · rintro ⟨hlocal, hremote, node, hvalid⟩
    apply outgoing_acknowledged hs hw hlocal hremote
    have hun : v.unread = prefaceFrame localNode.text remoteNode.text := by
      rw [hjoined.there, outgoing_written hs hlocal hremote (hw.outcomes 0), hjoined.fresh.1,
        List.nil_append]
    rw [hjoined.back, (incoming_acknowledges hs' hv hlocal hremote hun hvalid).2, hjoined.fresh.2,
      List.nil_append]

end Verdict

/-- **The verdict of a set-up.**  If the network answers every call and loses
nothing, the dialling side comes to the handshake exactly if both servers run,
the identity that was reached is the one configured for `node`, both names fit a
preface, and the other side is `node` and has the dialling side's identity under
`myNode`. -/
theorem setup_verdict {nif nif' : IdentityNif} {options options' : Term} {mode mode' : Mode}
    {s t : Handoff} (hs : validate nif options mode = .ok s.server.config)
    (ht : validate nif' options' mode' = .ok t.server.config) {node myNode : Atom} {d : Dialled}
    {a : Attempt} {connection stream stream' : ℕ} {remoteId : EndpointId}
    (hconnect : d.connect = .ok (connection, remoteId)) (hopen : d.openBi = .ok stream)
    (hd : d.wire.Lossless) (ha : a.wire.Lossless)
    (hjoined : Joined.Exact d.wire
      (outgoing (s.server.config.session connection stream remoteId) myNode node d.wire).2 a.wire
      (incoming t.validatePreface (t.attemptSession a stream') a.wire).2) :
    (∃ session, (s.doSetup node myNode d).1 = .handshake session) ↔
      (s.alive = true ∧
        ∃ peer, s.server.config.peers.lookup node = some peer ∧ peer.id = remoteId) ∧
        (myNode.text.length ≤ 255 ∧ node.text.length ≤ 255) ∧
        t.alive = true ∧ t.server.config.name = node ∧
          ∃ peer, t.server.config.peers.lookup myNode = some peer ∧ peer.id = a.remoteId := by
  have hverdict := preface_verdict (validate_limits hs).streamTimeout
    (validate_limits ht).streamTimeout hd ha hjoined
  have hids := validate_ids ht
  constructor
  · rintro ⟨session, hsetup⟩
    obtain ⟨effects, w', hconn, hout, -⟩ := doSetup_handshake hsetup
    obtain ⟨peer, connection', stream₁, halive, hpeer, hconnect', hopen', rfl, -⟩ :=
      connect_eq_ok hconn
    obtain ⟨rfl, rfl⟩ := Prod.mk.inj (Except.ok.inj (hconnect.symm.trans hconnect'))
    obtain rfl := Except.ok.inj (hopen.symm.trans hopen')
    obtain ⟨hlocal, hremote, named, hvalid⟩ := hverdict.mp (by rw [hout])
    obtain ⟨halive', hname, -, hknown⟩ := (validatePreface_ok_iff hids).mp hvalid
    exact ⟨⟨halive, peer, hpeer, rfl⟩, ⟨hlocal, hremote⟩, halive', hname, hknown⟩
  · rintro ⟨⟨halive, peer, hpeer, rfl⟩, ⟨hlocal, hremote⟩, halive', hname, hknown⟩
    have hout := hverdict.mpr ⟨hlocal, hremote, myNode,
      (validatePreface_ok_iff hids).mpr ⟨halive', hname, rfl, hknown⟩⟩
    exact ⟨_, doSetup_eq_handshake halive hpeer hconnect hopen hout⟩

/-! ### A sample set-up -/

/-- A node `b@h` with the single peer `a@h`. -/
def sampleDialOptions : Term :=
  .list
    [.tuple [.atom (atom "name"), .atom (atom "b@h")],
     .tuple [.atom (atom "identity"), .atom (atom "ephemeral")],
     .tuple [.atom (atom "network"), .atom (atom "direct")],
     .tuple [.atom (atom "peers"), .map [(.atom (atom "a@h"), .endpointId sampleOtherId)]]]

def sampleDialConfig : Config :=
  { sampleConfig with
    name := atom "b@h"
    peers := (∅ : PeerMap).insert (atom "a@h") ⟨.id sampleOtherId, sampleOtherId⟩
    ids := (∅ : IdMap).insert sampleOtherId.text (atom "a@h") }

theorem validate_sampleDial :
    validate sampleNif sampleDialOptions .dynamic = .ok sampleDialConfig :=
  rfl

/-- The server of `b@h`. -/
def sampleDialler : Handoff :=
  .start (.start sampleDialConfig 0 samplePeerId ⟨samplePeerId, [], []⟩ 0 1)

/-- `b@h` reaches `a@h`, which acknowledges. -/
def sampleDialled : Dialled :=
  { connect := .ok (3, sampleOtherId)
    openBi := .ok 4
    wire :=
      { unread := [1]
        replies := fun _ => .bytes 1
        written := []
        outcomes := fun _ => .complete } }

/-- What `a@h` accepts. -/
def sampleCalled : Attempt :=
  { connection := 0
    remoteId := samplePeerId
    stream := some 0
    wire :=
      { unread := prefaceFrame (ascii "b@h") (ascii "a@h"), replies := fun _ => .bytes 1
        written := [], outcomes := fun _ => .complete } }

theorem sampleDialled_lossless : sampleDialled.wire.Lossless :=
  ⟨fun _ => ⟨1, Nat.one_pos, rfl⟩, fun _ => rfl⟩

theorem sampleCalled_lossless : sampleCalled.wire.Lossless :=
  ⟨fun _ => ⟨1, Nat.one_pos, rfl⟩, fun _ => rfl⟩

theorem sampleDialled_joined :
    Joined.Exact sampleDialled.wire
      (outgoing (sampleDialConfig.session 3 4 sampleOtherId) (atom "b@h") (atom "a@h")
        sampleDialled.wire).2 sampleCalled.wire
      (incoming (Handoff.start sampleServer).validatePreface
        ((Handoff.start sampleServer).attemptSession sampleCalled 0) sampleCalled.wire).2 where
  fresh := ⟨rfl, rfl⟩
  there := by
    rw [outgoing_written (by decide) (by decide) (by decide) rfl]
    rfl
  back := by
    have hack : (incoming _ _ sampleCalled.wire).2.written = [] ++ [1] :=
      (@incoming_acknowledges ((Handoff.start sampleServer).attemptSession sampleCalled 0)
        (atom "b@h") (atom "a@h") (Handoff.start sampleServer).validatePreface _ (by decide)
        sampleCalled_lossless (by decide) (by decide) rfl (atom "b@h") rfl).2
    rw [hack]
    rfl

/-- What `b@h` goes on with. -/
theorem sampleDialler_doSetup :
    (sampleDialler.doSetup (atom "a@h") (atom "b@h") sampleDialled).1 =
      .handshake (sampleDialConfig.session 3 4 sampleOtherId) := by
  have hout : (outgoing (sampleDialConfig.session 3 4 sampleOtherId) (atom "b@h") (atom "a@h")
      sampleDialled.wire).1 = .ok () :=
    outgoing_acknowledged (by decide) sampleDialled_lossless (by decide) (by decide) rfl
  have hconn : sampleDialler.connect (atom "a@h") sampleDialled =
      (.ok (sampleDialConfig.session 3 4 sampleOtherId),
        [.connect (.id sampleOtherId) 10000, .openBi 3]) := rfl
  simp only [Handoff.doSetup, hconn, hout]

theorem sampleSplitNode_splits : SplitsNodes sampleSplitNode := by
  intro node name host hparts _ _
  simp only [sampleSplitNode, hparts]

theorem setup_disposes_sample :
    Disposes sampleDialler (atom "a@h") sampleDialled
        (sampleDialler.doSetup (atom "a@h") (atom "b@h") sampleDialled).2 ∧
      ∀ m, (∃ address, peerAddress sampleSplitNode sampleDialler
        (sampleDialConfig.session 3 4 sampleOtherId) m = .ok address) ↔ m = atom "a@h" := by
  have h := setup_disposes (s := sampleDialler) validate_sampleDial sampleSplitNode_splits
    (atom "a@h") (atom "b@h") sampleDialled
  exact ⟨h.1, (h.2 _ sampleDialler_doSetup).2.2⟩

theorem setup_agreement_sample :
    sampleServer.config.name = atom "a@h" ∧
      ∃ peer, sampleServer.config.peers.lookup (atom "b@h") = some peer ∧
        peer.id = samplePeerId := by
  have h := setup_agreement (s := sampleDialler) (t := .start sampleServer) (a := sampleCalled)
    validate_sample sampleSplitNode_splits sampleDialler_doSetup rfl sampleDialled_joined.joined
  exact ⟨h.2.1, h.2.2.1⟩

theorem setup_verdict_sample :
    ∃ session, (sampleDialler.doSetup (atom "a@h") (atom "b@h") sampleDialled).1 =
      .handshake session :=
  (setup_verdict (s := sampleDialler) (t := .start sampleServer) (a := sampleCalled)
    validate_sampleDial validate_sample rfl rfl sampleDialled_lossless sampleCalled_lossless
    sampleDialled_joined).mpr
    ⟨⟨rfl, _, rfl, rfl⟩, ⟨by decide, by decide⟩, rfl, rfl, _, rfl, rfl⟩

end IrohBeam
