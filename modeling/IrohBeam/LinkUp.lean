/-
IrohBeam/LinkUp.lean

When a link comes up: two nodes from their configurations to the distribution
handshake.

A node is a `StartedNode`: a configuration that has been accepted, the endpoint
that was started with it, and the endpoint server.  What lies between two of them
is a `Contact`: dials that leave an endpoint reach the endpoint with the identity
that was dialled, identities are reported truthfully, and a connection that is
taken loses nothing.

* `mutual_configuration` — a set-up comes to the handshake exactly if the two
  nodes are configured for each other: each has the other's name, with the
  identity that the other's endpoint has, and the dialled address is usable.
  Both ends then have sessions with just these names and identities.
-/
import IrohBeam.Dial
import IrohBeam.NativePeers

namespace IrohBeam

open Bytes

/-! ### A node -/

section Nodes

variable {Id Url Socket Other : Type} [LinearOrder Url] [LinearOrder Socket] [LinearOrder Other]

/-- A node that has been started: an accepted configuration, the endpoint that its
options give, and the endpoint server. -/
structure StartedNode (lib : IdentityLib Id Url Socket Other) (keys : SecretKeyNif) where
  options : Term
  mode : Mode
  handoff : Handoff
  endpoint : EndpointConfig
  isOpen : Bool
  identity : Id
  accepted : validate lib.nif options mode = .ok handoff.server.config
  made : PeersMade lib options
  started : Endpoint.validateOptions keys handoff.server.config.endpointOptions = .ok endpoint

variable {lib : IdentityLib Id Url Socket Other} {keys : SecretKeyNif}

def StartedNode.config (n : StartedNode lib keys) : Config := n.handoff.server.config

/-- The identity of a node, as the NIFs return it. -/
def StartedNode.endpointId (n : StartedNode lib keys) : EndpointId :=
  fromCanonical (lib.canonical n.identity)

/-- The dial of `connect_peer/1`. -/
def StartedNode.dial (n : StartedNode lib keys) (peer : Peer) :
    Except Failure (NativeAddr Id Url Socket Other) :=
  Endpoint.connect lib n.endpoint n.isOpen peer.target alpn

/-- A connection is taken by `connection_accept_start`, which has parsed the
allowlist of the endpoint. -/
def StartedNode.Takes (n : StartedNode lib keys) (remote : Id) (claimed monitored : Bool) : Prop :=
  n.isOpen = true ∧ ∃ allowed, parseAllowed lib n.endpoint.peerAllowlist.2 = .ok allowed ∧
    (acceptIncoming lib n.endpoint.peerAllowlist.1 allowed
      (.connected remote claimed monitored)).1 = .ok remote

/-- A node that knows another: under this name it has the other's identity. -/
def StartedNode.Knows (n : StartedNode lib keys) (node : Atom) (other : StartedNode lib keys) :
    Prop :=
  ∃ peer, n.config.peers.lookup node = some peer ∧ peer.id = other.endpointId

/-- A name under which a node can dial another: the address it has for it is
within the limits of `build_addr`, and is not empty unless the endpoint looks
addresses up. -/
def StartedNode.Reaches (n : StartedNode lib keys) (node : Atom) (other : StartedNode lib keys) :
    Prop :=
  ∃ peer, n.config.peers.lookup node = some peer ∧ peer.id = other.endpointId ∧
    peer.target.address.Within lib ∧
    (n.config.network.profile.addressLookupEnabled = true ∨
      peer.target.address.relayUrls ≠ [] ∨ peer.target.address.ipAddrs ≠ [])

variable {A B : StartedNode lib keys}

theorem endpointId_eq_iff (hlib : lib.Lawful) {k : Id} :
    fromCanonical (lib.canonical k) = B.endpointId ↔ k = B.identity := by
  constructor
  · intro h
    exact canonical_text_inj hlib (congrArg EndpointId.text h)
  · rintro rfl
    rfl

/-- A connection is taken exactly if its identity is that of a peer, whatever its
name. -/
theorem takes_iff (hlib : lib.Lawful) {claimed monitored : Bool} :
    B.Takes A.identity claimed monitored ↔
      B.isOpen = true ∧ claimed = true ∧ monitored = true ∧ ∃ node, B.Knows node A := by
  obtain ⟨key, hendpoint⟩ := endpointConfig_of_accepted B.accepted B.started
  obtain ⟨hparses, hallowed⟩ := allowlist_authorizes hlib B.accepted B.made key
  have haccepts := (acceptIncoming_connected lib (B.config.endpointConfig key).peerAllowlist.1
    (B.config.endpointConfig key).peerAllowlist.2 A.identity claimed monitored).1
  have hknows : (lib.canonical A.identity).text ∈ (B.config.endpointConfig key).peerAllowlist.2 ↔
      ∃ node, B.Knows node A := by
    rw [StartedNode.config, hallowed]
    exact exists_congr fun node => authorizeId_iff hlib B.accepted B.made A.identity node
  have hrestricted : (B.config.endpointConfig key).peerAllowlist.1 = false := rfl
  rw [← hknows, StartedNode.Takes, hendpoint]
  refine and_congr_right fun _ => ?_
  constructor
  · rintro ⟨allowed, hallow, htaken⟩
    obtain rfl := Except.ok.inj (hparses.symm.trans hallow)
    obtain ⟨hclaimed, hmonitored, hall | hmem⟩ := haccepts.mp htaken
    · rw [hrestricted] at hall
      cases hall
    · exact ⟨hclaimed, hmonitored, hmem⟩
  · rintro ⟨hclaimed, hmonitored, hmem⟩
    exact ⟨_, hparses, haccepts.mpr ⟨hclaimed, hmonitored, .inr hmem⟩⟩

/-- A dial that leaves the endpoint, to the identity of a peer. -/
theorem dial_ok_iff (hlib : lib.Lawful) {node : Atom} {peer : Peer}
    (hpeer : A.config.peers.lookup node = some peer) :
    ((∃ addr, A.dial peer = .ok addr) ↔ A.isOpen = true ∧ peer.target.address.Within lib ∧
        (A.config.network.profile.addressLookupEnabled = true ∨
          peer.target.address.relayUrls ≠ [] ∨ peer.target.address.ipAddrs ≠ [])) ∧
      ∀ addr, A.dial peer = .ok addr → fromCanonical (lib.canonical addr.id) = peer.id := by
  obtain ⟨haddr, hid⟩ := peer_printed hlib A.accepted A.made hpeer
  obtain ⟨key, hendpoint⟩ := endpointConfig_of_accepted A.accepted A.started
  have hdials := endpointConnect_dials hlib A.config key haddr A.isOpen
  rw [StartedNode.dial, hendpoint]
  refine ⟨hdials.dialled, fun addr hdial => ?_⟩
  rw [hid]
  exact (hdials.exact addr hdial).1

/-! ### Between two nodes -/

/-- What the transport makes of a set-up of `A` for `node`, if `B` is the only
endpoint it reaches.  The claim of a place and the monitor are those of `B`'s side
of the connection. -/
structure Contact (A B : StartedNode lib keys) (node : Atom) (claimed monitored : Bool)
    (d : Dialled) (a : Attempt) : Prop where
  refused : ∀ peer failure, A.config.peers.lookup node = some peer →
    A.dial peer = .error failure → ∃ e, d.connect = .error e
  /-- Nobody else answers. -/
  unanswered : ∀ peer addr, A.config.peers.lookup node = some peer → A.dial peer = .ok addr →
    addr.id ≠ B.identity → ∃ e, d.connect = .error e
  /-- Both ends are told the identity of the other. -/
  authenticated : (∀ connection remoteId, d.connect = .ok (connection, remoteId) →
    remoteId = B.endpointId) ∧ a.remoteId = A.endpointId
  /-- Nothing comes back on a connection that `B` has not taken. -/
  closed : ¬ B.Takes A.identity claimed monitored → d.wire.unread = []
  taken : ∀ peer addr, A.config.peers.lookup node = some peer → A.dial peer = .ok addr →
    addr.id = B.identity → B.Takes A.identity claimed monitored →
    ∃ connection stream stream', d.connect = .ok (connection, B.endpointId) ∧
      d.openBi = .ok stream ∧ a.stream = some stream' ∧ d.wire.Lossless ∧ a.wire.Lossless ∧
      Joined.Exact d.wire
        (outgoing (A.config.session connection stream B.endpointId) A.config.name node d.wire).2
        a.wire (incoming B.handoff.validatePreface (B.handoff.attemptSession a stream') a.wire).2

section Meeting

variable {node : Atom} {claimed monitored : Bool} {d : Dialled} {a : Attempt}

/-- A set-up that comes to the handshake has dialled `B`, and was let in. -/
theorem Contact.of_handshake (h : Contact A B node claimed monitored d a)
    {session : Session}
    (hsetup : (A.handoff.doSetup node A.config.name d).1 = .handshake session) :
    ∃ peer addr, A.handoff.alive = true ∧ A.config.peers.lookup node = some peer ∧
      A.dial peer = .ok addr ∧ addr.id = B.identity ∧ session.remoteId = B.endpointId ∧
      B.Takes A.identity claimed monitored := by
  obtain ⟨effects, w', hconn, hout, -⟩ := doSetup_handshake hsetup
  obtain ⟨peer, connection, stream, halive, hpeer, hconnect, -, rfl, -⟩ := connect_eq_ok hconn
  have hnot : ∀ e, d.connect ≠ .error e := by
    intro e herror
    rw [hconnect] at herror
    cases herror
  cases hdial : A.dial peer with
  | error failure =>
      obtain ⟨e, he⟩ := h.refused peer failure hpeer hdial
      exact absurd he (hnot e)
  | ok addr =>
      have haddr : addr.id = B.identity := by
        by_contra hother
        obtain ⟨e, he⟩ := h.unanswered peer addr hpeer hdial hother
        exact hnot e he
      have htakes : B.Takes A.identity claimed monitored := by
        -- the acknowledgement has come from `B`
        by_contra hclosed
        have hack := (outgoing_eq_ok hout).2.2.2
        rw [h.closed hclosed] at hack
        exact List.cons_ne_nil _ _ (List.prefix_nil.mp hack)
      exact ⟨peer, addr, halive, hpeer, hdial, haddr, h.authenticated.1 _ _ hconnect, htakes⟩

/-- What comes of a connection to `B` that has been taken: the verdict of the
preface, and a session of `B`. -/
theorem Contact.verdict (hlib : lib.Lawful) (h : Contact A B node claimed monitored d a) {peer : Peer}
    {addr : NativeAddr Id Url Socket Other} (halive : A.handoff.alive = true)
    (hpeer : A.config.peers.lookup node = some peer) (hdial : A.dial peer = .ok addr)
    (haddr : addr.id = B.identity) (htakes : B.Takes A.identity claimed monitored) :
    ((∃ session, (A.handoff.doSetup node A.config.name d).1 = .handshake session) ↔
        (A.config.name.text.length ≤ 255 ∧ node.text.length ≤ 255) ∧
          B.handoff.alive = true ∧ B.config.name = node ∧ B.Knows A.config.name A) ∧
      ∀ session, (A.handoff.doSetup node A.config.name d).1 = .handshake session →
        ∃ accepted, B.handoff.acceptAttempt a = some accepted ∧
          accepted.claimedNode = some A.config.name ∧ accepted.remoteId = A.endpointId := by
  obtain ⟨connection, stream, stream', hconnect, hopen, hstream, hd, ha, hjoined⟩ :=
    h.taken peer addr hpeer hdial haddr htakes
  have hids := validate_ids B.accepted
  have hid : peer.id = B.endpointId := by
    rw [← (dial_ok_iff hlib hpeer).2 addr hdial, endpointId_eq_iff hlib]
    exact haddr
  have hs := (validate_limits A.accepted).streamTimeout
  have hs' := (validate_limits B.accepted).streamTimeout
  have hverdict := preface_verdict hs hs' hd ha hjoined
  have hnamed : ∀ named, B.handoff.validatePreface A.config.name.text
      (B.handoff.attemptSession a stream').remoteId node.text = .ok named ↔
        B.handoff.alive = true ∧ B.config.name = node ∧ named = A.config.name ∧
          B.Knows A.config.name A := by
    intro named
    rw [show (B.handoff.attemptSession a stream').remoteId = A.endpointId from h.authenticated.2]
    exact validatePreface_ok_iff hids
  have hout : ∀ session, (A.handoff.doSetup node A.config.name d).1 = .handshake session →
      (outgoing (A.config.session connection stream B.endpointId) A.config.name node d.wire).1 =
        .ok () := by
    intro session hsetup
    obtain ⟨effects, w', hconn, hout, -⟩ := doSetup_handshake hsetup
    obtain ⟨peer', connection', stream₁, -, -, hconnect', hopen', rfl, -⟩ := connect_eq_ok hconn
    obtain ⟨rfl, hsame⟩ := Prod.mk.inj (Except.ok.inj (hconnect.symm.trans hconnect'))
    obtain rfl := Except.ok.inj (hopen.symm.trans hopen')
    rw [← hsame] at hout
    exact congrArg Prod.fst hout
  refine ⟨⟨?_, ?_⟩, ?_⟩
  · rintro ⟨session, hsetup⟩
    obtain ⟨hlocal, hremote, named, hvalid⟩ := hverdict.mp (hout session hsetup)
    obtain ⟨halive', hname, -, hknows⟩ := (hnamed named).mp hvalid
    exact ⟨⟨hlocal, hremote⟩, halive', hname, hknows⟩
  · rintro ⟨⟨hlocal, hremote⟩, halive', hname, hknows⟩
    have hok := hverdict.mpr
      ⟨hlocal, hremote, A.config.name, (hnamed _).mpr ⟨halive', hname, rfl, hknows⟩⟩
    rw [← hid] at hconnect hok
    exact ⟨_, doSetup_eq_handshake halive hpeer hconnect hopen hok⟩
  · intro session hsetup
    obtain ⟨hlocal, hremote, named, hvalid⟩ := hverdict.mp (hout session hsetup)
    obtain ⟨-, -, rfl, -⟩ := (hnamed named).mp hvalid
    -- `B` has read the whole preface
    have hun : a.wire.unread = prefaceFrame A.config.name.text node.text := by
      rw [hjoined.there, outgoing_written hs hlocal hremote (hd.outcomes 0), hjoined.fresh.1,
        List.nil_append]
    have hin := (incoming_acknowledges hs' ha hlocal hremote hun hvalid).1
    exact ⟨_, by rw [acceptAttempt_eq hstream, hin]; rfl, rfl, h.authenticated.2⟩

/-- **Two nodes link exactly if they are configured for each other.**  The set-up of
`A` for `node` comes to the handshake exactly if both servers run and both
endpoints are open, `A` can reach `B` under `node`, which is `B`'s own name, `B`
knows `A` under the name that `A` has, both names fit a preface, and `B` has a
place for the connection.  The sessions at both ends then have the name and the
identity of the other side. -/
theorem mutual_configuration (hlib : lib.Lawful) (h : Contact A B node claimed monitored d a) :
    ((∃ session, (A.handoff.doSetup node A.config.name d).1 = .handshake session) ↔
        (A.handoff.alive = true ∧ A.isOpen = true ∧ A.Reaches node B) ∧
          (B.handoff.alive = true ∧ B.isOpen = true ∧ B.Knows A.config.name A) ∧
          B.config.name = node ∧
          (A.config.name.text.length ≤ 255 ∧ node.text.length ≤ 255) ∧
          claimed = true ∧ monitored = true) ∧
      ∀ session, (A.handoff.doSetup node A.config.name d).1 = .handshake session →
        session.remoteId = B.endpointId ∧
          ∃ accepted, B.handoff.acceptAttempt a = some accepted ∧
            accepted.claimedNode = some A.config.name ∧ accepted.remoteId = A.endpointId := by
  refine ⟨⟨?_, ?_⟩, ?_⟩
  · rintro ⟨session, hsetup⟩
    obtain ⟨peer, addr, halive, hpeer, hdial, haddr, -, htakes⟩ := h.of_handshake hsetup
    obtain ⟨hdialled, hexact⟩ := dial_ok_iff hlib hpeer
    obtain ⟨hopen, hwithin, hfound⟩ := hdialled.mp ⟨addr, hdial⟩
    obtain ⟨hopen', hclaimed, hmonitored, -⟩ := (takes_iff hlib).mp htakes
    obtain ⟨hnames, halive', hname, hknows⟩ :=
      (h.verdict hlib halive hpeer hdial haddr htakes).1.mp ⟨session, hsetup⟩
    have hid : peer.id = B.endpointId := by
      rw [← hexact addr hdial, endpointId_eq_iff hlib]
      exact haddr
    exact ⟨⟨halive, hopen, peer, hpeer, hid, hwithin, hfound⟩, ⟨halive', hopen', hknows⟩, hname,
      hnames, hclaimed, hmonitored⟩
  · rintro ⟨⟨halive, hopen, peer, hpeer, hid, hwithin, hfound⟩, ⟨halive', hopen', hknows⟩, hname,
      hnames, hclaimed, hmonitored⟩
    obtain ⟨hdialled, hexact⟩ := dial_ok_iff hlib hpeer
    obtain ⟨addr, hdial⟩ := hdialled.mpr ⟨hopen, hwithin, hfound⟩
    have haddr : addr.id = B.identity :=
      (endpointId_eq_iff hlib).mp ((hexact addr hdial).trans hid)
    have htakes := (takes_iff hlib).mpr ⟨hopen', hclaimed, hmonitored, A.config.name, hknows⟩
    exact (h.verdict hlib halive hpeer hdial haddr htakes).1.mpr ⟨hnames, halive', hname, hknows⟩
  · intro session hsetup
    obtain ⟨peer, addr, halive, hpeer, hdial, haddr, hremote, htakes⟩ := h.of_handshake hsetup
    exact ⟨hremote, (h.verdict hlib halive hpeer hdial haddr htakes).2 session hsetup⟩

end Meeting

end Nodes

/-! ### Two nodes with one relay between them -/

/-- The identity of `a@h`. -/
def downstreamId : WireId where
  bytes := List.replicate 32 7
  length_eq := rfl

/-- `b@h`, which knows `a@h` by its identity alone. -/
def answeringOptions : Term :=
  .list
    [.tuple [.atom (atom "name"), .atom (atom "b@h")],
     .tuple [.atom (atom "identity"), .atom (atom "ephemeral")],
     .tuple [.atom (atom "network"), .atom (atom "direct")],
     .tuple [.atom (atom "peers"),
       .map [(.atom (atom "a@h"), .endpointId (fromCanonical (wireLib.canonical downstreamId)))]]]

def answeringConfig : Config :=
  { sampleConfig with
    name := atom "b@h"
    peers := (∅ : PeerMap).insert (atom "a@h")
      ⟨.id (fromCanonical (wireLib.canonical downstreamId)),
        fromCanonical (wireLib.canonical downstreamId)⟩
    ids := (∅ : IdMap).insert (fromCanonical (wireLib.canonical downstreamId)).text (atom "a@h") }

theorem answering_validate : validate wireLib.nif answeringOptions .dynamic = .ok answeringConfig :=
  rfl

theorem answering_made : PeersMade wireLib answeringOptions where
  made pairs hpairs pair hpair := by
    obtain rfl : [(Term.atom (atom "a@h"),
        Term.endpointId (fromCanonical (wireLib.canonical downstreamId)))] = pairs :=
      Term.map.inj hpairs
    obtain rfl := List.mem_singleton.mp hpair
    exact EndpointId.fromBytes_made
      (show EndpointId.fromBytes wireLib downstreamId.bytes = .ok _ from rfl)
  keys pairs hpairs := by
    obtain rfl : [(Term.atom (atom "a@h"),
        Term.endpointId (fromCanonical (wireLib.canonical downstreamId)))] = pairs :=
      Term.map.inj hpairs
    exact List.nodup_singleton _

/-- The server of a configuration, just started. -/
def serving (c : Config) : Handoff := .start (.start c 0 samplePeerId ⟨samplePeerId, [], []⟩ 0 1)

/-- `a@h`, which has an address for `b@h`. -/
def callingNode : StartedNode wireLib sampleKeys where
  options := relayPeerOptions
  mode := .dynamic
  handoff := serving relayPeerConfig
  endpoint := relayPeerConfig.endpointConfig ⟨0⟩
  isOpen := true
  identity := downstreamId
  accepted := relayPeer_validate
  made := relayPeer_made
  started := rfl

def answeringNode : StartedNode wireLib sampleKeys where
  options := answeringOptions
  mode := .dynamic
  handoff := serving answeringConfig
  endpoint := answeringConfig.endpointConfig ⟨0⟩
  isOpen := true
  identity := upstreamId
  accepted := answering_validate
  made := answering_made
  started := rfl

/-- `a@h` dials `b@h`, which acknowledges. -/
def callDialled : Dialled :=
  { sampleDialled with connect := .ok (3, answeringNode.endpointId) }

/-- What `b@h` accepts. -/
def callAttempt : Attempt :=
  { connection := 0
    remoteId := callingNode.endpointId
    stream := some 0
    wire :=
      { unread := prefaceFrame (ascii "a@h") (ascii "b@h"), replies := fun _ => .bytes 1
        written := [], outcomes := fun _ => .complete } }

theorem callAttempt_lossless : callAttempt.wire.Lossless :=
  ⟨fun _ => ⟨1, Nat.one_pos, rfl⟩, fun _ => rfl⟩

theorem calling_knows : callingNode.config.peers.lookup (atom "b@h") = some relayPeer :=
  relayPeer_lookup

theorem answering_knows : answeringNode.Knows (atom "a@h") callingNode := ⟨_, rfl, rfl⟩

theorem call_joined :
    Joined.Exact callDialled.wire
      (outgoing (callingNode.config.session 3 4 answeringNode.endpointId) callingNode.config.name
        (atom "b@h") callDialled.wire).2 callAttempt.wire
      (incoming answeringNode.handoff.validatePreface
        (answeringNode.handoff.attemptSession callAttempt 0) callAttempt.wire).2 where
  fresh := ⟨rfl, rfl⟩
  there := by
    rw [outgoing_written (by decide) (by decide) (by decide) rfl]
    rfl
  back := by
    have hvalid : answeringNode.handoff.validatePreface (atom "a@h").text
        callingNode.endpointId (atom "b@h").text = .ok (atom "a@h") :=
      (validatePreface_ok_iff (validate_ids answeringNode.accepted)).mpr
        ⟨rfl, rfl, rfl, answering_knows⟩
    have hack : (incoming _ _ callAttempt.wire).2.written = [] ++ [1] :=
      (@incoming_acknowledges (answeringNode.handoff.attemptSession callAttempt 0)
        (atom "a@h") (atom "b@h") answeringNode.handoff.validatePreface _ (by decide)
        callAttempt_lossless (by decide) (by decide) rfl (atom "a@h") hvalid).2
    rw [hack]
    rfl

theorem call_contact :
    Contact callingNode answeringNode (atom "b@h") true true callDialled callAttempt where
  refused peer failure hpeer hdial := by
    obtain rfl := Option.some.inj (calling_knows.symm.trans hpeer)
    obtain ⟨addr, haddr⟩ := (dial_ok_iff wireLib_lawful calling_knows).1.mpr
      ⟨rfl, relayPeer_within, .inr (.inl (List.cons_ne_nil _ _))⟩
    rw [hdial] at haddr
    cases haddr
  unanswered peer addr hpeer hdial hother := by
    obtain rfl := Option.some.inj (calling_knows.symm.trans hpeer)
    exact absurd ((endpointId_eq_iff (B := answeringNode) wireLib_lawful).mp
      ((dial_ok_iff wireLib_lawful calling_knows).2 addr hdial)) hother
  authenticated :=
    ⟨fun _ _ hconnect => (Prod.mk.inj (Except.ok.inj hconnect)).2.symm, rfl⟩
  closed hclosed :=
    absurd ((takes_iff wireLib_lawful).mpr ⟨rfl, rfl, rfl, atom "a@h", answering_knows⟩) hclosed
  taken _ _ _ _ _ _ :=
    ⟨3, 4, 0, rfl, rfl, rfl, sampleDialled_lossless, callAttempt_lossless, call_joined⟩

theorem mutual_configuration_sample :
    ∃ session accepted,
      (callingNode.handoff.doSetup (atom "b@h") (atom "a@h") callDialled).1 = .handshake session ∧
        session.remoteId = answeringNode.endpointId ∧
        answeringNode.handoff.acceptAttempt callAttempt = some accepted ∧
        accepted.claimedNode = some (atom "a@h") := by
  obtain ⟨hlinks, hsessions⟩ := mutual_configuration wireLib_lawful call_contact
  obtain ⟨session, hsetup⟩ := hlinks.mpr
    ⟨⟨rfl, rfl, relayPeer, calling_knows, rfl, relayPeer_within,
        .inr (.inl (List.cons_ne_nil _ _))⟩,
      ⟨rfl, rfl, answering_knows⟩, rfl, ⟨by decide, by decide⟩, rfl, rfl⟩
  obtain ⟨hremote, accepted, haccept, hclaimed, -⟩ := hsessions session hsetup
  exact ⟨session, accepted, hsetup, hremote, haccept, hclaimed⟩

end IrohBeam
