/-
IrohBeam/NativePeers.lean

The peers of a configuration in the native layer.  A peer is named three times:
as a dial target, as an identity of the allowlist that the endpoint is started
with, and by what the transport authenticates.  In between an identity is printed
and parsed again (`connection_accept_start`, `parse_target` and
`connection_connect_start` of `native/iroh_beam_nif/src/connection.rs`).

* `allowlist_exact` — of an accepted configuration the allowlist parses, and an
  incoming connection gets past it exactly if the node it is authorised for is a
  peer; every other connection is closed.
* `dial_verdict` — the dial of a peer comes to the network exactly if its address
  is within the limits of `build_addr` and the endpoint has a way to find it: an
  address of the target, or a profile with address lookup.  It is then a dial to
  the identity of the peer.

Identities, addresses and tickets in a configuration are opaque values, which
come from the constructors of `lib/iroh_beam/identity.ex` (`TermMade`).
-/
import IrohBeam.EndpointOptions
import IrohBeam.Peers
import IrohBeam.Tickets

namespace IrohBeam

open Bytes

/-! ### Dialling -/

/-- `ProfileKind::address_lookup_enabled`. -/
def Profile.addressLookupEnabled : Profile → Bool
  | .n0 | .noRelay => true
  | .direct | .custom => false

section Native

variable {Id Url Socket Other : Type} [LinearOrder Url] [LinearOrder Socket] [LinearOrder Other]

/-- `EndpointAddr::is_empty`. -/
def NativeAddr.isEmpty (a : NativeAddr Id Url Socket Other) : Bool := a.addrs.elems.isEmpty

variable (lib : IdentityLib Id Url Socket Other)

/-- `connection_connect_start` up to the dial, with the address it dials. -/
def connectionConnectStart (profile : Profile) (isOpen : Bool)
    (target : Binary × List Binary × List Binary) (alpn : Binary) :
    Except Error (NativeAddr Id Url Socket Other) :=
  if alpn = [] ∨ 255 < alpn.length ∨ 0 ∈ alpn then
    .error ⟨.invalidArgument, .connectionConnect, "ALPN is invalid"⟩
  else
    match parseTarget lib target with
    | .error e => .error e
    | .ok addr =>
        if addr.isEmpty = true ∧ profile.addressLookupEnabled = false then
          .error ⟨.resolution, .connectionConnect,
            "endpoint ID has no configured address information"⟩
        else if isOpen = true then .ok addr
        else .error ⟨.closed, .connectionConnect, "endpoint is closed"⟩

/-- `validate_alpn/1` of `lib/iroh_beam/connection.ex`. -/
def validateAlpn (alpn : Binary) : Except Failure Unit :=
  if 1 ≤ alpn.length ∧ alpn.length ≤ 255 then
    if 0 ∈ alpn then invalid .connectionConnect "ALPN may not contain NUL bytes" else .ok ()
  else invalid .connectionConnect "ALPN is invalid"

/-- `Endpoint.connect/4` and `Connection.connect/6` with a timeout that is
positive, up to the dial, of an endpoint process that answers `connection_config`;
of one that does not, the call fails with `endpoint is not running`. -/
def Endpoint.connect (e : EndpointConfig) (isOpen : Bool) (target : Target) (alpn : Binary) :
    Except Failure (NativeAddr Id Url Socket Other) := do
  validateAlpn alpn
  liftNif (connectionConnectStart lib e.profile isOpen
    (nativeTarget (resolveTarget (fun text => e.addressBook.lookup text) target)) alpn)

/-! ### Accepting -/

/-- The identities of the allowlist, as `connection_accept_start` prints them. -/
def parseAllowed (allowedIds : List Binary) : Except Error (List Binary) :=
  match allowedIds.mapM fun value => (lib.idFromStr value).map fun id => (lib.canonical id).text with
  | some ids => .ok ids
  | none => .error ⟨.invalidArgument, .connectionAccept, "peer allowlist is invalid"⟩

/-- What the endpoint accepts: with a connection come the identity that the
transport has authenticated, whether a place for it could be claimed, and whether
its owner could be monitored. -/
inductive Incoming (Id : Type) where
  | closed
  | refused
  | failed
  | connected (remote : Id) (claimed monitored : Bool)

/-- The future of `connection_accept_start`, and whether it closes the
connection. -/
def acceptIncoming (allowAll : Bool) (allowed : List Binary) :
    Incoming Id → Except Error Id × Bool
  | .closed =>
      (.error ⟨.closed, .connectionAccept, "endpoint closed while accepting"⟩, false)
  | .refused =>
      (.error ⟨.refused, .connectionAccept, "incoming connection was refused"⟩, false)
  | .failed => (.error ⟨.refused, .connectionAccept, "incoming handshake failed"⟩, false)
  | .connected remote claimed monitored =>
      if allowAll = false ∧ allowed.contains (lib.canonical remote).text = false then
        (.error ⟨.unauthorized, .connectionAccept, "authenticated peer is not allowed"⟩, true)
      else if claimed = false then
        (.error ⟨.capacity, .connectionAccept, "endpoint connection limit is reached"⟩, true)
      else if monitored = false then
        (.error ⟨.cancelled, .connectionAccept, "connection owner is no longer available"⟩, true)
      else (.ok remote, false)

end Native

/-! ### Values from the constructors -/

section Made

variable {Id Url Socket Other : Type} [LinearOrder Url] [LinearOrder Socket] [LinearOrder Other]

/-- The address of a dial target; an identity has none. -/
def Target.address : Target → EndpointAddr
  | .id endpointId => ⟨endpointId, [], []⟩
  | .addr endpointAddr => endpointAddr
  | .ticket endpointTicket => endpointTicket.addr

/-- An address that is the print of a native one. -/
def EndpointAddr.Printed (lib : IdentityLib Id Url Socket Other) (addr : EndpointAddr) : Prop :=
  ∃ a, addr = addrOf lib a

/-- The opaque values of a target are from the constructors. -/
def TermMade (lib : IdentityLib Id Url Socket Other) : Term → Prop
  | .endpointId id => id.Made lib
  | .endpointAddr addr => addr.Printed lib
  | .endpointTicket ticket => ticket.Issued lib
  | .tuple [_, .endpointAddr addr] => addr.Printed lib
  | _ => True

variable {lib : IdentityLib Id Url Socket Other}

theorem EndpointId.Made.printed {id : EndpointId} (h : id.Made lib) :
    (Target.id id).address.Printed lib := by
  obtain ⟨k, rfl⟩ := h
  exact ⟨⟨k, ⟨[], List.Pairwise.nil⟩⟩, rfl⟩

theorem EndpointTicket.Issued.printed (hlib : lib.Lawful) {t : EndpointTicket} (h : t.Issued lib) :
    t.addr.Printed lib := by
  obtain ⟨a, rfl⟩ := h.ticketOf hlib
  exact ⟨a, rfl⟩

/-- **What a target normalises to** is from the constructors too, and its identity
is the one the peer is known by. -/
theorem normalizeTarget_made (hlib : lib.Lawful) {t : Term} (h : TermMade lib t) {target : Target}
    {id : EndpointId} (hnorm : normalizeTarget lib.nif t = .ok (target, id)) :
    target.address.Printed lib ∧ id = target.address.id := by
  unfold normalizeTarget at hnorm
  split at hnorm
  · obtain ⟨rfl, rfl⟩ := Prod.mk.injEq .. ▸ Except.ok.inj hnorm
    exact ⟨EndpointId.Made.printed h, rfl⟩
  · obtain ⟨rfl, rfl⟩ := Prod.mk.injEq .. ▸ Except.ok.inj hnorm
    exact ⟨h, rfl⟩
  · obtain ⟨rfl, rfl⟩ := Prod.mk.injEq .. ▸ Except.ok.inj hnorm
    exact ⟨EndpointTicket.Issued.printed hlib h, rfl⟩
  · split at hnorm
    · -- an identity in text form
      split at hnorm
      · obtain ⟨parsed, hparsed, hnorm⟩ := bind_eq_ok hnorm
        obtain ⟨rfl, rfl⟩ := Prod.mk.injEq .. ▸ Except.ok.inj hnorm
        exact ⟨(EndpointId.parse_made hparsed).printed, rfl⟩
      · cases hnorm
    · split at hnorm
      · split at hnorm
        · obtain ⟨ticket, hticket, hnorm⟩ := bind_eq_ok hnorm
          obtain ⟨rfl, rfl⟩ := Prod.mk.injEq .. ▸ Except.ok.inj hnorm
          exact ⟨EndpointTicket.Issued.printed hlib (.inr (.inl ⟨_, hticket⟩)), rfl⟩
        · cases hnorm
      · split at hnorm
        · split at hnorm
          · obtain ⟨rfl, rfl⟩ := Prod.mk.injEq .. ▸ Except.ok.inj hnorm
            exact ⟨h, rfl⟩
          · split at hnorm
            · -- an address that is put together from a map
              obtain ⟨parsed, hparsed, hnorm⟩ := bind_eq_ok hnorm
              obtain ⟨addr, haddr, hnorm⟩ := bind_eq_ok hnorm
              obtain ⟨rfl, rfl⟩ := Prod.mk.injEq .. ▸ Except.ok.inj hnorm
              obtain ⟨a, -, -, -, -, haddr⟩ := EndpointAddr.FromNew.addrOf hlib
                ⟨parsed, _, _, EndpointId.parse_made hparsed, haddr⟩
              exact ⟨⟨a, haddr⟩, rfl⟩
            · cases hnorm
        · cases hnorm
  · cases hnorm

/-- A peer is the normalised target of one of the entries. -/
theorem normalizePeersLoop_lookup {nif : IdentityNif} {localName : Atom} {pairs : List (Term × Term)}
    {byNode : PeerMap} {byId : IdMap} {result : PeerMap × IdMap}
    (h : normalizePeersLoop nif localName pairs byNode byId = .ok result) {node : Atom} {peer : Peer}
    (hpeer : result.1.lookup node = some peer) :
    byNode.lookup node = some peer ∨
      ∃ pair ∈ pairs, normalizeTarget nif pair.2 = .ok (peer.target, peer.id) := by
  induction pairs generalizing byNode byId with
  | nil =>
      obtain rfl := Except.ok.inj h
      exact .inl hpeer
  | cons pair rest ih =>
      obtain ⟨entry, hentry, -, hrest⟩ := normalizePeersLoop_cons_iff.mp h
      rcases ih hrest with hlookup | ⟨pair', hmem, hnorm⟩
      · by_cases hnode : node = entry.1
        · subst hnode
          rw [AList.lookup_insert] at hlookup
          obtain rfl := Option.some.inj hlookup
          exact .inr ⟨pair, List.mem_cons_self, hentry.target⟩
        · rw [AList.lookup_insert_ne hnode] at hlookup
          exact .inl hlookup
      · exact .inr ⟨pair', List.mem_cons_of_mem pair hmem, hnorm⟩

/-- The targets that a configuration was given are from the constructors, and a
map has each of its keys once. -/
structure PeersMade (lib : IdentityLib Id Url Socket Other) (options : Term) : Prop where
  made : ∀ pairs, option (withDefaults options) "peers" = .map pairs →
    ∀ pair ∈ pairs, TermMade lib pair.2
  keys : ∀ pairs, option (withDefaults options) "peers" = .map pairs → (pairs.map Prod.fst).Nodup

theorem peer_printed (hlib : lib.Lawful) {options : Term} {mode : Mode} {c : Config}
    (h : validate lib.nif options mode = .ok c) (hmade : PeersMade lib options) {node : Atom}
    {peer : Peer} (hpeer : c.peers.lookup node = some peer) :
    peer.target.address.Printed lib ∧ peer.id = peer.target.address.id := by
  obtain ⟨-, -, hpeers⟩ := validate_parts h
  unfold normalizePeers at hpeers
  split at hpeers
  · next pairs hpairs =>
      rcases normalizePeersLoop_lookup hpeers hpeer with hnone | ⟨pair, hmem, hnorm⟩
      · cases hnone
      · exact normalizeTarget_made hlib (hmade.made pairs hpairs pair hmem) hnorm
  · split at hpeers <;> cases hpeers

/-! ### The dial of a peer -/

theorem NativeAddr.isEmpty_fromParts {id : Id} {urls : List Url} {sockets : List Socket} :
    (fromParts id urls sockets : NativeAddr Id Url Socket Other).isEmpty = true ↔
      urls = [] ∧ sockets = [] := by
  rw [isEmpty, List.isEmpty_iff]
  constructor
  · intro hnil
    have hnone : ∀ x, x ∉ (urls.map .relay ++ sockets.map .ip :
        List (TransportAddr Url Socket Other)) := by
      intro x hx
      have hmem := SortedSet.mem_ofList.mpr hx
      rw [show (SortedSet.ofList _).elems = [] from hnil] at hmem
      cases hmem
    have happend := List.eq_nil_iff_forall_not_mem.mpr hnone
    obtain ⟨hurls, hsockets⟩ := List.append_eq_nil_iff.mp happend
    exact ⟨List.map_eq_nil_iff.mp hurls, List.map_eq_nil_iff.mp hsockets⟩
  · rintro ⟨rfl, rfl⟩
    exact List.eq_nil_iff_forall_not_mem.mpr fun x hx => by
      have hmem := SortedSet.mem_ofList.mp hx
      cases hmem

/-- A printed address as a dial target. -/
theorem parseTarget_addrOf (hlib : lib.Lawful) (a : NativeAddr Id Url Socket Other) :
    (∀ b, parseTarget lib ((addrOf lib a).id.text, (addrOf lib a).relayUrls, (addrOf lib a).ipAddrs) =
        .ok b ↔ a.Rebuilds lib ∧ b = .fromParts a.id a.relayUrls a.ipAddrs) ∧
      ∀ err, parseTarget lib
          ((addrOf lib a).id.text, (addrOf lib a).relayUrls, (addrOf lib a).ipAddrs) = .error err →
        err = ⟨.invalidArgument, .connectionConnect, "dial target address is invalid"⟩ := by
  have hid : lib.idFromStr (addrOf lib a).id.text = some a.id := hlib.id_text a.id
  have hbuild := buildAddr_normalize hlib a
  unfold parseTarget
  rw [show (addrOf lib a).relayUrls = (normalizeAddr lib a).1 from rfl,
    show (addrOf lib a).ipAddrs = (normalizeAddr lib a).2 from rfl]
  simp only [hid]
  cases hresult : buildAddr lib (lib.canonical a.id).bytes (normalizeAddr lib a).1
      (normalizeAddr lib a).2 with
  | ok b =>
      refine ⟨fun b' => ?_, nofun⟩
      rw [← hbuild b', hresult]
  | error err =>
      refine ⟨fun b' => ?_, fun err' herr => (Except.error.inj herr).symm⟩
      rw [← hbuild b', hresult]
      exact ⟨nofun, nofun⟩

/-- The refusals of a dial that are left. -/
def dialRefusals : List Error :=
  [⟨.invalidArgument, .connectionConnect, "dial target address is invalid"⟩,
   ⟨.resolution, .connectionConnect, "endpoint ID has no configured address information"⟩,
   ⟨.closed, .connectionConnect, "endpoint is closed"⟩]

/-- What a dial of a target is about. -/
structure Dials (lib : IdentityLib Id Url Socket Other) (profile : Profile) (isOpen : Bool)
    (addr : EndpointAddr) (answer : Except Failure (NativeAddr Id Url Socket Other)) : Prop where
  dialled : (∃ a, answer = .ok a) ↔ isOpen = true ∧ addr.Within lib ∧
    (profile.addressLookupEnabled = true ∨ addr.relayUrls ≠ [] ∨ addr.ipAddrs ≠ [])
  /-- The dial is to this identity, and with these addresses. -/
  exact : ∀ a, answer = .ok a →
    fromCanonical (lib.canonical a.id) = addr.id ∧
      normalizeAddr lib a = (addr.relayUrls, addr.ipAddrs)
  refused : ∀ failure, answer = .error failure → ∃ err ∈ dialRefusals, failure = .error err

/-- A dial that is refused. -/
theorem Dials.refusal {profile : Profile} {isOpen : Bool} {addr : EndpointAddr} {err : Error}
    (hmem : err ∈ dialRefusals)
    (hnot : ¬ (isOpen = true ∧ addr.Within lib ∧
      (profile.addressLookupEnabled = true ∨ addr.relayUrls ≠ [] ∨ addr.ipAddrs ≠ []))) :
    Dials lib profile isOpen addr (.error (.error err)) where
  dialled := ⟨nofun, fun h => absurd h hnot⟩
  exact := nofun
  refused := fun _ hfailure => ⟨err, hmem, (Except.error.inj hfailure).symm⟩

theorem connectionConnectStart_dials (hlib : lib.Lawful) (profile : Profile) (isOpen : Bool)
    (a : NativeAddr Id Url Socket Other) :
    Dials lib profile isOpen (addrOf lib a) (liftNif (connectionConnectStart lib profile isOpen
      ((addrOf lib a).id.text, (addrOf lib a).relayUrls, (addrOf lib a).ipAddrs) alpn)) := by
  have halpn : ¬ (alpn = [] ∨ 255 < alpn.length ∨ 0 ∈ alpn) := by decide
  obtain ⟨hparse, hfailed⟩ := parseTarget_addrOf hlib a
  have hwithin := addrOf_within_iff hlib a
  -- the lists of the address are printed from those of `a`
  have hempty : (NativeAddr.fromParts a.id a.relayUrls a.ipAddrs :
      NativeAddr Id Url Socket Other).isEmpty = true ↔
        (addrOf lib a).relayUrls = [] ∧ (addrOf lib a).ipAddrs = [] := by
    rw [NativeAddr.isEmpty_fromParts]
    exact (and_congr List.map_eq_nil_iff List.map_eq_nil_iff).symm
  unfold connectionConnectStart
  rw [if_neg halpn]
  cases hresult : parseTarget lib
      ((addrOf lib a).id.text, (addrOf lib a).relayUrls, (addrOf lib a).ipAddrs) with
  | error err =>
      refine Dials.refusal (by rw [hfailed err hresult]; exact List.mem_cons_self) ?_
      rintro ⟨-, hin, -⟩
      have hok := (hparse _).mpr ⟨hwithin.mp hin, rfl⟩
      rw [hresult] at hok
      cases hok
  | ok b =>
      obtain ⟨hrebuilds, rfl⟩ := (hparse b).mp hresult
      by_cases hlost : (NativeAddr.fromParts a.id a.relayUrls a.ipAddrs :
          NativeAddr Id Url Socket Other).isEmpty = true ∧ profile.addressLookupEnabled = false
      · simp only [if_pos hlost]
        refine Dials.refusal (by simp [dialRefusals]) ?_
        rintro ⟨-, -, hlookup | hurls | hips⟩
        · rw [hlost.2] at hlookup
          cases hlookup
        · exact hurls (hempty.mp hlost.1).1
        · exact hips (hempty.mp hlost.1).2
      · have hfound : profile.addressLookupEnabled = true ∨ (addrOf lib a).relayUrls ≠ [] ∨
            (addrOf lib a).ipAddrs ≠ [] := by
          by_contra hnone
          rw [not_or, not_or, not_not, not_not, Bool.not_eq_true] at hnone
          exact hlost ⟨hempty.mpr hnone.2, hnone.1⟩
        simp only [if_neg hlost]
        cases isOpen with
        | false =>
            refine Dials.refusal (by simp [dialRefusals]) ?_
            rintro ⟨hopen, -⟩
            cases hopen
        | true =>
            refine ⟨⟨fun _ => ⟨rfl, hwithin.mpr hrebuilds, hfound⟩, fun _ => ⟨_, rfl⟩⟩, ?_, nofun⟩
            rintro b hb
            obtain rfl := Except.ok.inj hb
            exact ⟨rfl, normalizeAddr_fromParts lib a⟩

/-- The endpoint of a configuration has been started with its options. -/
theorem endpointConfig_of_accepted {nif : IdentityNif} {keys : SecretKeyNif} {options : Term}
    {mode : Mode} {c : Config} {e : EndpointConfig} (h : validate nif options mode = .ok c)
    (he : Endpoint.validateOptions keys c.endpointOptions = .ok e) :
    ∃ key, e = c.endpointConfig key := by
  have hknown : Endpoint.validateKnown keys (c.endpointPairs ++ Endpoint.optionDefaults) = .ok e := by
    rw [← he, Endpoint.validateOptions, Config.endpointOptions, keyword_ofKeyword,
      Option.bind_some, Config.keywordValidate_endpointPairs]
  obtain ⟨key, hkey, -⟩ := bind_eq_ok hknown
  rw [endpoint_validateOptions h hkey] at he
  split at he
  · exact ⟨key, (Except.ok.inj he).symm⟩
  · cases he

/-- The dial of a target of the configuration: its address goes to the native layer
as it is. -/
theorem endpointConnect_dials (hlib : lib.Lawful) (c : Config) (key : SecretKey) {target : Target}
    (htarget : target.address.Printed lib) (isOpen : Bool) :
    Dials lib c.network.profile isOpen target.address
      (Endpoint.connect lib (c.endpointConfig key) isOpen target alpn) := by
  obtain ⟨a, haddr⟩ := htarget
  have hnative : nativeTarget (resolveTarget (fun text =>
      (c.endpointConfig key).addressBook.lookup text) target) =
        (target.address.id.text, target.address.relayUrls, target.address.ipAddrs) := by
    cases target <;> rfl
  have hconnect : Endpoint.connect lib (c.endpointConfig key) isOpen target alpn =
      liftNif (connectionConnectStart lib c.network.profile isOpen (target.address.id.text,
        target.address.relayUrls, target.address.ipAddrs) alpn) := by
    rw [← hnative]
    rfl
  rw [hconnect, haddr]
  exact connectionConnectStart_dials hlib c.network.profile isOpen a

/-- **The dial of a peer.** -/
theorem dial_verdict (hlib : lib.Lawful) {keys : SecretKeyNif} {options : Term} {mode : Mode}
    {c : Config} {e : EndpointConfig} (h : validate lib.nif options mode = .ok c)
    (hmade : PeersMade lib options) (he : Endpoint.validateOptions keys c.endpointOptions = .ok e)
    {node : Atom} {peer : Peer} (hpeer : c.peers.lookup node = some peer) (isOpen : Bool) :
    peer.id = peer.target.address.id ∧
      Dials lib c.network.profile isOpen peer.target.address
        (Endpoint.connect lib e isOpen peer.target alpn) := by
  obtain ⟨haddr, hid⟩ := peer_printed hlib h hmade hpeer
  obtain ⟨key, rfl⟩ := endpointConfig_of_accepted h he
  exact ⟨hid, endpointConnect_dials hlib c key haddr isOpen⟩

/-! ### The allowlist -/

/-- Identities that print alike are the same. -/
theorem canonical_text_inj (hlib : lib.Lawful) {k k' : Id}
    (h : (lib.canonical k).text = (lib.canonical k').text) : k = k' := by
  have hk := hlib.id_text k
  rw [h, hlib.id_text k'] at hk
  exact (Option.some.inj hk).symm

/-- Printed identities are parsed and print as they were. -/
theorem parseAllowed_printed (hlib : lib.Lawful) {texts : List Binary}
    (h : ∀ text ∈ texts, ∃ k, text = (lib.canonical k).text) : parseAllowed lib texts = .ok texts := by
  have hloop : texts.mapM (fun value => (lib.idFromStr value).map fun id =>
      (lib.canonical id).text) = some texts := by
    induction texts with
    | nil => rfl
    | cons text rest ih =>
        obtain ⟨k, rfl⟩ := h text List.mem_cons_self
        rw [List.mapM_cons, hlib.id_text k, ih fun t ht => h t (List.mem_cons_of_mem _ ht)]
        rfl
  rw [parseAllowed, hloop]

/-- The identity of a peer is one that the library prints. -/
theorem peer_id_made (hlib : lib.Lawful) {options : Term} {mode : Mode} {c : Config}
    (h : validate lib.nif options mode = .ok c) (hmade : PeersMade lib options) {node : Atom}
    {peer : Peer} (hpeer : c.peers.lookup node = some peer) : peer.id.Made lib := by
  obtain ⟨⟨a, haddr⟩, hid⟩ := peer_printed hlib h hmade hpeer
  rw [hid, haddr]
  exact ⟨a.id, rfl⟩

/-- A connection with an identity is authorised for the node it is configured
for. -/
theorem authorizeId_iff (hlib : lib.Lawful) {options : Term} {mode : Mode} {c : Config}
    (h : validate lib.nif options mode = .ok c) (hmade : PeersMade lib options) (remote : Id)
    (node : Atom) :
    c.authorizeId (fromCanonical (lib.canonical remote)) = some node ↔
      ∃ peer, c.peers.lookup node = some peer ∧ peer.id = fromCanonical (lib.canonical remote) := by
  constructor
  · intro hnode
    obtain ⟨-, -, hpeers⟩ := validate_parts h
    have hexact : ∃ peer, c.resolve node = .ok peer ∧ peer.id.text = (lib.canonical remote).text := by
      cases hterm : option (withDefaults options) "peers" with
      | map pairs =>
          rw [hterm] at hpeers
          exact (exactIndexes_of_normalizePeers (hmade.keys pairs hterm) hpeers).resolve_of_authorizeId
            _ node hnode
      | _ =>
          rw [hterm] at hpeers
          cases hpeers
    obtain ⟨peer, hresolve, htext⟩ := hexact
    have hpeer := Config.resolve_eq_ok_iff.mp hresolve
    obtain ⟨k, hk⟩ := peer_id_made hlib h hmade hpeer
    refine ⟨peer, hpeer, ?_⟩
    rw [hk] at htext ⊢
    rw [canonical_text_inj hlib htext]
  · rintro ⟨peer, hpeer, hid⟩
    rw [← hid]
    exact (validate_ids h node peer hpeer).2

/-- A connection is taken or closed. -/
theorem acceptIncoming_connected (lib : IdentityLib Id Url Socket Other) (allowAll : Bool)
    (allowed : List Binary) (remote : Id) (claimed monitored : Bool) :
    ((acceptIncoming lib allowAll allowed (.connected remote claimed monitored)).1 = .ok remote ↔
        claimed = true ∧ monitored = true ∧
          (allowAll = true ∨ (lib.canonical remote).text ∈ allowed)) ∧
      ((acceptIncoming lib allowAll allowed (.connected remote claimed monitored)).2 = true ↔
        (acceptIncoming lib allowAll allowed (.connected remote claimed monitored)).1 ≠
          .ok remote) := by
  have hcontains : allowed.contains (lib.canonical remote).text = false ↔
      (lib.canonical remote).text ∉ allowed := by
    rw [← Bool.not_eq_true, List.contains_iff_mem]
  simp only [acceptIncoming, hcontains]
  by_cases hout : allowAll = false ∧ (lib.canonical remote).text ∉ allowed
  · rw [if_pos hout]
    refine ⟨⟨nofun, ?_⟩, ⟨fun _ => nofun, fun _ => rfl⟩⟩
    rintro ⟨-, -, hall | hin⟩
    · rw [hout.1] at hall
      cases hall
    · exact absurd hin hout.2
  · have hin : allowAll = true ∨ (lib.canonical remote).text ∈ allowed := by
      by_contra hnot
      rw [not_or, Bool.not_eq_true] at hnot
      exact hout hnot
    rw [if_neg hout]
    cases claimed <;> cases monitored <;> simp [hin]

/-- The allowlist is printed by the library, and has just the identities that are
authorised. -/
theorem allowlist_authorizes (hlib : lib.Lawful) {options : Term} {mode : Mode} {c : Config}
    (h : validate lib.nif options mode = .ok c) (hmade : PeersMade lib options) (key : SecretKey) :
    parseAllowed lib (c.endpointConfig key).peerAllowlist.2 =
        .ok (c.endpointConfig key).peerAllowlist.2 ∧
      ∀ remote, (lib.canonical remote).text ∈ (c.endpointConfig key).peerAllowlist.2 ↔
        ∃ node, c.authorizeId (fromCanonical (lib.canonical remote)) = some node := by
  have hmem : ∀ text, text ∈ (c.endpointConfig key).peerAllowlist.2 ↔
      ∃ node peer, c.peers.lookup node = some peer ∧ peer.id.text = text := by
    intro text
    show text ∈ (c.peerAllowlist.map EndpointId.text).eraseDups ↔ _
    rw [List.mem_eraseDups, List.mem_map]
    constructor
    · rintro ⟨id, hid, rfl⟩
      obtain ⟨node, peer, hpeer, rfl⟩ := Config.mem_peerAllowlist_iff.mp hid
      exact ⟨node, peer, Config.resolve_eq_ok_iff.mp hpeer, rfl⟩
    · rintro ⟨node, peer, hpeer, rfl⟩
      exact ⟨peer.id, Config.mem_peerAllowlist_iff.mpr
        ⟨node, peer, Config.resolve_eq_ok_iff.mpr hpeer, rfl⟩, rfl⟩
  refine ⟨parseAllowed_printed hlib ?_, ?_⟩
  · intro text htext
    obtain ⟨node, peer, hpeer, rfl⟩ := (hmem text).mp htext
    obtain ⟨k, hk⟩ := peer_id_made hlib h hmade hpeer
    exact ⟨k, by rw [hk]; rfl⟩
  · intro remote
    rw [hmem]
    refine exists_congr fun node => ?_
    rw [authorizeId_iff hlib h hmade remote]
    refine exists_congr fun peer => and_congr_right fun hpeer => ?_
    obtain ⟨k, hk⟩ := peer_id_made hlib h hmade hpeer
    rw [hk]
    constructor
    · intro htext
      rw [canonical_text_inj hlib htext]
    · intro hsame
      exact congrArg EndpointId.text hsame

/-- **The allowlist of a configuration**: it parses, and a connection gets past it
exactly if it is authorised for a node, which is the peer of its identity.  What
does not is closed. -/
theorem allowlist_exact (hlib : lib.Lawful) {keys : SecretKeyNif} {options : Term} {mode : Mode}
    {c : Config} {e : EndpointConfig} (h : validate lib.nif options mode = .ok c)
    (hmade : PeersMade lib options) (he : Endpoint.validateOptions keys c.endpointOptions = .ok e) :
    ∃ allowed, parseAllowed lib e.peerAllowlist.2 = .ok allowed ∧
      ∀ remote claimed monitored,
        ((acceptIncoming lib e.peerAllowlist.1 allowed (.connected remote claimed monitored)).1 =
            .ok remote ↔ claimed = true ∧ monitored = true ∧
              ∃ node, c.authorizeId (fromCanonical (lib.canonical remote)) = some node) ∧
          ((acceptIncoming lib e.peerAllowlist.1 allowed (.connected remote claimed monitored)).2 =
            true ↔ (acceptIncoming lib e.peerAllowlist.1 allowed
              (.connected remote claimed monitored)).1 ≠ .ok remote) ∧
          ∀ node, c.authorizeId (fromCanonical (lib.canonical remote)) = some node ↔
            ∃ peer, c.peers.lookup node = some peer ∧
              peer.id = fromCanonical (lib.canonical remote) := by
  obtain ⟨key, rfl⟩ := endpointConfig_of_accepted h he
  obtain ⟨hparses, hallowed⟩ := allowlist_authorizes hlib h hmade key
  refine ⟨_, hparses, fun remote claimed monitored => ?_⟩
  obtain ⟨haccepts, hcloses⟩ := acceptIncoming_connected lib
    (c.endpointConfig key).peerAllowlist.1 (c.endpointConfig key).peerAllowlist.2 remote claimed
    monitored
  refine ⟨?_, hcloses, authorizeId_iff hlib h hmade remote⟩
  rw [haccepts, ← hallowed]
  exact and_congr_right fun _ => and_congr_right fun _ => or_iff_right Bool.false_ne_true

end Made

/-! ### A peer with one relay -/

def relayPeerAddr : EndpointAddr := addrOf wireLib (WireAddr.single upstreamId ⟨ascii "abc", rfl⟩)

def relayPeerOptions : Term :=
  .list
    [.tuple [.atom (atom "name"), .atom (atom "a@h")],
     .tuple [.atom (atom "identity"), .atom (atom "ephemeral")],
     .tuple [.atom (atom "network"), .atom (atom "direct")],
     .tuple [.atom (atom "peers"), .map [(.atom (atom "b@h"), .endpointAddr relayPeerAddr)]]]

def relayPeer : Peer := ⟨.addr relayPeerAddr, relayPeerAddr.id⟩

def relayPeerConfig : Config :=
  { sampleConfig with
    peers := (∅ : PeerMap).insert (atom "b@h") relayPeer
    ids := (∅ : IdMap).insert relayPeerAddr.id.text (atom "b@h") }

theorem relayPeer_validate :
    validate wireLib.nif relayPeerOptions .dynamic = .ok relayPeerConfig := rfl

theorem relayPeer_made : PeersMade wireLib relayPeerOptions where
  made pairs hpairs pair hpair := by
    obtain rfl : [(Term.atom (atom "b@h"), Term.endpointAddr relayPeerAddr)] = pairs :=
      Term.map.inj hpairs
    obtain rfl := List.mem_singleton.mp hpair
    exact ⟨_, rfl⟩
  keys pairs hpairs := by
    obtain rfl : [(Term.atom (atom "b@h"), Term.endpointAddr relayPeerAddr)] = pairs :=
      Term.map.inj hpairs
    exact List.nodup_singleton _

theorem relayPeer_lookup : relayPeerConfig.peers.lookup (atom "b@h") = some relayPeer :=
  AList.lookup_insert ∅

theorem relayPeer_within : relayPeerAddr.Within wireLib := by
  refine (addrOf_within_iff wireLib_lawful _).mpr ⟨by decide, ?_⟩
  intro u hu
  obtain rfl := List.mem_singleton.mp hu
  exact ⟨by decide, rfl⟩

/-- Its identity is on the allowlist. -/
theorem allowlist_exact_sample :
    ∃ e allowed, Endpoint.validateOptions sampleKeys relayPeerConfig.endpointOptions = .ok e ∧
      parseAllowed wireLib e.peerAllowlist.2 = .ok allowed ∧
      (acceptIncoming wireLib e.peerAllowlist.1 allowed (.connected upstreamId true true)).1 =
        .ok upstreamId := by
  obtain ⟨e, he⟩ : ∃ e,
      Endpoint.validateOptions sampleKeys relayPeerConfig.endpointOptions = .ok e := ⟨_, rfl⟩
  obtain ⟨allowed, hallowed, hverdict⟩ :=
    allowlist_exact wireLib_lawful relayPeer_validate relayPeer_made he
  obtain ⟨haccepts, -, hpeer⟩ := hverdict upstreamId true true
  exact ⟨e, allowed, he, hallowed, haccepts.mpr
    ⟨rfl, rfl, atom "b@h", (hpeer _).mpr ⟨relayPeer, relayPeer_lookup, rfl⟩⟩⟩

/-- It can be dialled, though the profile looks up no addresses. -/
theorem dial_verdict_sample :
    ∃ e a, Endpoint.validateOptions sampleKeys relayPeerConfig.endpointOptions = .ok e ∧
      Endpoint.connect wireLib e true relayPeer.target alpn = .ok a := by
  obtain ⟨e, he⟩ : ∃ e,
      Endpoint.validateOptions sampleKeys relayPeerConfig.endpointOptions = .ok e := ⟨_, rfl⟩
  have hdials := (dial_verdict wireLib_lawful relayPeer_validate relayPeer_made he relayPeer_lookup
    true).2
  obtain ⟨a, ha⟩ := hdials.dialled.mpr ⟨rfl, relayPeer_within, .inr (.inl (List.cons_ne_nil _ _))⟩
  exact ⟨e, a, he, ha⟩

end IrohBeam
