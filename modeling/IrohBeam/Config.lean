/-
IrohBeam/Config.lean

`IrohBeam.Distribution.Config` (`lib/iroh_beam/distribution/config.ex`):
validation of distribution options and the lookups on a validated
configuration.

`validate` is the source's chain of checks in its order.  A check that only
answers `:ok` there returns the value it has accepted here, so that the
configuration is built from typed fields.

What the rest of the development uses of an accepted configuration is in
two places:

* `validate_limits` — the bounds on frames and timeouts;
* `validate_ids` — the two peer indexes agree, so that distinct nodes
  have distinct endpoint identities (`IndexesAgree.node_unique`).
-/
import IrohBeam.Term
import Mathlib.Data.List.AList

namespace IrohBeam

open Bytes

/-! ### The configuration -/

inductive Mode where
  | dynamic | early
  deriving DecidableEq, Repr

inductive NameDomain where
  | shortnames | longnames
  deriving DecidableEq, Repr

/-- The identity option: `:ephemeral`, a secret key or `{:file, path}`. -/
inductive Identity where
  | ephemeral
  | secretKey (key : SecretKey)
  | file (path : Binary)
  deriving DecidableEq, Repr

/-- The network profile. -/
inductive Network where
  | n0 | direct | minimal | noRelay
  | custom (relays : List Relay)
  deriving DecidableEq, Repr

/-- A normalised dial target. -/
inductive Target where
  | id (id : EndpointId)
  | addr (addr : EndpointAddr)
  | ticket (ticket : EndpointTicket)
  deriving DecidableEq, Repr

/-- `%{target: target, id: id}`. -/
structure Peer where
  target : Target
  id : EndpointId
  deriving DecidableEq, Repr

/-- Peers by node name. -/
abbrev PeerMap := AList fun _ : Atom => Peer

/-- Node names by the text of the peer's endpoint identity. -/
abbrev IdMap := AList fun _ : Binary => Atom

/-- `%IrohBeam.Distribution.Config{}`. -/
structure Config where
  mode : Mode
  name : Atom
  nameDomain : NameDomain
  identity : Identity
  network : Network
  bind : List Binary
  directIp : Bool
  peers : PeerMap
  ids : IdMap
  startupTimeout : ℕ
  shutdownTimeout : ℕ
  connectTimeout : ℕ
  acceptTimeout : ℕ
  streamTimeout : ℕ
  receiveChunk : ℕ
  maxFrame : ℕ
  maxConnections : ℕ
  netTicktime : ℕ
  netTickintensity : ℕ

/-! ### The checks -/

/-- The defaults given to `Keyword.validate/2`. -/
def configDefaults : List (Atom × Term) :=
  [(atom "name", .nil),
   (atom "name_domain", .atom (atom "shortnames")),
   (atom "identity", .nil),
   (atom "network", .nil),
   (atom "bind", .list []),
   (atom "direct_ip", .atom (atom "true")),
   (atom "peers", .map []),
   (atom "startup_timeout", .int 10000),
   (atom "shutdown_timeout", .int 5000),
   (atom "connect_timeout", .int 10000),
   (atom "accept_timeout", .int 1000),
   (atom "stream_timeout", .int 10000),
   (atom "receive_chunk", .int (64 * 1024)),
   (atom "max_frame", .int (16 * 1024 * 1024)),
   (atom "max_connections", .int 1024),
   (atom "net_ticktime", .int 60),
   (atom "net_tickintensity", .int 4)]

/-- `invalid/1` of the configuration module. -/
def invalidConfig {α : Type*} (message : String) : Except Failure α :=
  invalid .distribution message

/-- `require_keys/2`. -/
def requireKeys (options : List (Atom × Term)) (keys : List String) : Except Failure Unit :=
  if keys.all fun key => !(option options key).isNil then .ok ()
  else invalidConfig "name, identity, and network are required"

/-- The parts of a node name around `@`. -/
def nodeParts (node : Atom) : List Binary := node.text.splitOn 64

/-- `validate_node/1`.  Splitting stops at three parts in the source, which
matches two parts exactly when the unbounded split gives two. -/
def validateNode : Term → Except Failure Atom
  | .atom node =>
      match nodeParts node with
      | [name, host] =>
          if name ≠ [] ∧ host ≠ [] then .ok node
          else invalidConfig "node names must be exact atoms in name@host form"
      | _ => invalidConfig "node names must be exact atoms in name@host form"
  | _ => invalidConfig "node names must be exact atoms in name@host form"

/-- `validate_name_domain/2`, after `validate_node/1` has accepted the name. -/
def validateNameDomain (node : Atom) (domain : Term) : Except Failure NameDomain :=
  let dotted := match nodeParts node with
    | [_, host] => decide (46 ∈ host)
    | _ => false
  match domain with
  | .atom a =>
      if a = atom "shortnames" then
        if dotted then invalidConfig "short node names require a host without dots"
        else .ok .shortnames
      else if a = atom "longnames" then
        if dotted then .ok .longnames
        else invalidConfig "long node names require a fully qualified host"
      else invalidConfig "name_domain must be :shortnames or :longnames"
  | _ => invalidConfig "name_domain must be :shortnames or :longnames"

/-- `validate_identity/1`. -/
def validateIdentity : Term → Except Failure Identity
  | .atom a =>
      if a = atom "ephemeral" then .ok .ephemeral
      else invalidConfig "distribution identity is invalid"
  | .secretKey key => .ok (.secretKey key)
  | .tuple [.atom a, .binary path] =>
      if a = atom "file" ∧ path ≠ [] then .ok (.file path)
      else invalidConfig "distribution identity is invalid"
  | _ => invalidConfig "distribution identity is invalid"

/-- `validate_network/1`. -/
def validateNetwork : Term → Except Failure Network
  | .atom a =>
      if a = atom "n0" then .ok .n0
      else if a = atom "direct" then .ok .direct
      else if a = atom "minimal" then .ok .minimal
      else if a = atom "no_relay" then .ok .noRelay
      else invalidConfig "distribution network profile is invalid"
  | .tuple [.atom a, .list ts] =>
      if a = atom "custom" ∧ 1 ≤ ts.length ∧ ts.length ≤ 8 then
        match Term.relays ts with
        | some relays => .ok (.custom relays)
        | none => invalidConfig "custom network requires validated relay records"
      else invalidConfig "distribution network profile is invalid"
  | _ => invalidConfig "distribution network profile is invalid"

/-- `is_boolean/1`, giving the value. -/
def boolean : Term → Option Bool
  | .atom a =>
      if a = atom "true" then some true
      else if a = atom "false" then some false
      else none
  | _ => none

/-- `validate_bind/2`. -/
def validateBind (bind directIp : Term) : Except Failure (List Binary × Bool) :=
  match bind, boolean directIp with
  | .list ts, some directIp =>
      if ts.length ≤ 8 then
        match Term.binaries ts with
        | none => invalidConfig "bind addresses must be strings"
        | some addrs =>
            if directIp = false ∧ addrs ≠ [] then
              invalidConfig "bind addresses require direct IP transports"
            else .ok (addrs, directIp)
      else invalidConfig "bind/direct_ip configuration is invalid"
  | _, _ => invalidConfig "bind/direct_ip configuration is invalid"

/-- `normalize_target({:addr, value})` for a map that is no `EndpointAddr`. -/
def normalizeAddrMap (nif : IdentityNif) (value : Term) : Except Failure (Target × EndpointId) := do
  let field (name : String) : Term :=
    (value.mapGet (.atom (atom name))).orElse (value.mapGet (.string (ascii name)))
  let id ← EndpointId.parse nif (field "endpoint_id")
  let addr ← EndpointAddr.new nif id ((field "relay_urls").orElse (.list []))
    ((field "ip_addrs").orElse (.list []))
  pure (.addr addr, addr.id)

/-- `normalize_target/1`. -/
def normalizeTarget (nif : IdentityNif) : Term → Except Failure (Target × EndpointId)
  | .endpointId id => .ok (.id id, id)
  | .endpointAddr addr => .ok (.addr addr, addr.id)
  | .endpointTicket ticket => .ok (.ticket ticket, ticket.addr.id)
  | .tuple [.atom tag, value] =>
      if tag = atom "id" then
        match value with
        | .binary text => do
            let id ← EndpointId.parse nif (.binary text)
            pure (.id id, id)
        | _ => invalidConfig "peer target is invalid"
      else if tag = atom "ticket" then
        match value with
        | .binary text => do
            let ticket ← EndpointTicket.parse nif text
            pure (.ticket ticket, ticket.addr.id)
        | _ => invalidConfig "peer target is invalid"
      else if tag = atom "addr" then
        match value with
        | .endpointAddr addr => .ok (.addr addr, addr.id)
        | value =>
            if value.isMap then normalizeAddrMap nif value
            else invalidConfig "peer target is invalid"
      else invalidConfig "peer target is invalid"
  | _ => invalidConfig "peer target is invalid"

/-- The `reduce_while` of `normalize_peers/2`. -/
def normalizePeersLoop (nif : IdentityNif) (localName : Atom) :
    List (Term × Term) → PeerMap → IdMap → Except Failure (PeerMap × IdMap)
  | [], byNode, byId => .ok (byNode, byId)
  | (node, target) :: rest, byNode, byId => do
      let node ← validateNode node
      if node = localName then
        invalidConfig "peer endpoint IDs must be unique and local node is not a peer"
      else
        let (target, id) ← normalizeTarget nif target
        if id.text ∈ byId then
          invalidConfig "peer endpoint IDs must be unique and local node is not a peer"
        else
          normalizePeersLoop nif localName rest (byNode.insert node ⟨target, id⟩)
            (byId.insert id.text node)

/-- `normalize_peers/2`.  A struct passes the `is_map` guard and then raises,
since it cannot be enumerated. -/
def normalizePeers (nif : IdentityNif) (peers : Term) (localName : Atom) :
    Except Failure (PeerMap × IdMap) :=
  match peers with
  | .map pairs => normalizePeersLoop nif localName pairs ∅ ∅
  | t => if t.isMap then .error .raised else invalidConfig "peers must be a map"

/-- `is_integer(t) and t > 0`. -/
def positive : Term → Bool
  | .int n => 0 < n
  | _ => false

/-- `is_integer(t) and t in lo..hi`. -/
def inRange (lo hi : ℤ) : Term → Bool
  | .int n => lo ≤ n && n ≤ hi
  | _ => false

/-- The value of an option that has been checked to be a positive integer. -/
def natOf : Term → ℕ
  | .int n => n.toNat
  | _ => 0

/-- `validate_limits/1`. -/
def validateLimits (options : List (Atom × Term)) : Except Failure Unit :=
  if !(["startup_timeout", "shutdown_timeout", "connect_timeout", "accept_timeout",
      "stream_timeout"].all fun key => positive (option options key)) then
    invalidConfig "distribution timeouts must be positive integers"
  else if !inRange 1 (1024 * 1024) (option options "receive_chunk") then
    invalidConfig "receive_chunk must be between 1 and 1048576 bytes"
  else if !inRange 1024 (64 * 1024 * 1024) (option options "max_frame") then
    invalidConfig "max_frame must be between 1024 and 67108864 bytes"
  else if natOf (option options "max_frame") < natOf (option options "receive_chunk") then
    invalidConfig "receive_chunk may not exceed max_frame"
  else if !inRange 1 1000000 (option options "max_connections") then
    invalidConfig "max_connections is outside the supported range"
  else if !positive (option options "net_ticktime") then
    invalidConfig "net_ticktime must be a positive integer"
  else if !inRange 4 1000 (option options "net_tickintensity") then
    invalidConfig "net_tickintensity must be between 4 and 1000"
  else .ok ()

/-- The checks of `validate/2` on options whose keys are known. -/
def validateOptions (nif : IdentityNif) (options : List (Atom × Term)) (mode : Mode) :
    Except Failure Config := do
  requireKeys options ["name", "identity", "network"]
  let name ← validateNode (option options "name")
  let nameDomain ← validateNameDomain name (option options "name_domain")
  let identity ← validateIdentity (option options "identity")
  let network ← validateNetwork (option options "network")
  let (bind, directIp) ← validateBind (option options "bind") (option options "direct_ip")
  let (peers, ids) ← normalizePeers nif (option options "peers") name
  validateLimits options
  pure
    { mode, name, nameDomain, identity, network, bind, directIp, peers, ids
      startupTimeout := natOf (option options "startup_timeout")
      shutdownTimeout := natOf (option options "shutdown_timeout")
      connectTimeout := natOf (option options "connect_timeout")
      acceptTimeout := natOf (option options "accept_timeout")
      streamTimeout := natOf (option options "stream_timeout")
      receiveChunk := natOf (option options "receive_chunk")
      maxFrame := natOf (option options "max_frame")
      maxConnections := natOf (option options "max_connections")
      netTicktime := natOf (option options "net_ticktime")
      netTickintensity := natOf (option options "net_tickintensity") }

/-- `validate/2`. -/
def validate (nif : IdentityNif) (options : Term) (mode : Mode) : Except Failure Config :=
  match options with
  | .list ts =>
      match keyword ts with
      | none => invalidConfig "distribution options must be a keyword list"
      | some pairs =>
          match keywordValidate pairs configDefaults with
          | none => invalidConfig "distribution options contain unknown keys"
          | some options => validateOptions nif options mode
  | _ => invalidConfig "distribution options must be a keyword list"

/-! ### Lookups -/

/-- The atoms the lookups answer with when they refuse. -/
inductive PeerError where
  | unknownPeer | identityMismatch | identityNameMismatch | notStarted
  deriving DecidableEq, Repr

/-- `resolve/2`. -/
def Config.resolve (c : Config) (node : Atom) : Except PeerError Peer :=
  match c.peers.lookup node with
  | some peer => .ok peer
  | none => .error .unknownPeer

/-- `authorize_id/2`. -/
def Config.authorizeId (c : Config) (id : EndpointId) : Option Atom := c.ids.lookup id.text

/-- `expected_id/2`. -/
def Config.expectedId (c : Config) (node : Atom) : Except PeerError EndpointId :=
  (c.resolve node).map Peer.id

/-- `authorize_claim/4`. -/
def Config.authorizeClaim (c : Config) (remoteName : Binary) (remoteId : EndpointId)
    (targetName : Binary) : Except PeerError Atom :=
  if targetName = c.name.text then
    match c.peers.entries.find? fun e => e.1.text = remoteName with
    | some ⟨node, peer⟩ =>
        if node ≠ atom "nil" ∧ peer.id = remoteId then .ok node
        else .error .identityNameMismatch
    | none => .error .identityNameMismatch
  else .error .identityNameMismatch

/-- `allowed_nodes/1`. -/
def Config.allowedNodes (c : Config) : List Atom := c.peers.keys

/-- The session map: the handles of one connection and the limits its I/O
runs under.  `claimed_node` is present once the preface has been accepted. -/
structure Session where
  connection : ℕ
  stream : ℕ
  remoteId : EndpointId
  streamTimeout : ℕ
  receiveChunk : ℕ
  maxFrame : ℕ
  claimedNode : Option Atom
  deriving DecidableEq, Repr

/-- The session `accept_loop/3` and `connect_peer/1` build: both copy the
limits of the configuration the endpoint server runs with. -/
def Config.session (c : Config) (connection stream : ℕ) (remoteId : EndpointId) : Session :=
  { connection, stream, remoteId
    streamTimeout := c.streamTimeout
    receiveChunk := c.receiveChunk
    maxFrame := c.maxFrame
    claimedNode := none }

/-! ### Inverting the checks -/

theorem bind_eq_ok {ε : Type*} {α β : Type*} {x : Except ε α} {f : α → Except ε β} {b : β}
    (h : x.bind f = .ok b) : ∃ a, x = .ok a ∧ f a = .ok b := by
  cases x with
  | error e => cases h
  | ok a => exact ⟨a, rfl, h⟩

/-- A guard that answers with an error was not met. -/
theorem guard_eq_ok {α : Type*} {P : Prop} [Decidable P] {message : String}
    {y : Except Failure α} {b : α}
    (h : (if P then invalidConfig message else y) = .ok b) : ¬ P ∧ y = .ok b := by
  by_cases hP : P
  · rw [if_pos hP] at h
    cases h
  · rw [if_neg hP] at h
    exact ⟨hP, h⟩

theorem guard_not_eq_ok {α : Type*} {p : Bool} {message : String} {y : Except Failure α} {b : α}
    (h : (if !p then invalidConfig message else y) = .ok b) : p = true ∧ y = .ok b := by
  obtain ⟨hp, hy⟩ := guard_eq_ok h
  exact ⟨by simpa using hp, hy⟩

theorem natOf_pos {t : Term} (h : positive t = true) : 0 < natOf t := by
  cases t <;> simp_all [positive, natOf]

theorem natOf_inRange {t : Term} {lo hi : ℕ} (h : inRange lo hi t = true) :
    lo ≤ natOf t ∧ natOf t ≤ hi := by
  cases t with
  | int n =>
      simp only [inRange, Bool.and_eq_true, decide_eq_true_eq] at h
      simp only [natOf]
      omega
  | _ => simp [inRange] at h

/-- The bounds an accepted configuration keeps. -/
structure Config.WithinLimits (c : Config) : Prop where
  startupTimeout : 0 < c.startupTimeout
  shutdownTimeout : 0 < c.shutdownTimeout
  connectTimeout : 0 < c.connectTimeout
  acceptTimeout : 0 < c.acceptTimeout
  streamTimeout : 0 < c.streamTimeout
  receiveChunk : 1 ≤ c.receiveChunk ∧ c.receiveChunk ≤ 1024 * 1024
  maxFrame : 1024 ≤ c.maxFrame ∧ c.maxFrame ≤ 64 * 1024 * 1024
  receiveChunk_le : c.receiveChunk ≤ c.maxFrame
  maxConnections : 1 ≤ c.maxConnections ∧ c.maxConnections ≤ 1000000
  netTicktime : 0 < c.netTicktime
  netTickintensity : 4 ≤ c.netTickintensity ∧ c.netTickintensity ≤ 1000

/-- A node name of the form `name@host`. -/
def WellFormedNode (node : Atom) : Prop :=
  ∃ name host, nodeParts node = [name, host] ∧ name ≠ [] ∧ host ≠ []

/-- The peer indexes agree: a node's identity leads back to the node. -/
def IndexesAgree (peers : PeerMap) (ids : IdMap) : Prop :=
  ∀ node peer, peers.lookup node = some peer →
    WellFormedNode node ∧ ids.lookup peer.id.text = some node

theorem validateNode_eq_ok {t : Term} {node : Atom} (h : validateNode t = .ok node) :
    t = .atom node ∧ WellFormedNode node := by
  cases t with
  | atom a =>
      simp only [validateNode] at h
      split at h
      · next name host hparts =>
          split at h
          · next hne =>
              obtain rfl := Except.ok.inj h
              exact ⟨rfl, name, host, hparts, hne⟩
          · cases h
      · cases h
  | _ => cases h

theorem indexesAgree_empty : IndexesAgree ∅ ∅ := by
  intro node peer h
  rw [AList.lookup_empty] at h
  cases h

/-- Adding a peer whose identity is new keeps the indexes in agreement. -/
theorem IndexesAgree.insert {peers : PeerMap} {ids : IdMap} (h : IndexesAgree peers ids)
    {node : Atom} {peer : Peer} (hnode : WellFormedNode node) (hnew : peer.id.text ∉ ids) :
    IndexesAgree (peers.insert node peer) (ids.insert peer.id.text node) := by
  intro node' peer' hlook
  by_cases heq : node' = node
  · subst heq
    rw [AList.lookup_insert] at hlook
    obtain rfl := Option.some.inj hlook
    exact ⟨hnode, AList.lookup_insert ids⟩
  · rw [AList.lookup_insert_ne heq] at hlook
    obtain ⟨hwf, hid⟩ := h node' peer' hlook
    have hmem : peer'.id.text ∈ ids := AList.lookup_isSome.mp (by rw [hid]; rfl)
    have hne : peer'.id.text ≠ peer.id.text := fun e => hnew (e ▸ hmem)
    exact ⟨hwf, by rw [AList.lookup_insert_ne hne, hid]⟩

/-- The `reduce_while` keeps the indexes in agreement. -/
theorem normalizePeersLoop_agree {nif : IdentityNif} {localName : Atom}
    {pairs : List (Term × Term)} {byNode peers : PeerMap} {byId ids : IdMap}
    (h : normalizePeersLoop nif localName pairs byNode byId = .ok (peers, ids))
    (hagree : IndexesAgree byNode byId) : IndexesAgree peers ids := by
  induction pairs generalizing byNode byId with
  | nil =>
      obtain ⟨rfl, rfl⟩ := Prod.mk.injEq .. ▸ Except.ok.inj h
      exact hagree
  | cons pair rest ih =>
      obtain ⟨node, hnode, h⟩ := bind_eq_ok h
      obtain ⟨-, h⟩ := guard_eq_ok h
      obtain ⟨⟨target, id⟩, -, h⟩ := bind_eq_ok h
      obtain ⟨hnew, h⟩ := guard_eq_ok h
      exact ih h (hagree.insert (validateNode_eq_ok hnode).2 hnew)

theorem normalizePeers_agree {nif : IdentityNif} {t : Term} {localName : Atom} {peers : PeerMap}
    {ids : IdMap} (h : normalizePeers nif t localName = .ok (peers, ids)) :
    IndexesAgree peers ids := by
  unfold normalizePeers at h
  split at h
  · exact normalizePeersLoop_agree h indexesAgree_empty
  · split at h <;> cases h

/-- **What an accepted configuration is**: its limits are within bounds and
its indexes agree. -/
theorem validateOptions_eq_ok {nif : IdentityNif} {options : List (Atom × Term)} {mode : Mode}
    {c : Config} (h : validateOptions nif options mode = .ok c) :
    c.WithinLimits ∧ IndexesAgree c.peers c.ids := by
  obtain ⟨-, -, h⟩ := bind_eq_ok h
  obtain ⟨name, -, h⟩ := bind_eq_ok h
  obtain ⟨nameDomain, -, h⟩ := bind_eq_ok h
  obtain ⟨identity, -, h⟩ := bind_eq_ok h
  obtain ⟨network, -, h⟩ := bind_eq_ok h
  obtain ⟨⟨bind, directIp⟩, -, h⟩ := bind_eq_ok h
  obtain ⟨⟨peers, ids⟩, hpeers, h⟩ := bind_eq_ok h
  obtain ⟨u, hlimits, h⟩ := bind_eq_ok h
  obtain rfl := Except.ok.inj h
  refine ⟨?_, normalizePeers_agree hpeers⟩
  -- the guards of `validate_limits`, one by one
  unfold validateLimits at hlimits
  obtain ⟨htimeouts, hlimits⟩ := guard_not_eq_ok hlimits
  obtain ⟨hchunk, hlimits⟩ := guard_not_eq_ok hlimits
  obtain ⟨hframe, hlimits⟩ := guard_not_eq_ok hlimits
  obtain ⟨hle, hlimits⟩ := guard_eq_ok hlimits
  obtain ⟨hconns, hlimits⟩ := guard_not_eq_ok hlimits
  obtain ⟨hticktime, hlimits⟩ := guard_not_eq_ok hlimits
  obtain ⟨hintensity, -⟩ := guard_not_eq_ok hlimits
  rw [List.all_eq_true] at htimeouts
  exact
    { startupTimeout := natOf_pos (htimeouts _ (by simp))
      shutdownTimeout := natOf_pos (htimeouts _ (by simp))
      connectTimeout := natOf_pos (htimeouts _ (by simp))
      acceptTimeout := natOf_pos (htimeouts _ (by simp))
      streamTimeout := natOf_pos (htimeouts _ (by simp))
      receiveChunk := natOf_inRange hchunk
      maxFrame := natOf_inRange hframe
      receiveChunk_le := Nat.not_lt.mp hle
      maxConnections := natOf_inRange hconns
      netTicktime := natOf_pos hticktime
      netTickintensity := natOf_inRange hintensity }

theorem validate_eq_ok {nif : IdentityNif} {options : Term} {mode : Mode} {c : Config}
    (h : validate nif options mode = .ok c) :
    c.WithinLimits ∧ IndexesAgree c.peers c.ids := by
  unfold validate at h
  split at h
  · split at h
    · cases h
    · split at h
      · cases h
      · exact validateOptions_eq_ok h
  · cases h

theorem validate_limits {nif : IdentityNif} {options : Term} {mode : Mode} {c : Config}
    (h : validate nif options mode = .ok c) : c.WithinLimits :=
  (validate_eq_ok h).1

theorem validate_ids {nif : IdentityNif} {options : Term} {mode : Mode} {c : Config}
    (h : validate nif options mode = .ok c) : IndexesAgree c.peers c.ids :=
  (validate_eq_ok h).2

/-! ### Peers and claims -/

/-- Distinct nodes have distinct endpoint identities. -/
theorem IndexesAgree.node_unique {peers : PeerMap} {ids : IdMap} (h : IndexesAgree peers ids)
    {n m : Atom} {p q : Peer} (hp : peers.lookup n = some p) (hq : peers.lookup m = some q)
    (hid : p.id = q.id) : n = m := by
  have hn := (h n p hp).2
  have hm := (h m q hq).2
  rw [hid, hm] at hn
  exact (Option.some.inj hn).symm

/-- An authorised claim names a configured peer under its own name, and the
target is the local node. -/
theorem authorizeClaim_eq_ok {c : Config} {remoteName targetName : Binary}
    {remoteId : EndpointId} {node : Atom}
    (h : c.authorizeClaim remoteName remoteId targetName = .ok node) :
    targetName = c.name.text ∧ node.text = remoteName ∧
      ∃ peer, c.peers.lookup node = some peer ∧ peer.id = remoteId := by
  unfold Config.authorizeClaim at h
  split at h
  · next htarget =>
      split at h
      · next node' peer hfind =>
          split at h
          · next hok =>
              obtain rfl := Except.ok.inj h
              -- the search goes by the text of the node, and what it finds is that node's peer
              have htext := List.find?_some hfind
              have hmem := List.mem_of_find?_eq_some hfind
              refine ⟨htarget, by simpa using htext, peer, ?_, hok.2⟩
              exact List.mem_dlookup c.peers.nodupKeys hmem
          · cases h
      · cases h
  · cases h

/-! ### A sample configuration -/

/-- An identity of one byte, for samples. -/
def samplePeerId : EndpointId := ⟨[171], ascii "ab"⟩

/-- An identity of another byte. -/
def sampleOtherId : EndpointId := ⟨[205], ascii "cd"⟩

/-- A node `a@h` with the single peer `b@h`, everything else at its default. -/
def sampleOptions : Term :=
  .list
    [.tuple [.atom (atom "name"), .atom (atom "a@h")],
     .tuple [.atom (atom "identity"), .atom (atom "ephemeral")],
     .tuple [.atom (atom "network"), .atom (atom "direct")],
     .tuple [.atom (atom "peers"), .map [(.atom (atom "b@h"), .endpointId samplePeerId)]]]

/-- What `sampleOptions` validates to. -/
def sampleConfig : Config :=
  { mode := .dynamic
    name := atom "a@h"
    nameDomain := .shortnames
    identity := .ephemeral
    network := .direct
    bind := []
    directIp := true
    peers := (∅ : PeerMap).insert (atom "b@h") ⟨.id samplePeerId, samplePeerId⟩
    ids := (∅ : IdMap).insert samplePeerId.text (atom "b@h")
    startupTimeout := 10000
    shutdownTimeout := 5000
    connectTimeout := 10000
    acceptTimeout := 1000
    streamTimeout := 10000
    receiveChunk := 64 * 1024
    maxFrame := 16 * 1024 * 1024
    maxConnections := 1024
    netTicktime := 60
    netTickintensity := 4 }

/-- A native layer that accepts no text; the sample has no text to parse. -/
def sampleNif : IdentityNif where
  endpointIdParse _ := .error ⟨.invalidArgument, .endpointId, "endpoint ID is invalid"⟩
  endpointAddrNormalize _ _ _ :=
    .error ⟨.invalidArgument, .endpointAddr, "IP socket address is invalid"⟩
  endpointTicketParseText _ :=
    .error ⟨.invalidArgument, .endpointTicket, "endpoint ticket is invalid"⟩
  endpointTicketTextToBytes _ :=
    .error ⟨.invalidArgument, .endpointTicket, "endpoint ticket is invalid"⟩

theorem validate_sample : validate sampleNif sampleOptions .dynamic = .ok sampleConfig := rfl

end IrohBeam
