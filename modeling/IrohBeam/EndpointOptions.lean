/-
IrohBeam/EndpointOptions.lean

The options the distribution endpoint is started with
(`Config.endpoint_options/1`) and the validator they then meet
(`Endpoint.validate_options/1`, `lib/iroh_beam/endpoint.ex`).

The two validators were written independently.  The endpoint's checks are
each inverted once (`…_toTerm`, `…_eq_ok`), on the terms an accepted
configuration yields; together they say which accepted configurations the
endpoint refuses (`endpoint_accepts_iff`): exactly those whose custom
relays repeat a URL, which only the endpoint looks at.

Making the secret key is native and enters as `SecretKeyNif`.
-/
import IrohBeam.Config

namespace IrohBeam

open Bytes

/-! ### The derived options -/

/-- `@alpn`. -/
def alpn : Binary := ascii "iroh-beam/erlang-distribution/1"

/-- A keyword list as a term sees it. -/
def ofKeyword (pairs : List (Atom × Term)) : List Term :=
  pairs.map fun p => .tuple [.atom p.1, p.2]

/-- The identity option as it was given. -/
def Identity.toTerm : Identity → Term
  | .ephemeral => .atom (atom "ephemeral")
  | .secretKey key => .secretKey key
  | .file path => .tuple [.atom (atom "file"), .binary path]

/-- The network option as it was given. -/
def Network.toTerm : Network → Term
  | .n0 => .atom (atom "n0")
  | .direct => .atom (atom "direct")
  | .minimal => .atom (atom "minimal")
  | .noRelay => .atom (atom "no_relay")
  | .custom relays => .tuple [.atom (atom "custom"), .list (relays.map .relay)]

/-- A boolean is one of the atoms `true` and `false`. -/
def ofBool (b : Bool) : Term := .atom (if b then atom "true" else atom "false")

/-- The identities of the peers, in the order the map enumerates them. -/
def Config.peerAllowlist (c : Config) : List EndpointId :=
  c.peers.entries.map fun e => e.2.id

/-- The pairs of `endpoint_options/1`. -/
def Config.endpointPairs (c : Config) : List (Atom × Term) :=
  [(atom "identity", c.identity.toTerm),
   (atom "alpns", .list [.binary alpn]),
   (atom "network", c.network.toTerm),
   (atom "bind", .list (c.bind.map .binary)),
   (atom "direct_ip", ofBool c.directIp),
   (atom "startup_timeout", .int c.startupTimeout),
   (atom "shutdown_timeout", .int c.shutdownTimeout),
   (atom "limits", .list (ofKeyword
      [(atom "max_connections", .int c.maxConnections),
       (atom "max_pending_accepts", .int 1)])),
   (atom "peer_allowlist", .list (c.peerAllowlist.map .endpointId))]

/-- `endpoint_options/1`. -/
def Config.endpointOptions (c : Config) : List Term := ofKeyword c.endpointPairs

/-! ### The endpoint's validator -/

/-- The native functions behind `SecretKey.generate/0` and
`SecretKey.load_or_create/1`. -/
structure SecretKeyNif where
  generate : Except Error SecretKey
  loadOrCreate : Binary → Except Error SecretKey

/-- The profile `validate_network/1` answers with. -/
inductive Profile where
  | n0 | direct | noRelay | custom
  deriving DecidableEq, Repr

/-- Addresses by the text of their identity. -/
abbrev AddressBook := AList fun _ : Binary => EndpointAddr

/-- The map of an accepted limits option. -/
structure EndpointLimits where
  maxPendingAccepts : ℕ
  maxConnections : ℕ
  deriving DecidableEq, Repr

/-- The map `validate_options/1` answers with. -/
structure EndpointConfig where
  secretKey : SecretKey
  alpns : List Binary
  profile : Profile
  relays : List Relay
  bindAddrs : List Binary
  directIp : Bool
  startupTimeout : ℕ
  shutdownTimeout : ℕ
  limits : EndpointLimits
  addressBook : AddressBook
  /-- Whether every peer is admitted, and otherwise the texts of those that are. -/
  peerAllowlist : Bool × List Binary
  name : Term

namespace Endpoint

/-- `invalid(:endpoint_start, message)`. -/
def invalidStart {α : Type*} (message : String) : Except Failure α :=
  invalid .endpointStart message

/-- The defaults given to `Keyword.validate/2`. -/
def optionDefaults : List (Atom × Term) :=
  [(atom "identity", .atom (atom "ephemeral")),
   (atom "alpns", .list []),
   (atom "network", .atom (atom "n0")),
   (atom "bind", .list []),
   (atom "direct_ip", .atom (atom "true")),
   (atom "startup_timeout", .int 10000),
   (atom "shutdown_timeout", .int 5000),
   (atom "limits", .list []),
   (atom "address_book", .list []),
   (atom "peer_allowlist", .atom (atom "all")),
   (atom "name", .nil),
   (atom "id", .nil)]

/-- `resolve_identity/1`. -/
def resolveIdentity (nif : SecretKeyNif) : Term → Except Failure SecretKey
  | .atom a =>
      if a = atom "ephemeral" then liftNif nif.generate
      else invalidStart "endpoint identity is invalid"
  | .secretKey key => .ok key
  | .tuple [.atom a, .binary path] =>
      if a = atom "file" then liftNif (nif.loadOrCreate path)
      else invalidStart "endpoint identity is invalid"
  | _ => invalidStart "endpoint identity is invalid"

/-- `byte_size(alpn) in 1..255 and not String.contains?(alpn, <<0>>)`. -/
def validAlpn (alpn : Binary) : Bool :=
  decide (1 ≤ alpn.length ∧ alpn.length ≤ 255) && decide (0 ∉ alpn)

/-- `validate_alpns/1`. -/
def validateAlpns : Term → Except Failure (List Binary)
  | .list ts =>
      if 1 ≤ ts.length ∧ ts.length ≤ 16 then
        match Term.binaries ts with
        | some alpns =>
            if alpns.all validAlpn ∧ alpns.Nodup then .ok alpns
            else invalidStart
              "ALPNs must be unique binaries containing 1 to 255 non-NUL bytes"
        | none => invalidStart
            "ALPNs must be unique binaries containing 1 to 255 non-NUL bytes"
      else invalidStart "at least one and at most sixteen ALPNs are required"
  | _ => invalidStart "at least one and at most sixteen ALPNs are required"

/-- `validate_network/1`. -/
def validateNetwork : Term → Except Failure (Profile × List Relay)
  | .atom a =>
      if a = atom "n0" then .ok (.n0, [])
      else if a = atom "direct" ∨ a = atom "minimal" then .ok (.direct, [])
      else if a = atom "no_relay" then .ok (.noRelay, [])
      else invalidStart "network profile is invalid"
  | .tuple [.atom a, .list ts] =>
      if a = atom "custom" ∧ 1 ≤ ts.length ∧ ts.length ≤ 8 then
        match Term.relays ts with
        | some relays =>
            if (relays.map Relay.url).Nodup then .ok (.custom, relays)
            else invalidStart "custom relays must be unique validated relay records"
        | none => invalidStart "custom relays must be unique validated relay records"
      else invalidStart "network profile is invalid"
  | _ => invalidStart "network profile is invalid"

/-- `validate_bind/1`. -/
def validateBind : Term → Except Failure (List Binary)
  | .list ts =>
      if ts.length ≤ 8 then
        match Term.binaries ts with
        | some addrs => .ok addrs
        | none => invalidStart "bind addresses must be strings"
      else invalidStart "bind addresses are invalid"
  | _ => invalidStart "bind addresses are invalid"

/-- `validate_direct_ip/2`. -/
def validateDirectIp (directIp : Term) (bindAddrs : List Binary) : Except Failure Bool :=
  match boolean directIp with
  | some directIp =>
      if directIp ∨ bindAddrs = [] then .ok directIp
      else invalidStart "bind addresses require direct IP transports"
  | none => invalidStart "direct_ip must be a boolean"

/-- `validate_timeout/2`. -/
def validateTimeout (timeout : Term) (name : String) : Except Failure ℕ :=
  if positive timeout then .ok (natOf timeout)
  else invalidStart (name ++ " must be a positive integer")

/-- The defaults of the limits option. -/
def limitDefaults : List (Atom × Term) :=
  [(atom "max_pending_accepts", .int 64),
   (atom "max_connections", .int 1024)]

/-- `validate_limits/1`.  The keys are known once `Keyword.validate/2` has
accepted them, so every value of the result is one of the two looked at. -/
def validateLimits : Term → Except Failure EndpointLimits
  | .list ts =>
      match (keyword ts).bind fun pairs => keywordValidate pairs limitDefaults with
      | some limits =>
          if positive (option limits "max_pending_accepts")
              ∧ positive (option limits "max_connections") then
            .ok
              { maxPendingAccepts := natOf (option limits "max_pending_accepts")
                maxConnections := natOf (option limits "max_connections") }
          else invalidStart "endpoint limits must be positive integers"
      | none => invalidStart "endpoint limits must be positive integers"
  | _ => invalidStart "endpoint limits must be a keyword list"

/-- All elements of a list as endpoint addresses, if they are. -/
def endpointAddrs : List Term → Option (List EndpointAddr)
  | [] => some []
  | .endpointAddr addr :: ts => (endpointAddrs ts).map (addr :: ·)
  | _ :: _ => none

/-- `validate_address_book/1`. -/
def validateAddressBook : Term → Except Failure AddressBook
  | .list ts =>
      match endpointAddrs ts with
      | some addrs =>
          let addressBook : AddressBook :=
            addrs.foldl (fun book addr => book.insert addr.id.text addr) ∅
          if addressBook.keys.length = addrs.length then .ok addressBook
          else invalidStart "address book endpoint IDs must be unique"
      | none => invalidStart "address book must contain EndpointAddr values"
  | _ => invalidStart "address book must be a list"

/-- All elements of a list as endpoint identities, if they are. -/
def endpointIds : List Term → Option (List EndpointId)
  | [] => some []
  | .endpointId id :: ts => (endpointIds ts).map (id :: ·)
  | _ :: _ => none

/-- `validate_peer_allowlist/1`. -/
def validatePeerAllowlist : Term → Except Failure (Bool × List Binary)
  | .atom a =>
      if a = atom "all" then .ok (true, [])
      else invalidStart "peer allowlist must be :all or a list"
  | .list ts =>
      match endpointIds ts with
      | some ids => .ok (false, (ids.map EndpointId.text).eraseDups)
      | none => invalidStart "peer allowlist must contain EndpointId values"
  | _ => invalidStart "peer allowlist must be :all or a list"

/-- `validate_name/1`. -/
def validateName : Term → Except Failure Unit
  | .atom _ => .ok ()
  | .tuple [.atom a, _] =>
      if a = atom "global" then .ok () else invalidStart "endpoint name is invalid"
  | .tuple [.atom a, .atom _, _] =>
      if a = atom "via" then .ok () else invalidStart "endpoint name is invalid"
  | _ => invalidStart "endpoint name is invalid"

/-- The checks of `validate_options/1` on options whose keys are known. -/
def validateKnown (nif : SecretKeyNif) (options : List (Atom × Term)) :
    Except Failure EndpointConfig := do
  let secretKey ← resolveIdentity nif (option options "identity")
  let alpns ← validateAlpns (option options "alpns")
  let (profile, relays) ← validateNetwork (option options "network")
  let bindAddrs ← validateBind (option options "bind")
  let directIp ← validateDirectIp (option options "direct_ip") bindAddrs
  let startupTimeout ← validateTimeout (option options "startup_timeout") "startup_timeout"
  let shutdownTimeout ← validateTimeout (option options "shutdown_timeout") "shutdown_timeout"
  let limits ← validateLimits (option options "limits")
  let addressBook ← validateAddressBook (option options "address_book")
  let peerAllowlist ← validatePeerAllowlist (option options "peer_allowlist")
  validateName (option options "name")
  pure
    { secretKey, alpns, profile, relays, bindAddrs, directIp, startupTimeout, shutdownTimeout
      limits, addressBook, peerAllowlist
      name := option options "name" }

/-- `validate_options/1`. -/
def validateOptions (nif : SecretKeyNif) (options : List Term) :
    Except Failure EndpointConfig :=
  match (keyword options).bind fun pairs => keywordValidate pairs optionDefaults with
  | some options => validateKnown nif options
  | none => invalidStart "endpoint options are invalid"

end Endpoint

/-! ### Reading derived options back -/

@[simp] theorem keyword_ofKeyword (pairs : List (Atom × Term)) :
    keyword (ofKeyword pairs) = some pairs := by
  induction pairs with
  | nil => rfl
  | cons p ps ih =>
      show (keyword (ofKeyword ps)).map (p :: ·) = some (p :: ps)
      rw [ih]
      rfl

@[simp] theorem binaries_map (bs : List Binary) : Term.binaries (bs.map .binary) = some bs := by
  induction bs with
  | nil => rfl
  | cons b bs ih => simp [Term.binaries, ih]

@[simp] theorem relays_map (rs : List Relay) : Term.relays (rs.map .relay) = some rs := by
  induction rs with
  | nil => rfl
  | cons r rs ih => simp [Term.relays, ih]

@[simp] theorem endpointIds_map (ids : List EndpointId) :
    Endpoint.endpointIds (ids.map .endpointId) = some ids := by
  induction ids with
  | nil => rfl
  | cons id ids ih => simp [Endpoint.endpointIds, ih]

/-- Terms that are all relay records are the image of their records. -/
theorem relays_eq_some {ts : List Term} {rs : List Relay} (h : Term.relays ts = some rs) :
    ts = rs.map .relay := by
  induction ts generalizing rs with
  | nil =>
      obtain rfl := Option.some.inj h
      rfl
  | cons t ts ih =>
      cases t with
      | relay r =>
          obtain ⟨rest, hrest, rfl⟩ := Option.map_eq_some_iff.mp h
          rw [ih hrest]
          rfl
      | _ => cases h

theorem binaries_length {ts : List Term} {bs : List Binary} (h : Term.binaries ts = some bs) :
    bs.length = ts.length := by
  induction ts generalizing bs with
  | nil =>
      obtain rfl := Option.some.inj h
      rfl
  | cons t ts ih =>
      cases t with
      | binary b =>
          obtain ⟨rest, hrest, rfl⟩ := Option.map_eq_some_iff.mp h
          simp [ih hrest]
      | _ => cases h

@[simp] theorem boolean_ofBool (b : Bool) : boolean (ofBool b) = some b := by
  cases b <;> rfl

/-! ### What the first validator has established -/

/-- The relays of a network option. -/
def Network.relays : Network → List Relay
  | .custom relays => relays
  | _ => []

/-- The profile a network option stands for. -/
def Network.profile : Network → Profile
  | .n0 => .n0
  | .direct | .minimal => .direct
  | .noRelay => .noRelay
  | .custom _ => .custom

/-- A custom network lists between one and eight relays. -/
def Network.Bounded : Network → Prop
  | .custom relays => 1 ≤ relays.length ∧ relays.length ≤ 8
  | _ => True

/-- An accepted network option is the term its value is written as. -/
theorem validateNetwork_eq_ok {t : Term} {network : Network}
    (h : validateNetwork t = .ok network) : t = network.toTerm ∧ network.Bounded := by
  unfold validateNetwork at h
  split at h
  · next a =>
      split at h
      · next ha => obtain rfl := Except.ok.inj h; exact ⟨by rw [ha]; rfl, trivial⟩
      split at h
      · next ha => obtain rfl := Except.ok.inj h; exact ⟨by rw [ha]; rfl, trivial⟩
      split at h
      · next ha => obtain rfl := Except.ok.inj h; exact ⟨by rw [ha]; rfl, trivial⟩
      split at h
      · next ha => obtain rfl := Except.ok.inj h; exact ⟨by rw [ha]; rfl, trivial⟩
      · cases h
  · next a ts =>
      split at h
      · next hguard =>
          split at h
          · next relays hrelays =>
              obtain rfl := Except.ok.inj h
              obtain rfl := relays_eq_some hrelays
              obtain ⟨rfl, hlength⟩ := hguard
              rw [List.length_map] at hlength
              exact ⟨rfl, hlength⟩
          · cases h
      · cases h
  · cases h

/-- Accepted bind addresses are few, and there are none without direct IP
transports. -/
theorem validateBind_eq_ok {bind directIp : Term} {addrs : List Binary} {direct : Bool}
    (h : validateBind bind directIp = .ok (addrs, direct)) :
    addrs.length ≤ 8 ∧ (direct = true ∨ addrs = []) := by
  unfold validateBind at h
  split at h
  · next ts direct' hdirect =>
      split at h
      · next hlength =>
          split at h
          · cases h
          · next addrs' haddrs =>
              obtain ⟨hguard, h⟩ := guard_eq_ok h
              obtain ⟨rfl, rfl⟩ := Prod.mk.injEq .. ▸ Except.ok.inj h
              refine ⟨by rw [binaries_length haddrs]; exact hlength, ?_⟩
              by_cases hd : direct' = true
              · exact Or.inl hd
              · refine Or.inr (by_contra fun hne => hguard ⟨?_, hne⟩)
                simpa using hd
      · cases h
  · cases h

/-- The option list a term holds, empty if it holds none. -/
def pairsOf : Term → List (Atom × Term)
  | .list ts => (keyword ts).getD []
  | _ => []

/-- The URLs of the relays a network option lists. -/
def relayUrls : Term → List Binary
  | .tuple [.atom a, .list ts] =>
      if a = atom "custom" then ((Term.relays ts).getD []).map Relay.url else []
  | _ => []

@[simp] theorem relayUrls_toTerm (network : Network) :
    relayUrls network.toTerm = network.relays.map Relay.url := by
  cases network with
  | custom relays => simp [Network.toTerm, relayUrls, Network.relays]
  | _ => rfl

/-- The options `validate/2` looks at: the given ones and the defaults. -/
def withDefaults (options : Term) : List (Atom × Term) := pairsOf options ++ configDefaults

/-- The checks an accepted configuration has passed, with their values. -/
theorem validate_parts {nif : IdentityNif} {options : Term} {mode : Mode} {c : Config}
    (h : validate nif options mode = .ok c) :
    validateNetwork (option (withDefaults options) "network") = .ok c.network ∧
      validateBind (option (withDefaults options) "bind")
        (option (withDefaults options) "direct_ip") = .ok (c.bind, c.directIp) ∧
      normalizePeers nif (option (withDefaults options) "peers") c.name =
        .ok (c.peers, c.ids) := by
  unfold validate at h
  split at h
  · next ts =>
      split at h
      · cases h
      · next pairs hpairs =>
          have hall : withDefaults (.list ts) = pairs ++ configDefaults := by
            simp [withDefaults, pairsOf, hpairs]
          unfold keywordValidate at h
          split at h
          · cases h
          · next all hknown =>
              split at hknown
              · obtain rfl := Option.some.inj hknown
                obtain ⟨-, -, h⟩ := bind_eq_ok h
                obtain ⟨name, -, h⟩ := bind_eq_ok h
                obtain ⟨nameDomain, -, h⟩ := bind_eq_ok h
                obtain ⟨identity, -, h⟩ := bind_eq_ok h
                obtain ⟨network, hnetwork, h⟩ := bind_eq_ok h
                obtain ⟨⟨bind, directIp⟩, hbind, h⟩ := bind_eq_ok h
                obtain ⟨⟨peers, ids⟩, hpeers, h⟩ := bind_eq_ok h
                obtain ⟨-, -, h⟩ := bind_eq_ok h
                obtain rfl := Except.ok.inj h
                rw [hall]
                exact ⟨hnetwork, hbind, hpeers⟩
              · cases hknown
  · cases h

/-- The network option has no default: what is looked at is what is given. -/
theorem option_network (options : Term) :
    option (withDefaults options) "network" = option (pairsOf options) "network" := by
  unfold option withDefaults
  rw [List.lookup_append]
  cases (pairsOf options).lookup (atom "network") with
  | none => rfl
  | some t => rfl

/-- The network and the bind addresses of an accepted configuration. -/
theorem validate_network_bind {nif : IdentityNif} {options : Term} {mode : Mode} {c : Config}
    (h : validate nif options mode = .ok c) :
    option (pairsOf options) "network" = c.network.toTerm ∧ c.network.Bounded ∧
      c.bind.length ≤ 8 ∧ (c.directIp = true ∨ c.bind = []) := by
  obtain ⟨hnetwork, hbind, -⟩ := validate_parts h
  obtain ⟨hterm, hbounded⟩ := validateNetwork_eq_ok hnetwork
  rw [option_network] at hterm
  exact ⟨hterm, hbounded, validateBind_eq_ok hbind⟩

/-! ### The endpoint's checks on derived options -/

namespace Endpoint

theorem validateNetwork_toTerm {network : Network} (h : network.Bounded) :
    validateNetwork network.toTerm =
      if (network.relays.map Relay.url).Nodup then .ok (network.profile, network.relays)
      else invalidStart "custom relays must be unique validated relay records" := by
  cases network with
  | custom relays =>
      have hlength : 1 ≤ relays.length ∧ relays.length ≤ 8 := h
      by_cases hurls : (relays.map Relay.url).Nodup
      · simp [validateNetwork, Network.toTerm, Network.relays, Network.profile, hlength, hurls]
      · simp [validateNetwork, Network.toTerm, Network.relays, hlength, hurls]
  | _ => rfl

theorem validateBind_map {addrs : List Binary} (h : addrs.length ≤ 8) :
    validateBind (.list (addrs.map .binary)) = .ok addrs := by
  simp [validateBind, h]

theorem validateDirectIp_ofBool {directIp : Bool} {addrs : List Binary}
    (h : directIp = true ∨ addrs = []) : validateDirectIp (ofBool directIp) addrs = .ok directIp := by
  simp [validateDirectIp, h]

theorem validateTimeout_pos {n : ℕ} (h : 0 < n) (name : String) :
    validateTimeout (.int n) name = .ok n := by
  simp [validateTimeout, positive, natOf, h]

theorem validateLimits_pos {n : ℕ} (h : 0 < n) :
    validateLimits (.list (ofKeyword
      [(atom "max_connections", .int n), (atom "max_pending_accepts", .int 1)])) =
      .ok { maxPendingAccepts := 1, maxConnections := n } := by
  have hknown : keywordValidate
      [(atom "max_connections", .int n), (atom "max_pending_accepts", .int 1)] limitDefaults =
      some ([(atom "max_connections", .int n), (atom "max_pending_accepts", .int 1)]
        ++ limitDefaults) := rfl
  simp only [validateLimits, keyword_ofKeyword, Option.bind_some, hknown]
  rw [if_pos]
  · rfl
  · exact ⟨rfl, by simpa [positive, option] using h⟩

theorem validatePeerAllowlist_map (ids : List EndpointId) :
    validatePeerAllowlist (.list (ids.map .endpointId)) =
      .ok (false, (ids.map EndpointId.text).eraseDups) := by
  simp [validatePeerAllowlist]

end Endpoint

/-- The endpoint configuration the derived options stand for. -/
def Config.endpointConfig (c : Config) (key : SecretKey) : EndpointConfig :=
  { secretKey := key
    alpns := [alpn]
    profile := c.network.profile
    relays := c.network.relays
    bindAddrs := c.bind
    directIp := c.directIp
    startupTimeout := c.startupTimeout
    shutdownTimeout := c.shutdownTimeout
    limits := { maxPendingAccepts := 1, maxConnections := c.maxConnections }
    addressBook := ∅
    peerAllowlist := (false, (c.peerAllowlist.map EndpointId.text).eraseDups)
    name := .nil }

theorem Config.keywordValidate_endpointPairs (c : Config) :
    keywordValidate c.endpointPairs Endpoint.optionDefaults =
      some (c.endpointPairs ++ Endpoint.optionDefaults) := rfl

/-- The endpoint's verdict on the options of an accepted configuration: the
relay URLs decide. -/
theorem endpoint_validateOptions {nif : IdentityNif} {keys : SecretKeyNif} {options : Term}
    {mode : Mode} {c : Config} {key : SecretKey} (h : validate nif options mode = .ok c)
    (hkey : Endpoint.resolveIdentity keys c.identity.toTerm = .ok key) :
    Endpoint.validateOptions keys c.endpointOptions =
      if (c.network.relays.map Relay.url).Nodup then .ok (c.endpointConfig key)
      else Endpoint.invalidStart "custom relays must be unique validated relay records" := by
  obtain ⟨-, hbounded, hfew, hnone⟩ := validate_network_bind h
  have hlimits := validate_limits h
  unfold Endpoint.validateOptions Config.endpointOptions
  rw [keyword_ofKeyword, Option.bind_some, Config.keywordValidate_endpointPairs]
  show Endpoint.validateKnown keys (c.endpointPairs ++ Endpoint.optionDefaults) = _
  generalize hall : c.endpointPairs ++ Endpoint.optionDefaults = all
  -- one fact for each check; the option it reads is found by computation
  have hidentity : Endpoint.resolveIdentity keys (option all "identity") = .ok key :=
    hall ▸ hkey
  have halpns : Endpoint.validateAlpns (option all "alpns") = .ok [alpn] := hall ▸ rfl
  have hnetwork : Endpoint.validateNetwork (option all "network") =
      if (c.network.relays.map Relay.url).Nodup then .ok (c.network.profile, c.network.relays)
      else Endpoint.invalidStart "custom relays must be unique validated relay records" :=
    hall ▸ Endpoint.validateNetwork_toTerm hbounded
  have hbind : Endpoint.validateBind (option all "bind") = .ok c.bind :=
    hall ▸ Endpoint.validateBind_map hfew
  have hdirect : Endpoint.validateDirectIp (option all "direct_ip") c.bind = .ok c.directIp :=
    hall ▸ Endpoint.validateDirectIp_ofBool hnone
  have hstartup : Endpoint.validateTimeout (option all "startup_timeout") "startup_timeout" =
      .ok c.startupTimeout :=
    hall ▸ Endpoint.validateTimeout_pos hlimits.startupTimeout _
  have hshutdown : Endpoint.validateTimeout (option all "shutdown_timeout") "shutdown_timeout" =
      .ok c.shutdownTimeout :=
    hall ▸ Endpoint.validateTimeout_pos hlimits.shutdownTimeout _
  have hconnections : Endpoint.validateLimits (option all "limits") =
      .ok { maxPendingAccepts := 1, maxConnections := c.maxConnections } :=
    hall ▸ Endpoint.validateLimits_pos hlimits.maxConnections.1
  have hbook : Endpoint.validateAddressBook (option all "address_book") = .ok ∅ := hall ▸ rfl
  have hallowed : Endpoint.validatePeerAllowlist (option all "peer_allowlist") =
      .ok (false, (c.peerAllowlist.map EndpointId.text).eraseDups) :=
    hall ▸ Endpoint.validatePeerAllowlist_map _
  have hname : option all "name" = .nil := hall ▸ rfl
  unfold Endpoint.validateKnown
  rw [hidentity, halpns, hnetwork, hbind, hstartup, hshutdown, hconnections, hbook, hallowed,
    hname]
  split
  · simp only [bind, Except.bind, hdirect]
    rfl
  · rfl

/-- The endpoint takes the options of an accepted configuration exactly if no
relay URL is listed twice. -/
theorem endpoint_accepts_iff {nif : IdentityNif} {keys : SecretKeyNif} {options : Term}
    {mode : Mode} {c : Config} {key : SecretKey} (h : validate nif options mode = .ok c)
    (hkey : Endpoint.resolveIdentity keys c.identity.toTerm = .ok key) :
    (∃ e, Endpoint.validateOptions keys c.endpointOptions = .ok e) ↔
      (relayUrls (option (pairsOf options) "network")).Nodup := by
  rw [endpoint_validateOptions h hkey, (validate_network_bind h).1, relayUrls_toTerm]
  constructor
  · rintro ⟨e, he⟩
    by_contra hurls
    rw [if_neg hurls] at he
    cases he
  · intro hurls
    exact ⟨c.endpointConfig key, if_pos hurls⟩

/-- Options with two custom relays, the first at `https://r/`. -/
def relayOptions (second : String) : Term :=
  .list
    [.tuple [.atom (atom "name"), .atom (atom "a@h")],
     .tuple [.atom (atom "identity"), .atom (atom "ephemeral")],
     .tuple [.atom (atom "network"), .tuple [.atom (atom "custom"), .list
        [.relay ⟨ascii "https://r/", none⟩, .relay ⟨ascii second, none⟩]]]]

/-- What `relayOptions` validates to. -/
def relayConfig (second : String) : Config :=
  { sampleConfig with
    network := .custom [⟨ascii "https://r/", none⟩, ⟨ascii second, none⟩]
    peers := ∅
    ids := ∅ }

/-- A native layer that always has a key. -/
def sampleKeys : SecretKeyNif where
  generate := .ok ⟨0⟩
  loadOrCreate _ := .ok ⟨0⟩

/-- Two different relays pass both validators. -/
theorem endpoint_accepts_two_relays :
    validate sampleNif (relayOptions "https://s/") .dynamic = .ok (relayConfig "https://s/") ∧
      ∃ e, Endpoint.validateOptions sampleKeys (relayConfig "https://s/").endpointOptions =
        .ok e := by
  have hvalid : validate sampleNif (relayOptions "https://s/") .dynamic =
      .ok (relayConfig "https://s/") := rfl
  have hkey : Endpoint.resolveIdentity sampleKeys (relayConfig "https://s/").identity.toTerm =
      .ok ⟨0⟩ := rfl
  exact ⟨hvalid, (endpoint_accepts_iff hvalid hkey).mpr (by decide)⟩

/-- The same relay twice passes the first validator and fails at the start of
the endpoint. -/
theorem repeated_relay_refused :
    validate sampleNif (relayOptions "https://r/") .dynamic = .ok (relayConfig "https://r/") ∧
      Endpoint.resolveIdentity sampleKeys (relayConfig "https://r/").identity.toTerm = .ok ⟨0⟩ ∧
      ¬ ∃ e, Endpoint.validateOptions sampleKeys (relayConfig "https://r/").endpointOptions =
        .ok e := by
  refine ⟨rfl, rfl, ?_⟩
  rintro ⟨e, he⟩
  cases he

end IrohBeam
