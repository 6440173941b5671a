/-
IrohBeam/NativeOptions.lean

The options of an endpoint in the native layer.  Behind
`Endpoint.validate_options/1` there is one more validator: `init/1` of the
endpoint process turns what it was given into `NativeEndpointOptions`, and
`endpoint_bind_start` (`native/iroh_beam_nif/src/endpoint.rs`) checks them again
before it reserves the identity, with bounds on the limits and with
`parse_config`.

Most of its checks repeat the ones of `lib/iroh_beam/endpoint.ex`
(`EndpointConfig.Accepted`) or of `Relay.new/2` (`relayNew_token`) and cannot
fail.  `bind_accepts_iff` says what is left: the bounds, the texts that have to
be UTF-8, bind addresses that parse, one for each IP family, and relay URLs that
the native parser takes as well.  `distribution_starts_iff` puts all the
validators of a distribution configuration in a row.

The URLs and sockets are those of `IdentityLib`.
-/
import IrohBeam.EndpointOptions
import IrohBeam.TicketWire

namespace IrohBeam

open Bytes

/-! ### The native options -/

/-- `NativeEndpointOptions`. -/
structure NativeEndpointOptions where
  profile : Profile
  alpns : List Binary
  bindAddrs : List Binary
  relays : List Relay
  maxConnections : ℕ
  maxPendingAccepts : ℕ
  directIp : Bool

/-- The options `init/1` passes on; `Relay.to_native/1` gives the URL and the
token of a relay. -/
def EndpointConfig.nativeOptions (e : EndpointConfig) : NativeEndpointOptions :=
  { profile := e.profile
    alpns := e.alpns
    bindAddrs := e.bindAddrs
    relays := e.relays
    maxConnections := e.limits.maxConnections
    maxPendingAccepts := e.limits.maxPendingAccepts
    directIp := e.directIp }

/-- The values that are decoded to a `String`. -/
def NativeEndpointOptions.texts (o : NativeEndpointOptions) : List Binary :=
  o.alpns ++ o.bindAddrs ++ o.relays.map Relay.url ++ o.relays.filterMap Relay.token

/-- `BindConfig`, with the relays the map is collected from. -/
structure BindConfig (Url Socket : Type) where
  profile : Profile
  alpns : List Binary
  bindAddrs : List Socket
  relayMap : Option (List (Url × Option Binary))
  directIp : Bool

/-! ### `parse_config` -/

def invalidBind {α : Type} (message : String) : Except Error α :=
  .error ⟨.invalidArgument, .endpointBind, message⟩

section Native

variable {Id Url Socket Other : Type} [LinearOrder Url] [LinearOrder Socket] [LinearOrder Other]
variable (lib : IdentityLib Id Url Socket Other) (isIpv4 : Socket → Bool) (utf8 : Binary → Bool)

/-- One round of the loop over the custom relays. -/
def parseRelay (relay : Relay) : Except Error (Url × Option Binary) :=
  match lib.urlFromStr relay.url with
  | none => invalidBind "custom relay URL is invalid"
  | some url =>
      if isPlainUrl lib url then
        match relay.token with
        | none => .ok (url, none)
        | some token =>
            if token = [] ∨ 4 * 1024 < token.length ∨ 13 ∈ token ∨ 10 ∈ token then
              invalidBind "custom relay token is invalid"
            else .ok (url, some token)
      else invalidBind "custom relay URL must be HTTP(S) without credentials"

/-- The relays of the custom profile, which no other profile has. -/
def parseRelays (profile : Profile) (relays : List Relay) :
    Except Error (Option (List (Url × Option Binary))) :=
  if profile = .custom then
    if relays = [] ∨ 8 < relays.length then
      invalidBind "custom profile requires one to eight relays"
    else (relays.mapM (parseRelay lib)).map some
  else if relays ≠ [] then invalidBind "relay records require the custom profile"
  else .ok none

/-- `parse_config`. -/
def parseConfig (o : NativeEndpointOptions) : Except Error (BindConfig Url Socket) :=
  if o.alpns = [] ∨ 16 < o.alpns.length then invalidBind "at least one bounded ALPN is required"
  else if o.alpns.any fun alpn => alpn = [] ∨ 255 < alpn.length ∨ 0 ∈ alpn then
    invalidBind "ALPN values must contain 1 to 255 non-NUL bytes"
  else if ¬ o.alpns.Nodup then invalidBind "ALPN values must be unique"
  else if 8 < o.bindAddrs.length then invalidBind "too many bind addresses"
  else
    match o.bindAddrs.mapM lib.socketFromStr with
    | none => invalidBind "bind address is invalid"
    | some addrs =>
        if ¬ (addrs.map isIpv4).Nodup then
          invalidBind "only one bind address per IP family is supported"
        else
          match parseRelays lib o.profile o.relays with
          | .error e => .error e
          | .ok relayMap =>
              if o.directIp = false ∧ o.bindAddrs ≠ [] then
                invalidBind "bind addresses require direct IP transports"
              else .ok ⟨o.profile, o.alpns, addrs, relayMap, o.directIp⟩

/-- `endpoint_bind_start`, up to the reservation of the identity.  Arguments that
do not decode make the call raise. -/
def endpointBindStart (o : NativeEndpointOptions) : Except Failure (BindConfig Url Socket) :=
  if o.texts.all utf8 ∧ o.maxConnections < 2 ^ 64 ∧ o.maxPendingAccepts < 2 ^ 64 then
    if o.maxConnections = 0 ∨ 1000000 < o.maxConnections ∨ o.maxPendingAccepts = 0 ∨
        1024 < o.maxPendingAccepts then
      .error (.error ⟨.invalidArgument, .endpointBind,
        "endpoint limits are outside the supported range"⟩)
    else liftNif (parseConfig lib isIpv4 o)
  else .error .raised

end Native

/-! ### `Relay.new/2` -/

/-- The fields of `%URI{}` that are looked at. -/
structure Uri where
  scheme : Option Binary
  host : Option Binary
  userinfo : Option Binary
  path : Option Binary
  query : Option Binary
  fragment : Option Binary

/-- `validate_url/1`, with `URI.new/1` and `URI.to_string/1`. -/
def relayUrl (uriNew : Binary → Option Uri) (uriToString : Uri → Binary) (url : Binary) :
    Option Binary :=
  if url.length ≤ 2048 then
    (uriNew url).bind fun uri =>
      if (uri.scheme = some (ascii "http") ∨ uri.scheme = some (ascii "https")) ∧
          uri.host.isSome ∧ uri.userinfo = none ∧ uri.query = none ∧ uri.fragment = none then
        some (uriToString
          (if uri.path = none ∨ uri.path = some [] then { uri with path := some [47] } else uri))
      else none
  else none

/-- `validate_token/1`, giving the token. -/
def relayToken : Term → Option (Option Binary)
  | .nil => some none
  | .binary token =>
      if 0 < token.length ∧ token.length ≤ 4096 ∧ 13 ∉ token ∧ 10 ∉ token then some (some token)
      else none
  | _ => none

/-- `new/2`, with the value of the one option it has. -/
def relayNew (uriNew : Binary → Option Uri) (uriToString : Uri → Binary) (url : Binary)
    (token : Term) : Option Relay := do
  let url ← relayUrl uriNew uriToString url
  let token ← relayToken token
  pure ⟨url, token⟩

/-- A relay is made by `new/2`: the struct is opaque. -/
def Relay.Made (uriNew : Binary → Option Uri) (uriToString : Uri → Binary) (relay : Relay) : Prop :=
  ∃ url token, relayNew uriNew uriToString url token = some relay

/-- The token of a relay passes the native check. -/
theorem relayNew_token {uriNew : Binary → Option Uri} {uriToString : Uri → Binary} {relay : Relay}
    (h : relay.Made uriNew uriToString) {token : Binary} (htoken : relay.token = some token) :
    ¬ (token = [] ∨ 4 * 1024 < token.length ∨ 13 ∈ token ∨ 10 ∈ token) := by
  obtain ⟨url, term, hnew⟩ := h
  obtain ⟨url', -, hnew⟩ := Option.bind_eq_some_iff.mp hnew
  obtain ⟨token', htoken', hnew⟩ := Option.bind_eq_some_iff.mp hnew
  obtain rfl := (Option.some.inj hnew).symm
  obtain rfl : token' = some token := htoken
  unfold relayToken at htoken'
  split at htoken'
  · cases htoken'
  · split at htoken'
    · next hvalid =>
        obtain rfl := Option.some.inj (Option.some.inj htoken')
        obtain ⟨hpos, hlength, hcr, hlf⟩ := hvalid
        rintro (rfl | hlong | hmem | hmem)
        · cases hpos
        · exact absurd hlength (Nat.not_le.mpr hlong)
        · exact hcr hmem
        · exact hlf hmem
    · cases htoken'
  · cases htoken'

/-! ### What the endpoint's validator has established -/

/-- The checks of `validate_options/1` that come again. -/
structure EndpointConfig.Accepted (e : EndpointConfig) : Prop where
  alpns : 1 ≤ e.alpns.length ∧ e.alpns.length ≤ 16
  alpn : ∀ a ∈ e.alpns, Endpoint.validAlpn a = true
  unique : e.alpns.Nodup
  bind : e.bindAddrs.length ≤ 8
  direct : e.directIp = true ∨ e.bindAddrs = []
  custom : e.profile = .custom → 1 ≤ e.relays.length ∧ e.relays.length ≤ 8
  relays : e.profile ≠ .custom → e.relays = []
  connections : 0 < e.limits.maxConnections
  accepts : 0 < e.limits.maxPendingAccepts

namespace Endpoint

theorem validateAlpns_eq_ok {t : Term} {alpns : List Binary} (h : validateAlpns t = .ok alpns) :
    (1 ≤ alpns.length ∧ alpns.length ≤ 16) ∧ (∀ a ∈ alpns, validAlpn a = true) ∧ alpns.Nodup := by
  unfold validateAlpns at h
  split at h
  · split at h
    · next hlength =>
        split at h
        · next alpns' halpns =>
            split at h
            · next hvalid =>
                obtain rfl := Except.ok.inj h
                rw [← binaries_length halpns] at hlength
                exact ⟨hlength, List.all_eq_true.mp hvalid.1, hvalid.2⟩
            · cases h
        · cases h
    · cases h
  · cases h

theorem relays_length {ts : List Term} {rs : List Relay} (h : Term.relays ts = some rs) :
    rs.length = ts.length := by
  rw [relays_eq_some h, List.length_map]

theorem validateNetwork_eq_ok {t : Term} {profile : Profile} {relays : List Relay}
    (h : validateNetwork t = .ok (profile, relays)) :
    (profile = .custom → 1 ≤ relays.length ∧ relays.length ≤ 8) ∧
      (profile ≠ .custom → relays = []) := by
  unfold validateNetwork at h
  split at h
  · -- the profiles that are atoms have no relays
    repeat' split at h
    all_goals cases h
    all_goals exact ⟨nofun, fun _ => rfl⟩
  · split at h
    · next hguard =>
        split at h
        · next relays' hrelays =>
            split at h
            · obtain ⟨rfl, rfl⟩ := Prod.mk.injEq .. ▸ Except.ok.inj h
              rw [← relays_length hrelays] at hguard
              exact ⟨fun _ => hguard.2, fun hcustom => absurd rfl hcustom⟩
            · cases h
        · cases h
    · cases h
  · cases h

theorem validateBind_eq_ok {t : Term} {addrs : List Binary} (h : validateBind t = .ok addrs) :
    addrs.length ≤ 8 := by
  unfold validateBind at h
  split at h
  · split at h
    · next hlength =>
        split at h
        · next addrs' haddrs =>
            obtain rfl := Except.ok.inj h
            rw [binaries_length haddrs]
            exact hlength
        · cases h
    · cases h
  · cases h

theorem validateDirectIp_eq_ok {t : Term} {addrs : List Binary} {directIp : Bool}
    (h : validateDirectIp t addrs = .ok directIp) : directIp = true ∨ addrs = [] := by
  unfold validateDirectIp at h
  split at h
  · split at h
    · next hdirect =>
        obtain rfl := Except.ok.inj h
        exact hdirect
    · cases h
  · cases h

theorem validateLimits_eq_ok {t : Term} {limits : EndpointLimits}
    (h : validateLimits t = .ok limits) :
    0 < limits.maxConnections ∧ 0 < limits.maxPendingAccepts := by
  unfold validateLimits at h
  split at h
  · split at h
    · split at h
      · next hpositive =>
          obtain rfl := Except.ok.inj h
          exact ⟨natOf_pos hpositive.2, natOf_pos hpositive.1⟩
      · cases h
    · cases h
  · cases h

theorem validateOptions_accepted {keys : SecretKeyNif} {options : List Term} {e : EndpointConfig}
    (h : validateOptions keys options = .ok e) : e.Accepted := by
  unfold validateOptions at h
  split at h
  · obtain ⟨secretKey, -, h⟩ := bind_eq_ok h
    obtain ⟨alpns, halpns, h⟩ := bind_eq_ok h
    obtain ⟨⟨profile, relays⟩, hnetwork, h⟩ := bind_eq_ok h
    obtain ⟨bindAddrs, hbind, h⟩ := bind_eq_ok h
    obtain ⟨directIp, hdirect, h⟩ := bind_eq_ok h
    obtain ⟨startupTimeout, -, h⟩ := bind_eq_ok h
    obtain ⟨shutdownTimeout, -, h⟩ := bind_eq_ok h
    obtain ⟨limits, hlimits, h⟩ := bind_eq_ok h
    obtain ⟨addressBook, -, h⟩ := bind_eq_ok h
    obtain ⟨peerAllowlist, -, h⟩ := bind_eq_ok h
    obtain ⟨-, -, h⟩ := bind_eq_ok h
    obtain rfl := Except.ok.inj h
    obtain ⟨hlength, hvalid, hunique⟩ := validateAlpns_eq_ok halpns
    obtain ⟨hcustom, hnone⟩ := validateNetwork_eq_ok hnetwork
    obtain ⟨hconnections, haccepts⟩ := validateLimits_eq_ok hlimits
    exact ⟨hlength, hvalid, hunique, validateBind_eq_ok hbind, validateDirectIp_eq_ok hdirect,
      hcustom, hnone, hconnections, haccepts⟩
  · cases h

end Endpoint

/-! ### Loops that answer with the first error -/

theorem mapM_isOk_iff {α β ε : Type} {f : α → Except ε β} (as : List α) :
    (∃ bs, as.mapM f = .ok bs) ↔ ∀ a ∈ as, ∃ b, f a = .ok b := by
  induction as with
  | nil => exact ⟨fun _ => nofun, fun _ => ⟨[], rfl⟩⟩
  | cons a as ih =>
      rw [List.forall_mem_cons, ← ih]
      constructor
      · rintro ⟨bs, h⟩
        rw [List.mapM_cons] at h
        obtain ⟨b, hb, h⟩ := bind_eq_ok h
        obtain ⟨rest, hrest, -⟩ := bind_eq_ok h
        exact ⟨⟨b, hb⟩, rest, hrest⟩
      · rintro ⟨⟨b, hb⟩, rest, hrest⟩
        refine ⟨b :: rest, ?_⟩
        rw [List.mapM_cons, hb, hrest]
        rfl

/-- An error of the loop is one of a round. -/
theorem mapM_eq_error {α β ε : Type} {f : α → Except ε β} {as : List α} {e : ε}
    (h : as.mapM f = .error e) : ∃ a ∈ as, f a = .error e := by
  induction as with
  | nil => cases h
  | cons a as ih =>
      rw [List.mapM_cons] at h
      cases ha : f a with
      | error e' =>
          rw [ha] at h
          obtain rfl := Except.error.inj h
          exact ⟨a, List.mem_cons_self, ha⟩
      | ok b =>
          rw [ha] at h
          cases hrest : as.mapM f with
          | error e' =>
              rw [hrest] at h
              obtain rfl := Except.error.inj h
              obtain ⟨c, hc, hce⟩ := ih hrest
              exact ⟨c, List.mem_cons_of_mem a hc, hce⟩
          | ok bs =>
              rw [hrest] at h
              cases h

theorem length_of_mapM {α β : Type} {f : α → Option β} {as : List α} {bs : List β}
    (h : as.mapM f = some bs) : bs.length = as.length := by
  induction as generalizing bs with
  | nil =>
      obtain rfl := Option.some.inj h
      rfl
  | cons a as ih =>
      rw [List.mapM_cons] at h
      obtain ⟨b, -, h⟩ := Option.bind_eq_some_iff.mp h
      obtain ⟨rest, hrest, h⟩ := Option.bind_eq_some_iff.mp h
      obtain rfl := Option.some.inj h
      exact congrArg (· + 1) (ih hrest)

/-! ### What is left to check -/

section Verdict

variable {Id Url Socket Other : Type} [LinearOrder Url] [LinearOrder Socket] [LinearOrder Other]
variable (lib : IdentityLib Id Url Socket Other) (isIpv4 : Socket → Bool) (utf8 : Binary → Bool)

/-- A URL that the native parser takes. -/
def Relay.Usable (relay : Relay) : Prop :=
  ∃ url, lib.urlFromStr relay.url = some url ∧ isPlainUrl lib url = true

/-- Bind addresses that parse, one for each IP family. -/
def BindsApart (bindAddrs : List Binary) : Prop :=
  ∃ addrs, bindAddrs.mapM lib.socketFromStr = some addrs ∧ (addrs.map isIpv4).Nodup

/-- What the native layer asks for beyond `EndpointConfig.Accepted`. -/
structure EndpointConfig.Binds (e : EndpointConfig) : Prop where
  texts : ∀ text ∈ e.nativeOptions.texts, utf8 text = true
  connections : e.limits.maxConnections ≤ 1000000
  accepts : e.limits.maxPendingAccepts ≤ 1024
  bind : BindsApart lib isIpv4 e.bindAddrs
  relays : ∀ relay ∈ e.relays, relay.Usable lib

/-- The refusals that an accepted configuration can still meet. -/
def bindRefusals : List String :=
  ["endpoint limits are outside the supported range",
   "bind address is invalid",
   "only one bind address per IP family is supported",
   "custom relay URL is invalid",
   "custom relay URL must be HTTP(S) without credentials"]

def Error.BindRefused (e : Error) : Prop :=
  ∃ message ∈ bindRefusals, e = ⟨.invalidArgument, .endpointBind, message⟩

/-- The answer says whether `P` holds, and refuses with one of these. -/
structure BindVerdict {α : Type} (answer : Except Error α) (P : Prop) : Prop where
  accepts : (∃ a, answer = .ok a) ↔ P
  refuses : ∀ e, answer = .error e → e.BindRefused

theorem BindVerdict.ok {α : Type} (a : α) {P : Prop} (hP : P) : BindVerdict (.ok a) P :=
  ⟨⟨fun _ => hP, fun _ => ⟨a, rfl⟩⟩, nofun⟩

theorem BindVerdict.invalid {α : Type} {message : String} {P : Prop}
    (hmessage : message ∈ bindRefusals) (hP : ¬ P) :
    BindVerdict (invalidBind message : Except Error α) P := by
  refine ⟨⟨?_, fun h => absurd h hP⟩, ?_⟩
  · rintro ⟨a, ha⟩
    cases ha
  · rintro e he
    exact ⟨message, hmessage, (Except.error.inj he).symm⟩

theorem BindVerdict.map {α β : Type} {answer : Except Error α} {P Q : Prop}
    (h : BindVerdict answer P) (f : α → β) (hPQ : P ↔ Q) : BindVerdict (answer.map f) Q := by
  cases answer with
  | ok a => exact .ok (f a) (hPQ.mp (h.accepts.mp ⟨a, rfl⟩))
  | error e =>
      refine ⟨⟨nofun, fun hQ => ?_⟩, fun e' he' => h.refuses e' ?_⟩
      · obtain ⟨a, ha⟩ := h.accepts.mpr (hPQ.mpr hQ)
        cases ha
      · exact congrArg Except.error (Except.error.inj he')

/-- A loop accepts if all of its rounds do. -/
theorem BindVerdict.mapM {α β : Type} {f : α → Except Error β} {P : α → Prop} {as : List α}
    (h : ∀ a ∈ as, BindVerdict (f a) (P a)) : BindVerdict (as.mapM f) (∀ a ∈ as, P a) := by
  refine ⟨?_, ?_⟩
  · rw [mapM_isOk_iff]
    exact forall₂_congr fun a ha => (h a ha).accepts
  · intro e he
    obtain ⟨a, ha, hfailed⟩ := mapM_eq_error he
    exact (h a ha).refuses e hfailed

/-- The answer as the caller sees it, whose arguments have been decoded. -/
theorem BindVerdict.lift {α : Type} {answer : Except Error α} {P : Prop} (h : BindVerdict answer P) :
    ((∃ a, liftNif answer = .ok a) ↔ P) ∧
      ∀ failure, liftNif answer = .error failure →
        failure = .raised ∨ ∃ err : Error, failure = .error err ∧ err.BindRefused := by
  rw [← h.accepts]
  cases answer with
  | ok a => exact ⟨⟨fun _ => ⟨a, rfl⟩, fun _ => ⟨a, rfl⟩⟩, nofun⟩
  | error e =>
      refine ⟨⟨nofun, nofun⟩, fun failure hfailure => Or.inr ⟨e, ?_, h.refuses e rfl⟩⟩
      exact (Except.error.inj hfailure).symm

variable {lib isIpv4 utf8}

/-- There are no more families than two. -/
theorem BindsApart.length_le {bindAddrs : List Binary} (h : BindsApart lib isIpv4 bindAddrs) :
    bindAddrs.length ≤ 2 := by
  obtain ⟨addrs, hparse, hnodup⟩ := h
  rw [← length_of_mapM hparse, ← List.length_map isIpv4]
  exact hnodup.length_le_card

/-- One round of the loop, for a relay that was made by `Relay.new/2`. -/
theorem parseRelay_made {uriNew : Binary → Option Uri} {uriToString : Uri → Binary} {relay : Relay}
    (h : relay.Made uriNew uriToString) :
    BindVerdict (parseRelay lib relay) (relay.Usable lib) := by
  unfold parseRelay Relay.Usable
  cases hurl : lib.urlFromStr relay.url with
  | none =>
      refine .invalid (by simp [bindRefusals]) ?_
      rintro ⟨url, hurl', -⟩
      cases hurl'
  | some url =>
      by_cases hplain : isPlainUrl lib url = true
      · have husable : ∃ url', some url = some url' ∧ isPlainUrl lib url' = true :=
          ⟨url, rfl, hplain⟩
        simp only [hplain, if_true]
        cases htoken : relay.token with
        | none => exact .ok _ husable
        | some token =>
            -- the check of the token repeats that of `Relay.new/2`
            simp only [if_neg (relayNew_token h htoken)]
            exact .ok _ husable
      · simp only [hplain]
        refine .invalid (by simp [bindRefusals]) ?_
        rintro ⟨url', hurl', hplain'⟩
        obtain rfl := Option.some.inj hurl'
        exact absurd hplain' hplain

/-- Every relay was made by `Relay.new/2`. -/
def EndpointConfig.RelaysMade (uriNew : Binary → Option Uri) (uriToString : Uri → Binary)
    (e : EndpointConfig) : Prop :=
  ∀ relay ∈ e.relays, relay.Made uriNew uriToString

theorem parseRelays_accepted {uriNew : Binary → Option Uri} {uriToString : Uri → Binary}
    {e : EndpointConfig} (h : e.Accepted) (hmade : e.RelaysMade uriNew uriToString) :
    BindVerdict (parseRelays lib e.profile e.relays) (∀ relay ∈ e.relays, relay.Usable lib) := by
  unfold parseRelays
  by_cases hprofile : e.profile = .custom
  · obtain ⟨hone, height⟩ := h.custom hprofile
    have hfew : ¬ (e.relays = [] ∨ 8 < e.relays.length) := by
      rintro (hnil | hmany)
      · rw [hnil] at hone
        cases hone
      · exact absurd height (Nat.not_le.mpr hmany)
    rw [if_pos hprofile, if_neg hfew]
    exact (BindVerdict.mapM fun relay hrelay => parseRelay_made (hmade relay hrelay)).map _ Iff.rfl
  · have hnil := h.relays hprofile
    rw [if_neg hprofile, if_neg (not_not_intro hnil), hnil]
    exact .ok none nofun

/-- The checks of `parse_config` that are left for an accepted configuration. -/
theorem parseConfig_accepted {e : EndpointConfig} (h : e.Accepted) :
    parseConfig lib isIpv4 e.nativeOptions =
      match e.bindAddrs.mapM lib.socketFromStr with
      | none => invalidBind "bind address is invalid"
      | some addrs =>
          if ¬ (addrs.map isIpv4).Nodup then
            invalidBind "only one bind address per IP family is supported"
          else
            (parseRelays lib e.profile e.relays).map fun relayMap =>
              ⟨e.profile, e.alpns, addrs, relayMap, e.directIp⟩ := by
  have hfew : ¬ (e.alpns = [] ∨ 16 < e.alpns.length) := by
    rintro (hnil | hmany)
    · have hone := h.alpns.1
      rw [hnil] at hone
      cases hone
    · exact absurd h.alpns.2 (Nat.not_le.mpr hmany)
  have hvalid : ¬ (e.alpns.any fun alpn => alpn = [] ∨ 255 < alpn.length ∨ 0 ∈ alpn) = true := by
    intro hany
    obtain ⟨a, ha, hbad⟩ := List.any_eq_true.mp hany
    have hgood := h.alpn a ha
    simp only [Endpoint.validAlpn, Bool.and_eq_true, decide_eq_true_eq] at hgood hbad
    rcases hbad with rfl | hlong | hnul
    · cases hgood.1.1
    · exact absurd hgood.1.2 (Nat.not_le.mpr hlong)
    · exact hgood.2 hnul
  have hdirect : ¬ (e.directIp = false ∧ e.bindAddrs ≠ []) := by
    rintro ⟨hindirect, hbind⟩
    rcases h.direct with hd | hnil
    · rw [hd] at hindirect
      cases hindirect
    · exact hbind hnil
  unfold parseConfig EndpointConfig.nativeOptions
  simp only [if_neg hfew, if_neg hvalid, if_neg (not_not_intro h.unique),
    if_neg (Nat.not_lt.mpr h.bind), if_neg hdirect]
  cases e.bindAddrs.mapM lib.socketFromStr with
  | none => rfl
  | some addrs =>
      cases parseRelays lib e.profile e.relays <;> rfl

theorem parseConfig_verdict {uriNew : Binary → Option Uri} {uriToString : Uri → Binary}
    {e : EndpointConfig} (h : e.Accepted) (hmade : e.RelaysMade uriNew uriToString) :
    BindVerdict (parseConfig lib isIpv4 e.nativeOptions)
      (BindsApart lib isIpv4 e.bindAddrs ∧ ∀ relay ∈ e.relays, relay.Usable lib) := by
  rw [parseConfig_accepted h]
  unfold BindsApart
  cases hbind : e.bindAddrs.mapM lib.socketFromStr with
  | none =>
      refine .invalid (by simp [bindRefusals]) ?_
      rintro ⟨⟨addrs, haddrs, -⟩, -⟩
      cases haddrs
  | some addrs =>
      by_cases hapart : (addrs.map isIpv4).Nodup
      · simp only [if_neg (not_not_intro hapart)]
        refine (parseRelays_accepted h hmade).map _ ?_
        exact ⟨fun hrelays => ⟨⟨addrs, rfl, hapart⟩, hrelays⟩, And.right⟩
      · simp only [if_pos hapart]
        refine .invalid (by simp [bindRefusals]) ?_
        rintro ⟨⟨addrs', haddrs, happart'⟩, -⟩
        obtain rfl := Option.some.inj haddrs
        exact hapart happart'

theorem endpointBindStart_accepted {uriNew : Binary → Option Uri} {uriToString : Uri → Binary}
    {e : EndpointConfig} (h : e.Accepted) (hmade : e.RelaysMade uriNew uriToString) :
    ((∃ config, endpointBindStart lib isIpv4 utf8 e.nativeOptions = .ok config) ↔
        e.Binds lib isIpv4 utf8) ∧
      ∀ failure, endpointBindStart lib isIpv4 utf8 e.nativeOptions = .error failure →
        failure = .raised ∨ ∃ err : Error, failure = .error err ∧ err.BindRefused := by
  unfold endpointBindStart
  by_cases hdecodes : e.nativeOptions.texts.all utf8 ∧ e.nativeOptions.maxConnections < 2 ^ 64 ∧
      e.nativeOptions.maxPendingAccepts < 2 ^ 64
  · rw [if_pos hdecodes]
    split
    · next hlimits =>
        refine BindVerdict.lift (.invalid List.mem_cons_self ?_)
        -- the lower bounds have been checked
        intro hb
        rcases hlimits with hzero | hmany | hzero | hmany
        · exact absurd hzero (Nat.pos_iff_ne_zero.mp h.connections)
        · exact absurd hb.connections (Nat.not_le.mpr hmany)
        · exact absurd hzero (Nat.pos_iff_ne_zero.mp h.accepts)
        · exact absurd hb.accepts (Nat.not_le.mpr hmany)
    · next hlimits =>
        have hverdict := @parseConfig_verdict _ _ _ _ _ _ _ lib isIpv4 _ _ _ h hmade
        refine BindVerdict.lift ⟨hverdict.accepts.trans ⟨?_, ?_⟩, hverdict.refuses⟩
        · rintro ⟨hbind, hrelays⟩
          exact
            { texts := List.all_eq_true.mp hdecodes.1
              connections := Nat.not_lt.mp fun hmany => hlimits (Or.inr (Or.inl hmany))
              accepts := Nat.not_lt.mp fun hmany => hlimits (Or.inr (Or.inr (Or.inr hmany)))
              bind := hbind
              relays := hrelays }
        · intro hb
          exact ⟨hb.bind, hb.relays⟩
  · rw [if_neg hdecodes]
    refine ⟨⟨nofun, ?_⟩, fun failure hfailure => Or.inl (Except.error.inj hfailure).symm⟩
    -- a bounded limit fits a machine word
    intro hb
    refine absurd ⟨List.all_eq_true.mpr hb.texts, ?_, ?_⟩ hdecodes
    · exact lt_of_le_of_lt hb.connections (by decide)
    · exact lt_of_le_of_lt hb.accepts (by decide)

/-- The native layer takes the options that `Endpoint.validate_options/1` has
accepted exactly if `Binds` holds of them, and otherwise refuses with one of five
messages. -/
theorem bind_accepts_iff {keys : SecretKeyNif} {options : List Term} {e : EndpointConfig}
    (h : Endpoint.validateOptions keys options = .ok e) {uriNew : Binary → Option Uri}
    {uriToString : Uri → Binary} (hmade : e.RelaysMade uriNew uriToString) :
    ((∃ config, endpointBindStart lib isIpv4 utf8 e.nativeOptions = .ok config) ↔
        e.Binds lib isIpv4 utf8) ∧
      (e.Binds lib isIpv4 utf8 → e.bindAddrs.length ≤ 2) ∧
      ∀ failure, endpointBindStart lib isIpv4 utf8 e.nativeOptions = .error failure →
        failure = .raised ∨ ∃ err : Error, failure = .error err ∧ err.BindRefused := by
  obtain ⟨haccepts, hrefuses⟩ :=
    @endpointBindStart_accepted _ _ _ _ _ _ _ lib isIpv4 utf8 _ _ _
      (Endpoint.validateOptions_accepted h) hmade
  exact ⟨haccepts, fun hb => hb.bind.length_le, hrefuses⟩

/-- The texts of a distribution configuration. -/
def Config.nativeTexts (c : Config) : List Binary :=
  c.bind ++ c.network.relays.map Relay.url ++ c.network.relays.filterMap Relay.token

/-- An accepted configuration of the distribution, behind all the validators: the
endpoint starts to bind exactly if no relay URL is listed twice, its texts are
UTF-8, and the native parsers take its bind addresses and relay URLs. -/
theorem distribution_starts_iff {nif : IdentityNif} {keys : SecretKeyNif} {options : Term}
    {mode : Mode} {c : Config} {key : SecretKey} (h : validate nif options mode = .ok c)
    (hkey : Endpoint.resolveIdentity keys c.identity.toTerm = .ok key)
    {uriNew : Binary → Option Uri} {uriToString : Uri → Binary}
    (hmade : ∀ relay ∈ c.network.relays, relay.Made uriNew uriToString)
    (halpn : utf8 alpn = true) :
    (∃ e config, Endpoint.validateOptions keys c.endpointOptions = .ok e ∧
        endpointBindStart lib isIpv4 utf8 e.nativeOptions = .ok config) ↔
      (c.network.relays.map Relay.url).Nodup ∧ (∀ text ∈ c.nativeTexts, utf8 text = true) ∧
        BindsApart lib isIpv4 c.bind ∧ ∀ relay ∈ c.network.relays, relay.Usable lib := by
  have hoptions := endpoint_validateOptions h hkey
  have htexts : (∀ text ∈ (c.endpointConfig key).nativeOptions.texts, utf8 text = true) ↔
      ∀ text ∈ c.nativeTexts, utf8 text = true := by
    show (∀ text ∈ alpn :: c.nativeTexts, utf8 text = true) ↔ _
    rw [List.forall_mem_cons]
    exact and_iff_right halpn
  constructor
  · rintro ⟨e, config, he, hconfig⟩
    have hurls : (c.network.relays.map Relay.url).Nodup := by
      by_contra hdup
      rw [hoptions, if_neg hdup] at he
      cases he
    rw [hoptions, if_pos hurls] at he
    obtain rfl := Except.ok.inj he
    rw [if_pos hurls] at hoptions
    have hb := (endpointBindStart_accepted (Endpoint.validateOptions_accepted hoptions) hmade).1.mp
      ⟨config, hconfig⟩
    exact ⟨hurls, htexts.mp hb.texts, hb.bind, hb.relays⟩
  · rintro ⟨hurls, hutf8, hbind, hrelays⟩
    rw [if_pos hurls] at hoptions
    have hb : (c.endpointConfig key).Binds lib isIpv4 utf8 :=
      { texts := htexts.mpr hutf8
        -- the limits are those of the first validator
        connections := (validate_limits h).maxConnections.2
        accepts := show 1 ≤ 1024 by decide
        bind := hbind
        relays := hrelays }
    obtain ⟨config, hconfig⟩ :=
      (endpointBindStart_accepted (Endpoint.validateOptions_accepted hoptions) hmade).1.mpr hb
    exact ⟨c.endpointConfig key, config, hoptions, hconfig⟩

end Verdict

/-! ### One relay -/

/-- The URIs of one host. -/
def sampleUri (text : Binary) : Option Uri :=
  if WireUrl.base.isPrefixOf text then
    some ⟨some (ascii "https"), some (ascii "relay.example"), none,
      some (47 :: text.drop WireUrl.base.length), none, none⟩
  else none

def sampleUriText (uri : Uri) : Binary :=
  uri.scheme.getD [] ++ ascii "://" ++ uri.host.getD [] ++ uri.path.getD []

def sampleRelay : Relay := ⟨ascii "https://relay.example/abc", some (ascii "t")⟩

theorem sampleRelay_made : sampleRelay.Made sampleUri sampleUriText :=
  ⟨ascii "https://relay.example/abc", .binary (ascii "t"), by decide⟩

def nativeSampleOptions : Term :=
  .list
    [.tuple [.atom (atom "name"), .atom (atom "a@h")],
     .tuple [.atom (atom "identity"), .atom (atom "ephemeral")],
     .tuple [.atom (atom "network"), .tuple [.atom (atom "custom"), .list [.relay sampleRelay]]]]

def nativeSampleConfig : Config :=
  { sampleConfig with
    network := .custom [sampleRelay]
    peers := ∅
    ids := ∅ }

/-- The URL parses to itself. -/
theorem sampleRelay_usable : sampleRelay.Usable wireLib :=
  ⟨⟨ascii "abc", rfl⟩, by decide, rfl⟩

theorem bind_accepts_iff_sample :
    ∃ e, Endpoint.validateOptions sampleKeys nativeSampleConfig.endpointOptions = .ok e ∧
      ∃ config, endpointBindStart wireLib (fun _ => true) (fun _ => true) e.nativeOptions =
        .ok config := by
  obtain ⟨e, he, hrelays, hbind, hlimits⟩ : ∃ e,
      Endpoint.validateOptions sampleKeys nativeSampleConfig.endpointOptions = .ok e ∧
        e.relays = [sampleRelay] ∧ e.bindAddrs = [] ∧ e.limits = ⟨1, 1024⟩ := ⟨_, rfl, rfl, rfl, rfl⟩
  have hmade : e.RelaysMade sampleUri sampleUriText := by
    intro relay hrelay
    rw [hrelays] at hrelay
    obtain rfl := List.mem_singleton.mp hrelay
    exact sampleRelay_made
  refine ⟨e, he, (bind_accepts_iff he hmade).1.mpr ?_⟩
  exact
    { texts := fun _ _ => rfl
      connections := by rw [hlimits]; decide
      accepts := by rw [hlimits]; decide
      bind := by rw [hbind]; exact ⟨[], rfl, List.nodup_nil⟩
      relays := by
        intro relay hrelay
        rw [hrelays] at hrelay
        obtain rfl := List.mem_singleton.mp hrelay
        exact sampleRelay_usable }

theorem distribution_starts_iff_sample :
    ∃ e config, Endpoint.validateOptions sampleKeys nativeSampleConfig.endpointOptions = .ok e ∧
      endpointBindStart wireLib (fun _ => true) (fun _ => true) e.nativeOptions = .ok config := by
  have hvalid : validate sampleNif nativeSampleOptions .dynamic = .ok nativeSampleConfig := rfl
  have hkey : Endpoint.resolveIdentity sampleKeys nativeSampleConfig.identity.toTerm = .ok ⟨0⟩ := rfl
  have hmem : ∀ relay ∈ nativeSampleConfig.network.relays, relay = sampleRelay :=
    fun relay hrelay => List.mem_singleton.mp hrelay
  refine (distribution_starts_iff hvalid hkey
    (fun relay hrelay => hmem relay hrelay ▸ sampleRelay_made) rfl).mpr ?_
  exact ⟨List.nodup_singleton _, fun _ _ => rfl, ⟨[], rfl, List.nodup_nil⟩,
    fun relay hrelay => hmem relay hrelay ▸ sampleRelay_usable⟩

end IrohBeam
