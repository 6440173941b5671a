/-
IrohBeam/Addresses.lean

Endpoint addresses in the native layer (`native/iroh_beam_nif/src/identity.rs`,
and `parse_target` of `connection.rs`).

What comes from libraries is a parameter, `IdentityLib`: the identities, the URLs
and socket addresses with their parsers and printers, and the binary form of a
ticket.  `IdentityLib.Lawful` is what is used of them: a printed value parses to
itself, and decoding a ticket undoes encoding it.  Text arguments are binaries;
one that is not UTF-8 does not get as far as this code.

`build_addr` is the check every address passes when it is made from strings.
`buildAddr_normalize` says which addresses pass it once more after they have been
printed: the same limits, now on the printed URLs.
-/
import IrohBeam.Config
import IrohBeam.IdentityFile
import IrohBeam.SortedSet
import Mathlib.Data.Sum.Order

namespace IrohBeam

open Bytes

/-! ### Transport addresses -/

/-- `TransportAddr`.  `other` stands for the transports this layer ignores. -/
inductive TransportAddr (Url Socket Other : Type) where
  | relay (url : Url)
  | ip (addr : Socket)
  | other (value : Other)

namespace TransportAddr

variable {Url Socket Other : Type}

/-- The derived order: by variant, then by value. -/
def rank : TransportAddr Url Socket Other → Url ⊕ₗ (Socket ⊕ₗ Other)
  | .relay url => Sum.inlₗ url
  | .ip addr => Sum.inrₗ (Sum.inlₗ addr)
  | .other value => Sum.inrₗ (Sum.inrₗ value)

theorem rank_injective : Function.Injective (@rank Url Socket Other) := by
  intro a b h
  cases a <;> cases b <;> simp_all [rank]

variable [LinearOrder Url] [LinearOrder Socket] [LinearOrder Other]

instance : LinearOrder (TransportAddr Url Socket Other) := LinearOrder.lift' rank rank_injective

theorem relay_lt {a b : Url} :
    (relay a : TransportAddr Url Socket Other) < relay b ↔ a < b := Sum.Lex.inl_lt_inl_iff

theorem ip_lt {a b : Socket} : (ip a : TransportAddr Url Socket Other) < ip b ↔ a < b :=
  Sum.Lex.inr_lt_inr_iff.trans Sum.Lex.inl_lt_inl_iff

def asRelay : TransportAddr Url Socket Other → Option Url
  | .relay url => some url
  | _ => none

def asIp : TransportAddr Url Socket Other → Option Socket
  | .ip addr => some addr
  | _ => none

end TransportAddr

/-- `EndpointAddr` of the native layer: an identity and a set of addresses. -/
structure NativeAddr (Id Url Socket Other : Type) [LinearOrder Url] [LinearOrder Socket]
    [LinearOrder Other] where
  id : Id
  addrs : SortedSet (TransportAddr Url Socket Other)

section Native

variable {Id Url Socket Other : Type} [LinearOrder Url] [LinearOrder Socket] [LinearOrder Other]

/-- `relay_urls()`, in the order of the set. -/
def NativeAddr.relayUrls (a : NativeAddr Id Url Socket Other) : List Url :=
  a.addrs.elems.filterMap TransportAddr.asRelay

/-- `ip_addrs()`. -/
def NativeAddr.ipAddrs (a : NativeAddr Id Url Socket Other) : List Socket :=
  a.addrs.elems.filterMap TransportAddr.asIp

theorem NativeAddr.relayUrls_sorted (a : NativeAddr Id Url Socket Other) :
    a.relayUrls.Pairwise (· < ·) := by
  refine a.addrs.sorted.filterMap _ ?_
  intro x y hlt u hu v hv
  cases x <;> cases y <;> simp only [TransportAddr.asRelay, Option.some.injEq, reduceCtorEq] at hu hv
  subst hu hv
  exact TransportAddr.relay_lt.mp hlt

theorem NativeAddr.ipAddrs_sorted (a : NativeAddr Id Url Socket Other) :
    a.ipAddrs.Pairwise (· < ·) := by
  refine a.addrs.sorted.filterMap _ ?_
  intro x y hlt u hu v hv
  cases x <;> cases y <;> simp only [TransportAddr.asIp, Option.some.injEq, reduceCtorEq] at hu hv
  subst hu hv
  exact TransportAddr.ip_lt.mp hlt

/-- `EndpointAddr::from_parts`, with the addresses `build_addr` collects. -/
def NativeAddr.fromParts (id : Id) (urls : List Url) (sockets : List Socket) :
    NativeAddr Id Url Socket Other :=
  ⟨id, .ofList (urls.map .relay ++ sockets.map .ip)⟩

theorem NativeAddr.mem_relayUrls_fromParts {id : Id} {urls : List Url} {sockets : List Socket}
    {u : Url} : u ∈ (fromParts id urls sockets : NativeAddr Id Url Socket Other).relayUrls ↔
      u ∈ urls := by
  rw [relayUrls, List.mem_filterMap]
  constructor
  · rintro ⟨x, hx, hu⟩
    rw [fromParts, SortedSet.mem_ofList] at hx
    cases x with
    | relay v =>
        obtain rfl := Option.some.inj hu
        simpa using hx
    | ip _ => cases hu
    | other _ => cases hu
  · intro hu
    exact ⟨.relay u, by simp [fromParts, hu], rfl⟩

theorem NativeAddr.mem_ipAddrs_fromParts {id : Id} {urls : List Url} {sockets : List Socket}
    {s : Socket} : s ∈ (fromParts id urls sockets : NativeAddr Id Url Socket Other).ipAddrs ↔
      s ∈ sockets := by
  rw [ipAddrs, List.mem_filterMap]
  constructor
  · rintro ⟨x, hx, hs⟩
    rw [fromParts, SortedSet.mem_ofList] at hx
    cases x with
    | relay _ => cases hs
    | ip v =>
        obtain rfl := Option.some.inj hs
        simpa using hx
    | other _ => cases hs
  · intro hs
    exact ⟨.ip s, by simp [fromParts, hs], rfl⟩

/-- What an address lists, it lists again when it is made from that. -/
theorem NativeAddr.fromParts_relayUrls (a : NativeAddr Id Url Socket Other) :
    (fromParts a.id a.relayUrls a.ipAddrs : NativeAddr Id Url Socket Other).relayUrls =
      a.relayUrls :=
  SortedSet.eq_of_mem_iff (relayUrls_sorted _) a.relayUrls_sorted fun _ => mem_relayUrls_fromParts

theorem NativeAddr.fromParts_ipAddrs (a : NativeAddr Id Url Socket Other) :
    (fromParts a.id a.relayUrls a.ipAddrs : NativeAddr Id Url Socket Other).ipAddrs = a.ipAddrs :=
  SortedSet.eq_of_mem_iff (ipAddrs_sorted _) a.ipAddrs_sorted fun _ => mem_ipAddrs_fromParts

/-- A set lists no more than it was made from. -/
theorem NativeAddr.length_fromParts (id : Id) (urls : List Url) (sockets : List Socket) :
    (fromParts id urls sockets : NativeAddr Id Url Socket Other).relayUrls.length +
      (fromParts id urls sockets : NativeAddr Id Url Socket Other).ipAddrs.length ≤
        urls.length + sockets.length := by
  generalize ha : (fromParts id urls sockets : NativeAddr Id Url Socket Other) = a
  have hurls : a.relayUrls.Nodup := a.relayUrls_sorted.imp fun h => ne_of_lt h
  have hsockets : a.ipAddrs.Nodup := a.ipAddrs_sorted.imp fun h => ne_of_lt h
  subst ha
  have h1 := (hurls.subperm fun u hu => mem_relayUrls_fromParts.mp hu).length_le
  have h2 := (hsockets.subperm fun s hs => mem_ipAddrs_fromParts.mp hs).length_le
  exact Nat.add_le_add h1 h2

end Native

/-! ### The libraries -/

/-- What is used of the libraries: `EndpointId`, `RelayUrl`, `SocketAddr` and the
binary form of `EndpointTicket`. -/
structure IdentityLib (Id Url Socket Other : Type) [LinearOrder Url] [LinearOrder Socket]
    [LinearOrder Other] where
  /-- `EndpointId::from_bytes`. -/
  idFromBytes : Binary → Option Id
  idFromStr : Binary → Option Id
  /-- `to_string()` with `as_bytes()`. -/
  canonical : Id → CanonicalId
  urlFromStr : Binary → Option Url
  urlToString : Url → Binary
  scheme : Url → Binary
  hostStr : Url → Option Binary
  username : Url → Binary
  password : Url → Option Binary
  query : Url → Option Binary
  fragment : Url → Option Binary
  socketFromStr : Binary → Option Socket
  socketToString : Socket → Binary
  encodeBytes : NativeAddr Id Url Socket Other → Binary
  decodeBytes : Binary → Option (NativeAddr Id Url Socket Other)

/-- A printed value parses to itself, and decoding a ticket undoes encoding it. -/
structure IdentityLib.Lawful {Id Url Socket Other : Type} [LinearOrder Url] [LinearOrder Socket]
    [LinearOrder Other] (lib : IdentityLib Id Url Socket Other) : Prop where
  id_length : ∀ k, (lib.canonical k).bytes.length = keySize
  id_bytes : ∀ k, lib.idFromBytes (lib.canonical k).bytes = some k
  id_text : ∀ k, lib.idFromStr (lib.canonical k).text = some k
  url : ∀ u, lib.urlFromStr (lib.urlToString u) = some u
  socket : ∀ s, lib.socketFromStr (lib.socketToString s) = some s
  ticket : ∀ a, lib.decodeBytes (lib.encodeBytes a) = some a

/-! ### `build_addr` -/

/-- `MAX_ADDRS`. -/
def maxAddrs : ℕ := 64

/-- `MAX_RELAY_URL_BYTES`. -/
def maxRelayUrlBytes : ℕ := 2048

section Build

variable {Id Url Socket Other : Type} [LinearOrder Url] [LinearOrder Socket] [LinearOrder Other]
variable (lib : IdentityLib Id Url Socket Other)

/-- `id_from_bytes`. -/
def buildId (bytes : Binary) : Except Error Id :=
  if bytes.length = keySize then
    match lib.idFromBytes bytes with
    | some id => .ok id
    | none => .error ⟨.invalidArgument, .endpointId, "endpoint ID is not a valid public key"⟩
  else .error ⟨.invalidArgument, .endpointId, "endpoint ID must contain exactly 32 bytes"⟩

/-- An HTTP(S) URL without credentials. -/
def isPlainUrl (url : Url) : Bool :=
  (lib.scheme url == ascii "http" || lib.scheme url == ascii "https") &&
    (lib.hostStr url).isSome && (lib.username url).isEmpty && (lib.password url).isNone &&
    (lib.query url).isNone && (lib.fragment url).isNone

/-- One round of the loop over `relay_urls`. -/
def buildRelay (value : Binary) : Except Error Url :=
  if maxRelayUrlBytes < value.length then
    .error ⟨.invalidArgument, .endpointAddr, "relay URL is too long"⟩
  else
    match lib.urlFromStr value with
    | none => .error ⟨.invalidArgument, .endpointAddr, "relay URL is invalid"⟩
    | some url =>
        if isPlainUrl lib url then .ok url
        else .error ⟨.invalidArgument, .endpointAddr,
          "relay URL must be an HTTP(S) URL without credentials"⟩

/-- One round of the loop over `ip_addrs`. -/
def buildIp (value : Binary) : Except Error Socket :=
  match lib.socketFromStr value with
  | none => .error ⟨.invalidArgument, .endpointAddr, "IP socket address is invalid"⟩
  | some addr => .ok addr

/-- `build_addr`. -/
def buildAddr (endpointId : Binary) (relayUrls ipAddrs : List Binary) :
    Except Error (NativeAddr Id Url Socket Other) :=
  if maxAddrs < relayUrls.length + ipAddrs.length then
    .error ⟨.invalidArgument, .endpointAddr,
      "endpoint address contains too many transport addresses"⟩
  else do
    let id ← buildId lib endpointId
    let urls ← relayUrls.mapM (buildRelay lib)
    let sockets ← ipAddrs.mapM (buildIp lib)
    pure (.fromParts id urls sockets)

/-- `normalize_addr`. -/
def normalizeAddr (addr : NativeAddr Id Url Socket Other) : List Binary × List Binary :=
  (addr.relayUrls.map lib.urlToString, addr.ipAddrs.map lib.socketToString)

end Build

/-! ### What passes `build_addr` -/

section Spec

variable {Id Url Socket Other : Type} [LinearOrder Url] [LinearOrder Socket] [LinearOrder Other]
variable {lib : IdentityLib Id Url Socket Other}

theorem buildId_eq_ok {bytes : Binary} {id : Id} :
    buildId lib bytes = .ok id ↔ bytes.length = keySize ∧ lib.idFromBytes bytes = some id := by
  unfold buildId
  split
  · next hlength =>
      cases lib.idFromBytes bytes <;> simp [hlength]
  · next hlength => simp [hlength]

theorem buildRelay_eq_ok {value : Binary} {url : Url} :
    buildRelay lib value = .ok url ↔
      value.length ≤ maxRelayUrlBytes ∧ lib.urlFromStr value = some url ∧
        isPlainUrl lib url = true := by
  unfold buildRelay
  split
  · next hlong =>
      simp only [reduceCtorEq, false_iff]
      exact fun h => absurd h.1 (Nat.not_le.mpr hlong)
  · next hshort =>
      cases hparse : lib.urlFromStr value with
      | none => simp
      | some u =>
          by_cases hplain : isPlainUrl lib u = true
          · simp only [if_pos hplain, Except.ok.injEq, Option.some.injEq]
            exact ⟨fun h => ⟨Nat.not_lt.mp hshort, h, h ▸ hplain⟩, fun h => h.2.1⟩
          · simp only [if_neg hplain, reduceCtorEq, Option.some.injEq, false_iff]
            rintro ⟨-, rfl, h⟩
            exact hplain h

theorem buildIp_eq_ok {value : Binary} {addr : Socket} :
    buildIp lib value = .ok addr ↔ lib.socketFromStr value = some addr := by
  unfold buildIp
  cases lib.socketFromStr value <;> simp

/-- A loop that parses what was printed. -/
theorem mapM_printed {α β ε : Type} {f : β → Except ε α} {print : α → β} {C : α → Prop}
    (h : ∀ a b, f (print a) = .ok b ↔ C a ∧ b = a) (as bs : List α) :
    (as.map print).mapM f = .ok bs ↔ (∀ a ∈ as, C a) ∧ bs = as := by
  induction as generalizing bs with
  | nil =>
      simp only [List.map_nil, List.mapM_nil, List.not_mem_nil, false_imp_iff, implies_true,
        true_and]
      exact ⟨fun h => (Except.ok.inj h).symm, fun h => h ▸ rfl⟩
  | cons a as ih =>
      rw [List.map_cons, List.mapM_cons]
      constructor
      · intro hok
        obtain ⟨b, hb, hrest⟩ := bind_eq_ok hok
        obtain ⟨cs, hcs, hpure⟩ := bind_eq_ok hrest
        obtain ⟨hC, rfl⟩ := (h a b).mp hb
        obtain ⟨hall, rfl⟩ := (ih cs).mp hcs
        exact ⟨List.forall_mem_cons.mpr ⟨hC, hall⟩, (Except.ok.inj hpure).symm⟩
      · rintro ⟨hall, rfl⟩
        obtain ⟨hC, hall⟩ := List.forall_mem_cons.mp hall
        rw [(h a a).mpr ⟨hC, rfl⟩, (ih as).mpr ⟨hall, rfl⟩]
        rfl

/-- What `build_addr` accepts, and the address it makes. -/
theorem buildAddr_eq_ok {bytes : Binary} {relayUrls ipAddrs : List Binary}
    {a : NativeAddr Id Url Socket Other} (h : buildAddr lib bytes relayUrls ipAddrs = .ok a) :
    ∃ id urls sockets, relayUrls.length + ipAddrs.length ≤ maxAddrs ∧ buildId lib bytes = .ok id ∧
      relayUrls.mapM (buildRelay lib) = .ok urls ∧ ipAddrs.mapM (buildIp lib) = .ok sockets ∧
      a = .fromParts id urls sockets := by
  unfold buildAddr at h
  split at h
  · cases h
  · next hcount =>
      obtain ⟨id, hid, h⟩ := bind_eq_ok h
      obtain ⟨urls, hurls, h⟩ := bind_eq_ok h
      obtain ⟨sockets, hsockets, h⟩ := bind_eq_ok h
      exact ⟨id, urls, sockets, Nat.not_lt.mp hcount, hid, hurls, hsockets, (Except.ok.inj h).symm⟩

/-- What the loops leave: as many values, each made from one of the strings. -/
theorem mapM_eq_ok {α β ε : Type} {f : β → Except ε α} {bs : List β} {as : List α}
    (h : bs.mapM f = .ok as) : as.length = bs.length ∧ ∀ a ∈ as, ∃ b ∈ bs, f b = .ok a := by
  induction bs generalizing as with
  | nil =>
      obtain rfl := (Except.ok.inj h).symm
      exact ⟨rfl, fun a ha => absurd ha List.not_mem_nil⟩
  | cons b bs ih =>
      rw [List.mapM_cons] at h
      obtain ⟨a, ha, h⟩ := bind_eq_ok h
      obtain ⟨rest, hrest, h⟩ := bind_eq_ok h
      obtain rfl := (Except.ok.inj h).symm
      obtain ⟨hlength, hall⟩ := ih hrest
      refine ⟨congrArg (· + 1) hlength, ?_⟩
      intro c hc
      rcases List.mem_cons.mp hc with rfl | hc
      · exact ⟨b, List.mem_cons_self, ha⟩
      · obtain ⟨d, hd, hdc⟩ := hall c hc
        exact ⟨d, List.mem_cons_of_mem b hd, hdc⟩

/-- An address made from strings is within the limit on its number and has plain
URLs; of their printed length nothing is known. -/
theorem buildAddr_within {bytes : Binary} {relayUrls ipAddrs : List Binary}
    {a : NativeAddr Id Url Socket Other} (h : buildAddr lib bytes relayUrls ipAddrs = .ok a) :
    a.relayUrls.length + a.ipAddrs.length ≤ maxAddrs ∧
      ∀ u ∈ a.relayUrls, isPlainUrl lib u = true := by
  obtain ⟨id, urls, sockets, hcount, -, hurls, hsockets, rfl⟩ := buildAddr_eq_ok h
  obtain ⟨hlength, hmade⟩ := mapM_eq_ok hurls
  refine ⟨?_, ?_⟩
  · calc (NativeAddr.fromParts id urls sockets).relayUrls.length +
          (NativeAddr.fromParts id urls sockets).ipAddrs.length
        ≤ urls.length + sockets.length := NativeAddr.length_fromParts id urls sockets
      _ = relayUrls.length + ipAddrs.length := by rw [hlength, (mapM_eq_ok hsockets).1]
      _ ≤ maxAddrs := hcount
  · intro u hu
    obtain ⟨value, -, hvalue⟩ := hmade u (NativeAddr.mem_relayUrls_fromParts.mp hu)
    exact (buildRelay_eq_ok.mp hvalue).2.2

/-- An address that passes `build_addr` once it is printed. -/
structure NativeAddr.Rebuilds (lib : IdentityLib Id Url Socket Other)
    (a : NativeAddr Id Url Socket Other) : Prop where
  count : a.relayUrls.length + a.ipAddrs.length ≤ maxAddrs
  urls : ∀ u ∈ a.relayUrls,
    (lib.urlToString u).length ≤ maxRelayUrlBytes ∧ isPlainUrl lib u = true

/-- **Building an address from what it prints** succeeds exactly if the printed
address is within the limits, and then changes nothing of what it lists. -/
theorem buildAddr_normalize (hlib : lib.Lawful) (a b : NativeAddr Id Url Socket Other) :
    buildAddr lib (lib.canonical a.id).bytes (normalizeAddr lib a).1 (normalizeAddr lib a).2 = .ok b ↔
      a.Rebuilds lib ∧ b = .fromParts a.id a.relayUrls a.ipAddrs := by
  have hrelay : ∀ u v, buildRelay lib (lib.urlToString u) = .ok v ↔
      ((lib.urlToString u).length ≤ maxRelayUrlBytes ∧ isPlainUrl lib u = true) ∧ v = u := by
    intro u v
    rw [buildRelay_eq_ok, hlib.url, Option.some.injEq]
    constructor
    · rintro ⟨hlength, rfl, hplain⟩
      exact ⟨⟨hlength, hplain⟩, rfl⟩
    · rintro ⟨⟨hlength, hplain⟩, rfl⟩
      exact ⟨hlength, rfl, hplain⟩
  have hsocket : ∀ s t, buildIp lib (lib.socketToString s) = .ok t ↔ True ∧ t = s := by
    intro s t
    rw [buildIp_eq_ok, hlib.socket, Option.some.injEq, true_and, eq_comm]
  have hid : buildId lib (lib.canonical a.id).bytes = .ok a.id :=
    buildId_eq_ok.mpr ⟨hlib.id_length a.id, hlib.id_bytes a.id⟩
  constructor
  · intro h
    obtain ⟨id, urls, sockets, hcount, hid', hurls, hsockets, rfl⟩ := buildAddr_eq_ok h
    obtain ⟨hall, rfl⟩ := (mapM_printed hrelay _ _).mp hurls
    obtain ⟨-, rfl⟩ := (mapM_printed hsocket _ _).mp hsockets
    obtain rfl := Except.ok.inj (hid.symm.trans hid')
    refine ⟨⟨?_, hall⟩, rfl⟩
    simpa [normalizeAddr] using hcount
  · rintro ⟨hwithin, rfl⟩
    have hcount : ¬ maxAddrs < (normalizeAddr lib a).1.length + (normalizeAddr lib a).2.length := by
      simpa [normalizeAddr] using hwithin.count
    rw [buildAddr, if_neg hcount, hid]
    show ((a.relayUrls.map lib.urlToString).mapM (buildRelay lib)).bind _ = _
    rw [(mapM_printed hrelay _ _).mpr ⟨hwithin.urls, rfl⟩]
    show ((a.ipAddrs.map lib.socketToString).mapM (buildIp lib)).bind _ = _
    rw [(mapM_printed hsocket _ _).mpr ⟨fun _ _ => trivial, rfl⟩]
    rfl

/-- What is built from the printed lists prints the same lists. -/
theorem normalizeAddr_fromParts (lib : IdentityLib Id Url Socket Other)
    (a : NativeAddr Id Url Socket Other) :
    normalizeAddr lib (.fromParts a.id a.relayUrls a.ipAddrs) = normalizeAddr lib a := by
  rw [normalizeAddr, NativeAddr.fromParts_relayUrls, NativeAddr.fromParts_ipAddrs]
  rfl

end Spec

end IrohBeam
