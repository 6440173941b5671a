/-
IrohBeam/Tickets.lean

Endpoint tickets: `EndpointTicket.new/1`, `parse/1` and `from_bytes/1` of
`lib/iroh_beam/identity.ex` over the ticket functions of
`native/iroh_beam_nif/src/identity.rs`, and dialling an address
(`lib/iroh_beam/connection.ex`).

A ticket is what a native address prints, its text and its bytes (`ticketOf`), on
whichever path it was made.  Its text is a prefix and the base32 of its bytes, so
the text is 8/5 as long; but the limit on texts is twice that on bytes, and
tickets are made with no limit at all:

* from a text, with up to 80 KiB of bytes;
* from an address, with 64 URLs of 2 KiB.

Such a ticket is not accepted in its binary form (`ticket_roundtrip_iff`).

An address of a ticket has passed none of the checks of `build_addr`, and one
made from strings passed them before its URLs were printed, which may make them
longer.  `address_usable_iff` says which addresses pass when they are used.
-/
import IrohBeam.Base32
import IrohBeam.TicketWire

namespace IrohBeam

open Bytes

section Model

variable {Id Url Socket Other : Type} [LinearOrder Url] [LinearOrder Socket] [LinearOrder Other]
variable (lib : IdentityLib Id Url Socket Other)

/-! ### The native functions -/

/-- `MAX_TICKET_BYTES`. -/
def maxTicketBytes : ℕ := 64 * 1024

/-- `MAX_TICKET_TEXT_BYTES`. -/
def maxTicketTextBytes : ℕ := 128 * 1024

/-- What the text of a ticket starts with. -/
def ticketKind : Binary := ascii "endpoint"

/-- `to_string()` of a ticket. -/
def ticketText (addr : NativeAddr Id Url Socket Other) : Binary :=
  ticketKind ++ Base32.encode (lib.encodeBytes addr)

/-- `EndpointTicket::from_str`. -/
def ticketFromStr (text : Binary) : Option (NativeAddr Id Url Socket Other) :=
  if ticketKind.isPrefixOf text then
    (Base32.decode (text.drop ticketKind.length)).bind lib.decodeBytes
  else none

/-- `parsed_ticket`. -/
def parsedTicket (addr : NativeAddr Id Url Socket Other) : ParsedTicket :=
  { endpointId := lib.canonical addr.id
    relayUrls := (normalizeAddr lib addr).1
    ipAddrs := (normalizeAddr lib addr).2
    text := ticketText lib addr }

def ticketError {α : Type} (message : String) : Except Error α :=
  .error ⟨.invalidArgument, .endpointTicket, message⟩

def endpointIdParse (text : Binary) : Except Error CanonicalId :=
  if 128 < text.length then .error ⟨.invalidArgument, .endpointId, "endpoint ID is too long"⟩
  else
    match lib.idFromStr text with
    | some id => .ok (lib.canonical id)
    | none => .error ⟨.invalidArgument, .endpointId, "endpoint ID is invalid"⟩

def endpointIdFromBytes (bytes : Binary) : Except Error CanonicalId :=
  (buildId lib bytes).map lib.canonical

def endpointAddrNormalize (endpointId : Binary) (relayUrls ipAddrs : List Binary) :
    Except Error (List Binary × List Binary) :=
  (buildAddr lib endpointId relayUrls ipAddrs).map (normalizeAddr lib)

def endpointTicketFromAddrText (endpointId : Binary) (relayUrls ipAddrs : List Binary) :
    Except Error Binary :=
  (buildAddr lib endpointId relayUrls ipAddrs).map (ticketText lib)

def endpointTicketFromAddrBytes (endpointId : Binary) (relayUrls ipAddrs : List Binary) :
    Except Error Binary :=
  (buildAddr lib endpointId relayUrls ipAddrs).map lib.encodeBytes

/-- The common part of the three functions that read a ticket. -/
def readTicket {α : Type} (limit : ℕ) (read : Binary → Option (NativeAddr Id Url Socket Other))
    (value : NativeAddr Id Url Socket Other → α) (input : Binary) : Except Error α :=
  if limit < input.length then ticketError "endpoint ticket is too large"
  else
    match read input with
    | some addr => .ok (value addr)
    | none => ticketError "endpoint ticket is invalid"

def endpointTicketParseText : Binary → Except Error ParsedTicket :=
  readTicket maxTicketTextBytes (ticketFromStr lib) (parsedTicket lib)

def endpointTicketParseBytes : Binary → Except Error ParsedTicket :=
  readTicket maxTicketBytes lib.decodeBytes (parsedTicket lib)

def endpointTicketTextToBytes : Binary → Except Error Binary :=
  readTicket maxTicketTextBytes (ticketFromStr lib) lib.encodeBytes

/-- The functions as the validators call them. -/
def IdentityLib.nif : IdentityNif where
  endpointIdParse := IrohBeam.endpointIdParse lib
  endpointAddrNormalize := IrohBeam.endpointAddrNormalize lib
  endpointTicketParseText := IrohBeam.endpointTicketParseText lib
  endpointTicketTextToBytes := IrohBeam.endpointTicketTextToBytes lib

/-! ### The API -/

/-- `EndpointId.from_bytes/1`. -/
def EndpointId.fromBytes (bytes : Binary) : Except Failure EndpointId :=
  (liftNif (endpointIdFromBytes lib bytes)).map fromCanonical

/-- `EndpointTicket.new/1`. -/
def EndpointTicket.new (addr : EndpointAddr) : Except Failure EndpointTicket := do
  let text ← liftNif (endpointTicketFromAddrText lib addr.id.bytes addr.relayUrls addr.ipAddrs)
  let bytes ← liftNif (endpointTicketFromAddrBytes lib addr.id.bytes addr.relayUrls addr.ipAddrs)
  pure ⟨addr, text, bytes⟩

/-- `EndpointTicket.from_bytes/1`. -/
def EndpointTicket.fromBytes (bytes : Binary) : Except Failure EndpointTicket := do
  let parsed ← liftNif (endpointTicketParseBytes lib bytes)
  let canonical ← liftNif (endpointTicketTextToBytes lib parsed.text)
  pure ⟨⟨fromCanonical parsed.endpointId, parsed.relayUrls, parsed.ipAddrs⟩, parsed.text, canonical⟩

/-- `resolve_target/2`: an identity may have an address in the book. -/
def resolveTarget (addressBook : Binary → Option EndpointAddr) : Target → EndpointId ⊕ EndpointAddr
  | .id id =>
      match addressBook id.text with
      | some addr => .inr addr
      | none => .inl id
  | .addr addr => .inr addr
  | .ticket ticket => .inr ticket.addr

/-- `native_target/1`: the text of the identity, the URLs and the sockets. -/
def nativeTarget : EndpointId ⊕ EndpointAddr → Binary × List Binary × List Binary
  | .inl id => (id.text, [], [])
  | .inr addr => (addr.id.text, addr.relayUrls, addr.ipAddrs)

/-- `parse_target`. -/
def parseTarget (target : Binary × List Binary × List Binary) :
    Except Error (NativeAddr Id Url Socket Other) :=
  match lib.idFromStr target.1 with
  | none => .error ⟨.invalidArgument, .connectionConnect, "dial target endpoint ID is invalid"⟩
  | some id =>
      match buildAddr lib (lib.canonical id).bytes target.2.1 target.2.2 with
      | .ok addr => .ok addr
      | .error _ => .error ⟨.invalidArgument, .connectionConnect, "dial target address is invalid"⟩

end Model

/-! ### What a ticket is -/

section Spec

variable {Id Url Socket Other : Type} [LinearOrder Url] [LinearOrder Socket] [LinearOrder Other]
variable {lib : IdentityLib Id Url Socket Other}

/-- The address a native address is printed as. -/
def addrOf (lib : IdentityLib Id Url Socket Other) (a : NativeAddr Id Url Socket Other) :
    EndpointAddr :=
  ⟨fromCanonical (lib.canonical a.id), (normalizeAddr lib a).1, (normalizeAddr lib a).2⟩

/-- The ticket of a native address. -/
def ticketOf (lib : IdentityLib Id Url Socket Other) (a : NativeAddr Id Url Socket Other) :
    EndpointTicket :=
  ⟨addrOf lib a, ticketText lib a, lib.encodeBytes a⟩

/-- The text of a ticket names its address. -/
theorem ticketFromStr_ticketText (hlib : lib.Lawful) (a : NativeAddr Id Url Socket Other) :
    ticketFromStr lib (ticketText lib a) = some a := by
  have hkind : ticketKind.isPrefixOf (ticketText lib a) = true :=
    List.isPrefixOf_iff_prefix.mpr (List.prefix_append _ _)
  rw [ticketFromStr, if_pos hkind, ticketText, List.drop_left, Base32.decode_encode]
  exact hlib.ticket a

theorem length_ticketText (lib : IdentityLib Id Url Socket Other)
    (a : NativeAddr Id Url Socket Other) :
    (ticketText lib a).length = 8 + (8 * (lib.encodeBytes a).length + 4) / 5 := by
  rw [ticketText, List.length_append, Base32.length_encode]
  rfl

/-- A ticket within the limit on bytes is within that on texts. -/
theorem ticketText_within {a : NativeAddr Id Url Socket Other}
    (h : (lib.encodeBytes a).length ≤ maxTicketBytes) :
    (ticketText lib a).length ≤ maxTicketTextBytes := by
  rw [length_ticketText]
  simp only [maxTicketBytes, maxTicketTextBytes] at *
  omega

theorem liftNif_eq_ok {α : Type} {x : Except Error α} {v : α} :
    liftNif x = .ok v ↔ x = .ok v := by
  cases x <;> simp [liftNif]

theorem map_eq_ok {α β ε : Type} {x : Except ε α} {f : α → β} {v : β} :
    x.map f = .ok v ↔ ∃ a, x = .ok a ∧ f a = v := by
  cases x <;> simp [Except.map]

theorem readTicket_eq_ok {α : Type} {limit : ℕ}
    {read : Binary → Option (NativeAddr Id Url Socket Other)}
    {value : NativeAddr Id Url Socket Other → α} {input : Binary} {v : α} :
    readTicket limit read value input = .ok v ↔
      input.length ≤ limit ∧ ∃ a, read input = some a ∧ value a = v := by
  unfold readTicket
  split
  · next hlong =>
      simp only [ticketError, reduceCtorEq, false_iff]
      exact fun h => absurd h.1 (Nat.not_le.mpr hlong)
  · next hshort =>
      cases read input <;> simp [ticketError, Nat.not_lt.mp hshort]

/-- What `parse/1` and `from_bytes/1` make of an input they can read. -/
def readWhole (lib : IdentityLib Id Url Socket Other) (limit : ℕ)
    (read : Binary → Option (NativeAddr Id Url Socket Other)) (input : Binary) :
    Except Failure EndpointTicket := do
  let parsed ← liftNif (readTicket limit read (parsedTicket lib) input)
  let bytes ← liftNif (endpointTicketTextToBytes lib parsed.text)
  pure ⟨⟨fromCanonical parsed.endpointId, parsed.relayUrls, parsed.ipAddrs⟩, parsed.text, bytes⟩

/-- **Every ticket that is read is the ticket of a native address.** -/
theorem readWhole_eq_ok (hlib : lib.Lawful) {limit : ℕ}
    {read : Binary → Option (NativeAddr Id Url Socket Other)} {input : Binary}
    {t : EndpointTicket} :
    readWhole lib limit read input = .ok t ↔
      ∃ a, input.length ≤ limit ∧ read input = some a ∧
        (ticketText lib a).length ≤ maxTicketTextBytes ∧ t = ticketOf lib a := by
  constructor
  · intro h
    obtain ⟨parsed, hparsed, h⟩ := bind_eq_ok h
    obtain ⟨bytes, hbytes, h⟩ := bind_eq_ok h
    obtain rfl := (Except.ok.inj h).symm
    obtain ⟨hlength, a, ha, rfl⟩ := readTicket_eq_ok.mp (liftNif_eq_ok.mp hparsed)
    obtain ⟨htext, b, hb, rfl⟩ := readTicket_eq_ok.mp (liftNif_eq_ok.mp hbytes)
    obtain rfl := Option.some.inj (hb.symm.trans (ticketFromStr_ticketText hlib a))
    exact ⟨b, hlength, ha, htext, rfl⟩
  · rintro ⟨a, hlength, ha, htext, rfl⟩
    have hparsed : liftNif (readTicket limit read (parsedTicket lib) input) =
        .ok (parsedTicket lib a) :=
      liftNif_eq_ok.mpr (readTicket_eq_ok.mpr ⟨hlength, a, ha, rfl⟩)
    have hbytes : liftNif (endpointTicketTextToBytes lib (ticketText lib a)) =
        .ok (lib.encodeBytes a) :=
      liftNif_eq_ok.mpr (readTicket_eq_ok.mpr ⟨htext, a, ticketFromStr_ticketText hlib a, rfl⟩)
    rw [readWhole, hparsed]
    show (liftNif (endpointTicketTextToBytes lib (ticketText lib a))).bind _ = _
    rw [hbytes]
    rfl

theorem EndpointTicket.parse_eq (lib : IdentityLib Id Url Socket Other) (text : Binary) :
    EndpointTicket.parse lib.nif text =
      readWhole lib maxTicketTextBytes (ticketFromStr lib) text := rfl

theorem EndpointTicket.fromBytes_eq (lib : IdentityLib Id Url Socket Other) (bytes : Binary) :
    EndpointTicket.fromBytes lib bytes = readWhole lib maxTicketBytes lib.decodeBytes bytes := rfl

/-- The round trips of the ticket of an address. -/
theorem ticketOf_roundtrip_iff (hlib : lib.Lawful) (a : NativeAddr Id Url Socket Other) :
    (EndpointTicket.parse lib.nif (ticketOf lib a).text = .ok (ticketOf lib a) ∧
      EndpointTicket.fromBytes lib (ticketOf lib a).bytes = .ok (ticketOf lib a)) ↔
        (ticketOf lib a).bytes.length ≤ maxTicketBytes := by
  constructor
  · rintro ⟨-, hbytes⟩
    rw [EndpointTicket.fromBytes_eq] at hbytes
    obtain ⟨-, hlength, -⟩ := (readWhole_eq_ok hlib).mp hbytes
    exact hlength
  · intro hlength
    have htext : (ticketText lib a).length ≤ maxTicketTextBytes := ticketText_within hlength
    rw [EndpointTicket.parse_eq, EndpointTicket.fromBytes_eq]
    exact ⟨(readWhole_eq_ok hlib).mpr ⟨a, htext, ticketFromStr_ticketText hlib a, htext, rfl⟩,
      (readWhole_eq_ok hlib).mpr ⟨a, hlength, hlib.ticket a, htext, rfl⟩⟩

/-! ### Where addresses and tickets come from -/

/-- What the constructors of `EndpointId` return. -/
def EndpointId.Made (lib : IdentityLib Id Url Socket Other) (id : EndpointId) : Prop :=
  ∃ k, id = fromCanonical (lib.canonical k)

theorem EndpointId.parse_made {text : Term} {id : EndpointId}
    (h : EndpointId.parse lib.nif text = .ok id) : id.Made lib := by
  cases text with
  | binary text =>
      obtain ⟨c, hc, rfl⟩ := map_eq_ok.mp h
      replace hc := liftNif_eq_ok.mp hc
      simp only [IdentityLib.nif, endpointIdParse] at hc
      split at hc
      · cases hc
      · split at hc
        · next k _ => exact ⟨k, by rw [Except.ok.inj hc]⟩
        · cases hc
  | _ => cases h

theorem EndpointId.fromBytes_made {bytes : Binary} {id : EndpointId}
    (h : EndpointId.fromBytes lib bytes = .ok id) : id.Made lib := by
  obtain ⟨c, hc, rfl⟩ := map_eq_ok.mp h
  obtain ⟨k, -, rfl⟩ := map_eq_ok.mp (liftNif_eq_ok.mp hc)
  exact ⟨k, rfl⟩

/-- An address from `EndpointAddr.new/2`. -/
def EndpointAddr.FromNew (lib : IdentityLib Id Url Socket Other) (addr : EndpointAddr) : Prop :=
  ∃ id relayUrls ipAddrs, id.Made lib ∧ EndpointAddr.new lib.nif id relayUrls ipAddrs = .ok addr

/-- A ticket from `EndpointTicket.parse/1` or `EndpointTicket.from_bytes/1`. -/
def EndpointTicket.Read (lib : IdentityLib Id Url Socket Other) (t : EndpointTicket) : Prop :=
  (∃ text, EndpointTicket.parse lib.nif text = .ok t) ∨
    ∃ bytes, EndpointTicket.fromBytes lib bytes = .ok t

/-- A ticket from any of the constructors. -/
def EndpointTicket.Issued (lib : IdentityLib Id Url Socket Other) (t : EndpointTicket) : Prop :=
  (∃ addr, addr.FromNew lib ∧ EndpointTicket.new lib addr = .ok t) ∨ t.Read lib

theorem EndpointTicket.Read.ticketOf (hlib : lib.Lawful) {t : EndpointTicket} (h : t.Read lib) :
    ∃ a, t = ticketOf lib a := by
  rcases h with ⟨text, h⟩ | ⟨bytes, h⟩
  · rw [EndpointTicket.parse_eq] at h
    obtain ⟨a, -, -, -, rfl⟩ := (readWhole_eq_ok hlib).mp h
    exact ⟨a, rfl⟩
  · rw [EndpointTicket.fromBytes_eq] at h
    obtain ⟨a, -, -, -, rfl⟩ := (readWhole_eq_ok hlib).mp h
    exact ⟨a, rfl⟩

/-- A new address is the print of one that passed `build_addr`. -/
theorem EndpointAddr.FromNew.addrOf (hlib : lib.Lawful) {addr : EndpointAddr}
    (h : addr.FromNew lib) :
    ∃ a bytes relayUrls ipAddrs, buildAddr lib bytes relayUrls ipAddrs = .ok a ∧
      addr = addrOf lib a := by
  obtain ⟨id, rs, is, ⟨k, rfl⟩, h⟩ := h
  unfold EndpointAddr.new at h
  split at h
  · split at h
    · next rs is _ _ =>
        obtain ⟨normalized, hnormalized, h⟩ := bind_eq_ok h
        obtain rfl := (Except.ok.inj h).symm
        obtain ⟨a, ha, rfl⟩ := map_eq_ok.mp (liftNif_eq_ok.mp hnormalized)
        obtain ⟨id, urls, sockets, -, hid, -, -, rfl⟩ := buildAddr_eq_ok ha
        -- the identity is the one the bytes stand for
        have hk : id = k := by
          have hbytes := (buildId_eq_ok.mp hid).2
          rw [show (fromCanonical (lib.canonical k)).bytes = (lib.canonical k).bytes from rfl,
            hlib.id_bytes k] at hbytes
          exact (Option.some.inj hbytes).symm
        subst hk
        exact ⟨_, _, rs, is, ha, rfl⟩
    · cases h
  · cases h

/-- Making a ticket of an address rebuilds the address. -/
theorem EndpointTicket.new_eq_ok (hlib : lib.Lawful) {a : NativeAddr Id Url Socket Other}
    {t : EndpointTicket} :
    EndpointTicket.new lib (addrOf lib a) = .ok t ↔
      a.Rebuilds lib ∧ t = ticketOf lib (.fromParts a.id a.relayUrls a.ipAddrs) := by
  have hsame : addrOf lib (.fromParts a.id a.relayUrls a.ipAddrs) = addrOf lib a := by
    rw [IrohBeam.addrOf, normalizeAddr_fromParts]
    rfl
  constructor
  · intro h
    obtain ⟨text, htext, h⟩ := bind_eq_ok h
    obtain ⟨bytes, hbytes, h⟩ := bind_eq_ok h
    obtain rfl := (Except.ok.inj h).symm
    obtain ⟨b, hb, rfl⟩ := map_eq_ok.mp (liftNif_eq_ok.mp htext)
    obtain ⟨c, hc, rfl⟩ := map_eq_ok.mp (liftNif_eq_ok.mp hbytes)
    obtain ⟨hwithin, rfl⟩ := (buildAddr_normalize hlib a b).mp hb
    obtain ⟨-, rfl⟩ := (buildAddr_normalize hlib a c).mp hc
    exact ⟨hwithin, by rw [IrohBeam.ticketOf, hsame]⟩
  · rintro ⟨hwithin, rfl⟩
    have hbuild := (buildAddr_normalize hlib a _).mpr ⟨hwithin, rfl⟩
    have htext : liftNif (endpointTicketFromAddrText lib (addrOf lib a).id.bytes
        (addrOf lib a).relayUrls (addrOf lib a).ipAddrs) =
          .ok (ticketText lib (.fromParts a.id a.relayUrls a.ipAddrs)) :=
      liftNif_eq_ok.mpr (map_eq_ok.mpr ⟨_, hbuild, rfl⟩)
    have hbytes : liftNif (endpointTicketFromAddrBytes lib (addrOf lib a).id.bytes
        (addrOf lib a).relayUrls (addrOf lib a).ipAddrs) =
          .ok (lib.encodeBytes (.fromParts a.id a.relayUrls a.ipAddrs)) :=
      liftNif_eq_ok.mpr (map_eq_ok.mpr ⟨_, hbuild, rfl⟩)
    rw [EndpointTicket.new, htext, hbytes, IrohBeam.ticketOf, hsame]
    rfl

/-- **Every ticket is the ticket of a native address.** -/
theorem EndpointTicket.Issued.ticketOf (hlib : lib.Lawful) {t : EndpointTicket}
    (h : t.Issued lib) : ∃ a, t = ticketOf lib a := by
  rcases h with ⟨addr, haddr, h⟩ | h
  · obtain ⟨a, -, -, -, -, rfl⟩ := haddr.addrOf hlib
    exact ⟨_, ((EndpointTicket.new_eq_ok hlib).mp h).2⟩
  · exact h.ticketOf hlib

/-- **Ticket round trip**: a ticket comes back from its text and from its bytes
exactly if its bytes are within the limit. -/
theorem ticket_roundtrip_iff (hlib : lib.Lawful) {t : EndpointTicket} (ht : t.Issued lib) :
    (EndpointTicket.parse lib.nif t.text = .ok t ∧
      EndpointTicket.fromBytes lib t.bytes = .ok t) ↔ t.bytes.length ≤ maxTicketBytes := by
  obtain ⟨a, rfl⟩ := ht.ticketOf hlib
  exact ticketOf_roundtrip_iff hlib a

end Spec

/-! ### The ticket of one relay -/

/-- The ticket of an address with one relay, whose path has `n` letters. -/
def relayTicket (n : ℕ) : EndpointTicket :=
  ticketOf wireLib (WireAddr.single upstreamId (.ofLength n))

theorem relayTicket_length (n : ℕ) :
    (relayTicket n).bytes.length = 57 + (varint (22 + n)).length + n := by
  show (encodeAddr _).length = _
  rw [WireAddr.length_single, WireUrl.length_ofLength]
  omega

/-- Such a ticket is read from its text, if that is within the limit. -/
theorem relayTicket_parse {n : ℕ} (h : (relayTicket n).text.length ≤ maxTicketTextBytes) :
    EndpointTicket.parse wireLib.nif (relayTicket n).text = .ok (relayTicket n) := by
  rw [EndpointTicket.parse_eq]
  exact (readWhole_eq_ok wireLib_lawful).mpr
    ⟨_, h, ticketFromStr_ticketText wireLib_lawful _, h, rfl⟩

theorem relayTicket_text (n : ℕ) :
    (relayTicket n).text.length = 8 + (8 * (relayTicket n).bytes.length + 4) / 5 :=
  length_ticketText wireLib _

/-- A ticket within both limits. -/
theorem ticket_roundtrip_small :
    EndpointTicket.parse wireLib.nif (relayTicket 3).text = .ok (relayTicket 3) ∧
      EndpointTicket.fromBytes wireLib (relayTicket 3).bytes = .ok (relayTicket 3) := by
  have hlength : (relayTicket 3).bytes.length = 61 := by
    rw [relayTicket_length]
    simp [varint]
  have htext : (relayTicket 3).text.length ≤ maxTicketTextBytes := by
    rw [relayTicket_text, hlength]
    decide
  have hissued : (relayTicket 3).Issued wireLib := .inr (.inl ⟨_, relayTicket_parse htext⟩)
  refine (ticket_roundtrip_iff wireLib_lawful hissued).mpr ?_
  rw [hlength]
  decide

/-- **A ticket that its own reader refuses**: a URL of 70 022 bytes is within the
limit on texts and beyond the one on bytes. -/
theorem ticket_refused_in_bytes :
    ∃ t, EndpointTicket.parse wireLib.nif (relayTicket 70000).text = .ok t ∧
      EndpointTicket.parse wireLib.nif t.text = .ok t ∧
      EndpointTicket.fromBytes wireLib t.bytes =
        .error (.error ⟨.invalidArgument, .endpointTicket, "endpoint ticket is too large"⟩) := by
  have hlength : (relayTicket 70000).bytes.length = 70060 := by
    rw [relayTicket_length]
    simp [varint]
  have htext : (relayTicket 70000).text.length ≤ maxTicketTextBytes := by
    rw [relayTicket_text, hlength]
    decide
  refine ⟨_, relayTicket_parse htext, relayTicket_parse htext, ?_⟩
  have hlarge : maxTicketBytes < (relayTicket 70000).bytes.length := by
    rw [hlength]
    decide
  rw [EndpointTicket.fromBytes, endpointTicketParseBytes, readTicket, if_pos hlarge]
  rfl

/-! ### Using an address -/

section Use

variable {Id Url Socket Other : Type} [LinearOrder Url] [LinearOrder Socket] [LinearOrder Other]
variable {lib : IdentityLib Id Url Socket Other}

/-- The strings of an address build an address that prints them again; the
address can be dialled, as itself or by a ticket that has it, and made into a
ticket, unaltered. -/
structure EndpointAddr.Usable (lib : IdentityLib Id Url Socket Other) (addr : EndpointAddr) :
    Prop where
  built : ∃ a, buildAddr lib addr.id.bytes addr.relayUrls addr.ipAddrs = .ok a ∧
    normalizeAddr lib a = (addr.relayUrls, addr.ipAddrs)
  dialled : ∀ addressBook target, resolveTarget addressBook target = .inr addr →
    ∃ a, parseTarget lib (nativeTarget (resolveTarget addressBook target)) = .ok a ∧
      normalizeAddr lib a = (addr.relayUrls, addr.ipAddrs)
  ticketed : ∃ t, EndpointTicket.new lib addr = .ok t ∧ t.addr = addr

/-- The limits of `build_addr` on the strings of an address. -/
structure EndpointAddr.Within (lib : IdentityLib Id Url Socket Other) (addr : EndpointAddr) :
    Prop where
  count : addr.relayUrls.length + addr.ipAddrs.length ≤ maxAddrs
  urls : ∀ value ∈ addr.relayUrls, value.length ≤ maxRelayUrlBytes ∧
    ∃ url, lib.urlFromStr value = some url ∧ isPlainUrl lib url = true

theorem addrOf_within_iff (hlib : lib.Lawful) (a : NativeAddr Id Url Socket Other) :
    (addrOf lib a).Within lib ↔ a.Rebuilds lib := by
  have hcount : (addrOf lib a).relayUrls.length + (addrOf lib a).ipAddrs.length =
      a.relayUrls.length + a.ipAddrs.length := by
    simp [addrOf, normalizeAddr]
  constructor
  · intro h
    refine ⟨hcount ▸ h.count, ?_⟩
    intro u hu
    obtain ⟨hlength, url, hparse, hplain⟩ := h.urls _ (List.mem_map_of_mem hu)
    rw [hlib.url, Option.some.injEq] at hparse
    exact ⟨hlength, hparse ▸ hplain⟩
  · intro h
    refine ⟨hcount ▸ h.count, ?_⟩
    intro value hvalue
    obtain ⟨u, hu, rfl⟩ := List.mem_map.mp hvalue
    obtain ⟨hlength, hplain⟩ := h.urls u hu
    exact ⟨hlength, u, hlib.url u, hplain⟩

/-- A printed address is usable exactly if it passes `build_addr`. -/
theorem addrOf_usable_iff (hlib : lib.Lawful) (a : NativeAddr Id Url Socket Other) :
    (addrOf lib a).Usable lib ↔ a.Rebuilds lib := by
  constructor
  · rintro ⟨⟨b, hb, -⟩, -, -⟩
    exact ((buildAddr_normalize hlib a b).mp hb).1
  · intro hwithin
    have hbuild := (buildAddr_normalize hlib a _).mpr ⟨hwithin, rfl⟩
    refine ⟨⟨_, hbuild, normalizeAddr_fromParts lib a⟩, ?_, ?_⟩
    · intro addressBook target htarget
      refine ⟨_, ?_, normalizeAddr_fromParts lib a⟩
      rw [htarget, nativeTarget, parseTarget]
      rw [show (addrOf lib a).id.text = (lib.canonical a.id).text from rfl, hlib.id_text a.id]
      show (match buildAddr lib (lib.canonical a.id).bytes (normalizeAddr lib a).1
        (normalizeAddr lib a).2 with | .ok addr => _ | .error _ => _) = _
      rw [hbuild]
    · refine ⟨_, (EndpointTicket.new_eq_ok hlib).mpr ⟨hwithin, rfl⟩, ?_⟩
      show addrOf lib _ = _
      rw [addrOf, normalizeAddr_fromParts]
      rfl

/-- Of an address from `EndpointAddr.new/2` only the printed URLs are in doubt. -/
theorem EndpointAddr.FromNew.within_iff (hlib : lib.Lawful) {addr : EndpointAddr}
    (h : addr.FromNew lib) :
    addr.Within lib ↔ ∀ value ∈ addr.relayUrls, value.length ≤ maxRelayUrlBytes := by
  obtain ⟨a, bytes, relayUrls, ipAddrs, hbuild, rfl⟩ := h.addrOf hlib
  obtain ⟨hcount, hplain⟩ := buildAddr_within hbuild
  refine ⟨fun hwithin value hvalue => (hwithin.urls value hvalue).1, ?_⟩
  intro hlength
  rw [addrOf_within_iff hlib]
  exact ⟨hcount, fun u hu => ⟨hlength _ (List.mem_map_of_mem hu), hplain u hu⟩⟩

/-- **Every address stays usable** exactly if its strings are within the limits
of `build_addr`; for a new address, exactly if its URLs are short enough as
printed. -/
theorem address_usable_iff (hlib : lib.Lawful) :
    (∀ addr : EndpointAddr, addr.FromNew lib →
      (addr.Usable lib ↔ ∀ value ∈ addr.relayUrls, value.length ≤ maxRelayUrlBytes)) ∧
    (∀ t : EndpointTicket, t.Read lib → (t.addr.Usable lib ↔ t.addr.Within lib)) := by
  refine ⟨?_, ?_⟩
  · intro addr haddr
    rw [← haddr.within_iff hlib]
    obtain ⟨a, -, -, -, -, rfl⟩ := haddr.addrOf hlib
    rw [addrOf_within_iff hlib]
    exact addrOf_usable_iff hlib a
  · intro t ht
    obtain ⟨a, rfl⟩ := ht.ticketOf hlib
    exact (addrOf_usable_iff hlib a).trans (addrOf_within_iff hlib a).symm

end Use

/-! ### An address of one relay -/

/-- The loops go once around. -/
theorem buildAddr_single (value : Binary) :
    buildAddr wireLib upstreamId.bytes [value] [] =
      (buildRelay wireLib value).map (WireAddr.single upstreamId) := by
  have hid : buildId wireLib upstreamId.bytes = .ok upstreamId :=
    buildId_eq_ok.mpr ⟨rfl, wireLib_lawful.id_bytes upstreamId⟩
  have hcount : ¬ maxAddrs < [value].length + ([] : List Binary).length := by simp [maxAddrs]
  rw [buildAddr, if_neg hcount, hid]
  show ([value].mapM (buildRelay wireLib)).bind _ = _
  rw [List.mapM_cons]
  cases buildRelay wireLib value <;> rfl

/-- `EndpointAddr.new/2` with the identity of the test vector and one relay URL. -/
def newRelayAddr (path : Binary) : Except Failure EndpointAddr :=
  EndpointAddr.new wireLib.nif (fromCanonical upstreamId.canonical)
    (.list [.binary (WireUrl.base ++ path)]) (.list [])

/-- It makes an address of what the URL is parsed to. -/
theorem newRelayAddr_eq_ok {path : Binary} {u : WireUrl} (hparse : WireUrl.ofPath path = some u)
    (hlength : 22 + path.length ≤ maxRelayUrlBytes) :
    newRelayAddr path = .ok (addrOf wireLib (WireAddr.single upstreamId u)) := by
  have hrelay : buildRelay wireLib (WireUrl.base ++ path) = .ok u := by
    refine buildRelay_eq_ok.mpr ⟨?_, (WireUrl.parse_append path).trans hparse, rfl⟩
    rw [List.length_append]
    exact hlength
  show (liftNif ((buildAddr wireLib upstreamId.bytes [WireUrl.base ++ path] []).map _)).bind _ = _
  rw [buildAddr_single, hrelay]
  rfl

/-- A URL that prints as it was given. -/
theorem address_usable_small :
    ∃ addr, newRelayAddr (ascii "abc") = .ok addr ∧ addr.Usable wireLib := by
  have hnew := newRelayAddr_eq_ok (WireUrl.ofPath_path ⟨ascii "abc", rfl⟩) (by decide)
  refine ⟨_, hnew, ?_⟩
  refine ((address_usable_iff wireLib_lawful).1 _ ⟨_, _, _, ⟨upstreamId, rfl⟩, hnew⟩).mpr ?_
  intro value hvalue
  rw [List.mem_singleton.mp hvalue]
  decide

/-- **An address that is refused when it is used**: 2 000 characters of its URL
are escaped when it is parsed, and the printed URL is beyond the limit. -/
theorem address_refused_when_used :
    ∃ addr, newRelayAddr (List.replicate 2000 60) = .ok addr ∧
      buildAddr wireLib addr.id.bytes addr.relayUrls addr.ipAddrs =
        .error ⟨.invalidArgument, .endpointAddr, "relay URL is too long"⟩ ∧
      ¬ addr.Usable wireLib := by
  obtain ⟨u, hparse, hpath⟩ := WireUrl.ofPath_replicate 2000
  have hlength : maxRelayUrlBytes < u.print.length := by
    rw [WireUrl.length_print, hpath]
    decide
  have hrelay : buildRelay wireLib u.print =
      .error ⟨.invalidArgument, .endpointAddr, "relay URL is too long"⟩ := if_pos hlength
  refine ⟨_, newRelayAddr_eq_ok hparse ?_, ?_, ?_⟩
  · rw [List.length_replicate]
    decide
  · show buildAddr wireLib upstreamId.bytes [u.print] [] = _
    rw [buildAddr_single, hrelay]
    rfl
  · intro husable
    have hrebuilds := (addrOf_usable_iff wireLib_lawful _).mp husable
    exact absurd (hrebuilds.urls u List.mem_cons_self).1 (Nat.not_le.mpr hlength)

end IrohBeam
