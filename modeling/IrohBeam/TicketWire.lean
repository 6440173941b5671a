/-
IrohBeam/TicketWire.lean

A library for addresses and tickets (`IrohBeam/Addresses.lean`) that computes:
the binary form of an endpoint ticket for addresses that are relays,

    00, the identity, the number of addresses, and for each
    00, the length of its URL, the URL

with numbers as variable-length integers, which is the form of the test vector in
`test/identity_test.exs`; identities printed in hexadecimal; and the URLs of one
host with a path of letters, digits and percent signs.  The path of such a URL
may also be given with `<`, which a parser escapes, so that the printed URL is
longer than the one that was parsed.

`wireLib_lawful` says that it is a lawful library: it decodes what it encodes and
parses what it prints.
-/
import IrohBeam.Addresses

namespace IrohBeam

open Bytes

/-! ### Identities -/

/-- An identity: its 32 bytes. -/
structure WireId where
  bytes : Binary
  length_eq : bytes.length = keySize

def WireId.ofBytes (bytes : Binary) : Option WireId :=
  if h : bytes.length = keySize then some ⟨bytes, h⟩ else none

theorem WireId.ofBytes_bytes (id : WireId) : WireId.ofBytes id.bytes = some id :=
  dif_pos id.length_eq

/-- A hexadecimal digit, in lower case. -/
def hexChar (v : ℕ) : UInt8 := UInt8.ofNat (if v < 10 then 48 + v else 87 + v)

/-- Two digits to a byte. -/
def encode16 (b : Binary) : Binary := b.flatMap fun x => [hexChar (x.toNat / 16), hexChar (x.toNat % 16)]

theorem hexDigit_hexChar : ∀ v < 16, hexDigit (hexChar v) = some v := by decide

theorem decode16_encode16 (b : Binary) : decode16 (encode16 b) = some b := by
  induction b with
  | nil => rfl
  | cons x b ih =>
      have hx : x.toNat < 256 := x.toNat_lt
      have hbyte : UInt8.ofNat (16 * (x.toNat / 16) + x.toNat % 16) = x := by
        rw [Nat.div_add_mod, UInt8.ofNat_toNat]
      rw [encode16, List.flatMap_cons, List.cons_append, List.singleton_append, decode16,
        hexDigit_hexChar _ (by omega), hexDigit_hexChar _ (by omega)]
      show ((decode16 (encode16 b)).bind _) = _
      rw [ih]
      show some (UInt8.ofNat (16 * (x.toNat / 16) + x.toNat % 16) :: b) = _
      rw [hbyte]

def WireId.canonical (id : WireId) : CanonicalId := ⟨encode16 id.bytes, id.bytes, decode16_encode16 id.bytes⟩

/-! ### URLs -/

/-- A byte that stands in a path as it is. -/
def isPathByte (x : UInt8) : Bool :=
  97 ≤ x && x ≤ 122 || 65 ≤ x && x ≤ 90 || 48 ≤ x && x ≤ 57 || x == 37

/-- A URL of the host `relay.example`, by its path. -/
structure WireUrl where
  path : Binary
  isPath : path.all isPathByte = true

theorem WireUrl.path_injective : Function.Injective WireUrl.path := by
  rintro ⟨path, _⟩ ⟨path', _⟩ h
  cases h
  rfl

/-- URLs are compared as strings. -/
instance : LinearOrder WireUrl :=
  LinearOrder.lift' (fun u => u.path.map UInt8.toNat) fun _ _ h =>
    WireUrl.path_injective (List.map_injective_iff.mpr (fun _ _ => UInt8.toNat_inj.mp) h)

def WireUrl.cons (x : UInt8) (h : isPathByte x = true) (u : WireUrl) : WireUrl :=
  ⟨x :: u.path, by rw [List.all_cons, h, u.isPath]; rfl⟩

/-- The path of a URL, with `<` escaped as `%3C`. -/
def WireUrl.ofPath : Binary → Option WireUrl
  | [] => some ⟨[], rfl⟩
  | x :: rest =>
      (ofPath rest).bind fun u =>
        if x = 60 then some (((u.cons 67 rfl).cons 51 rfl).cons 37 rfl)
        else if h : isPathByte x = true then some (u.cons x h)
        else none

def WireUrl.base : Binary := ascii "https://relay.example/"

def WireUrl.parse (value : Binary) : Option WireUrl :=
  if base.isPrefixOf value then ofPath (value.drop base.length) else none

def WireUrl.print (u : WireUrl) : Binary := base ++ u.path

theorem WireUrl.ofPath_path (u : WireUrl) : ofPath u.path = some u := by
  obtain ⟨path, hpath⟩ := u
  induction path with
  | nil => rfl
  | cons x path ih =>
      rw [List.all_cons, Bool.and_eq_true] at hpath
      have hne : x ≠ 60 := by
        rintro rfl
        exact absurd hpath.1 (by decide)
      rw [ofPath, ih hpath.2, Option.bind_some, if_neg hne, dif_pos hpath.1]
      rfl

theorem WireUrl.parse_append (path : Binary) : parse (base ++ path) = ofPath path := by
  have hbase : base.isPrefixOf (base ++ path) = true :=
    List.isPrefixOf_iff_prefix.mpr (List.prefix_append base path)
  rw [parse, if_pos hbase, List.drop_left]

theorem WireUrl.parse_print (u : WireUrl) : parse u.print = some u := by
  rw [print, parse_append, ofPath_path]

/-- A path of escaped characters prints three times as long. -/
theorem WireUrl.ofPath_replicate (n : ℕ) :
    ∃ u, ofPath (List.replicate n 60) = some u ∧ u.path.length = 3 * n := by
  induction n with
  | zero => exact ⟨_, rfl, rfl⟩
  | succ n ih =>
      obtain ⟨u, hu, hlength⟩ := ih
      refine ⟨((u.cons 67 rfl).cons 51 rfl).cons 37 rfl, ?_, ?_⟩
      · rw [List.replicate_succ, ofPath, hu, Option.bind_some, if_pos rfl]
      · show u.path.length + 3 = _
        rw [hlength]
        omega

/-! ### Addresses -/

/-- Addresses that are relays. -/
abbrev WireAddr := NativeAddr WireId WireUrl (Fin 0) (Fin 0)

theorem WireAddr.addrs_eq (a : WireAddr) : .ofList (a.relayUrls.map .relay) = a.addrs := by
  have helems : a.relayUrls.map .relay = a.addrs.elems := by
    rw [NativeAddr.relayUrls, List.map_filterMap]
    rw [show (fun x : TransportAddr WireUrl (Fin 0) (Fin 0) => x.asRelay.map .relay) = some from ?_]
    · exact List.filterMap_some
    · funext x
      rcases x with u | s | o
      · rfl
      · exact s.elim0
      · exact o.elim0
  rw [helems, SortedSet.ofList_elems]

/-- One address on the wire. -/
def encodeRelay (u : WireUrl) : Binary := 0 :: (varint u.print.length ++ u.print)

def encodeAddr (a : WireAddr) : Binary :=
  0 :: (a.id.bytes ++ (varint a.relayUrls.length ++ a.relayUrls.flatMap encodeRelay))

/-- Read `n` addresses. -/
def decodeRelays : ℕ → Binary → Option (List WireUrl × Binary)
  | 0, b => some ([], b)
  | n + 1, 0 :: b => do
      let (length, b) ← ofVarint b
      -- the end is cut off
      if b.length < length then none
      else
        let url ← WireUrl.parse (b.take length)
        let (urls, b) ← decodeRelays n (b.drop length)
        pure (url :: urls, b)
  | _ + 1, _ => none

def decodeAddr : Binary → Option WireAddr
  | 0 :: b => do
      let id ← WireId.ofBytes (b.take keySize)
      let (count, b) ← ofVarint (b.drop keySize)
      let (urls, _) ← decodeRelays count b
      pure ⟨id, .ofList (urls.map .relay)⟩
  | _ => none

theorem decodeRelays_encode (urls : List WireUrl) (rest : Binary) :
    decodeRelays urls.length (urls.flatMap encodeRelay ++ rest) = some (urls, rest) := by
  induction urls with
  | nil => rfl
  | cons u urls ih =>
      have hu : (u :: urls).flatMap encodeRelay ++ rest =
          0 :: (varint u.print.length ++ (u.print ++ (urls.flatMap encodeRelay ++ rest))) := by
        simp [encodeRelay]
      have hwhole : ¬ (u.print ++ (urls.flatMap encodeRelay ++ rest)).length < u.print.length := by
        rw [List.length_append]
        exact Nat.not_lt.mpr (Nat.le_add_right _ _)
      rw [hu, List.length_cons, decodeRelays, ofVarint_varint, Option.bind_eq_bind,
        Option.bind_some]
      dsimp only
      rw [if_neg hwhole]
      show ((WireUrl.parse ((u.print ++ _).take u.print.length)).bind _) = _
      rw [List.take_left, WireUrl.parse_print]
      show ((decodeRelays urls.length ((u.print ++ _).drop u.print.length)).bind _) = _
      rw [List.drop_left, ih]
      rfl

theorem decodeAddr_encodeAddr (a : WireAddr) : decodeAddr (encodeAddr a) = some a := by
  have hlength : keySize = a.id.bytes.length := a.id.length_eq.symm
  rw [encodeAddr, decodeAddr, hlength, List.take_left, List.drop_left, WireId.ofBytes_bytes]
  show ((ofVarint (varint a.relayUrls.length ++ a.relayUrls.flatMap encodeRelay)).bind _) = _
  rw [ofVarint_varint]
  show ((decodeRelays a.relayUrls.length (a.relayUrls.flatMap encodeRelay)).bind _) = _
  rw [← List.append_nil (a.relayUrls.flatMap encodeRelay), decodeRelays_encode]
  show some (NativeAddr.mk a.id (.ofList (a.relayUrls.map .relay))) = _
  rw [WireAddr.addrs_eq]

/-! ### The library -/

def wireLib : IdentityLib WireId WireUrl (Fin 0) (Fin 0) where
  idFromBytes := WireId.ofBytes
  -- digits in upper case are refused
  idFromStr text := ((decode16 text).bind WireId.ofBytes).filter fun id => encode16 id.bytes = text
  canonical := WireId.canonical
  urlFromStr := WireUrl.parse
  urlToString := WireUrl.print
  scheme _ := ascii "https"
  hostStr _ := some (ascii "relay.example")
  username _ := []
  password _ := none
  query _ := none
  fragment _ := none
  socketFromStr _ := none
  socketToString := Fin.elim0
  encodeBytes := encodeAddr
  decodeBytes := decodeAddr

/-- The library decodes what it encodes and parses what it prints. -/
theorem wireLib_lawful : wireLib.Lawful where
  id_length := WireId.length_eq
  id_bytes := WireId.ofBytes_bytes
  id_text id := by
    show ((decode16 (encode16 id.bytes)).bind WireId.ofBytes).filter _ = _
    rw [decode16_encode16, Option.bind_some, WireId.ofBytes_bytes, Option.filter_some]
    exact if_pos (decide_eq_true rfl)
  url := WireUrl.parse_print
  socket := Fin.rec0
  ticket := decodeAddr_encodeAddr

/-- An address with one relay. -/
def WireAddr.single (id : WireId) (u : WireUrl) : WireAddr := ⟨id, .ofList [.relay u]⟩

theorem WireAddr.relayUrls_single (id : WireId) (u : WireUrl) : (single id u).relayUrls = [u] := rfl

/-- The size of its ticket. -/
theorem WireAddr.length_single (id : WireId) (u : WireUrl) :
    (encodeAddr (single id u)).length = 35 + (varint u.print.length).length + u.print.length := by
  have hone : varint 1 = [1] := by
    rw [varint]
    rfl
  rw [encodeAddr, relayUrls_single]
  simp only [List.length_cons, List.length_append, List.length_nil, List.flatMap_cons,
    List.flatMap_nil, encodeRelay, hone, single, id.length_eq, keySize]
  omega

/-! ### Samples -/

/-- The identity of the test vector. -/
def upstreamId : WireId where
  bytes := [0xae, 0x58, 0xff, 0x88, 0x33, 0x24, 0x1a, 0xc8, 0x2d, 0x6f, 0xf7, 0x61, 0x10, 0x46, 0xed,
    0x67, 0xb5, 0x07, 0x2d, 0x14, 0x2c, 0x58, 0x8d, 0x00, 0x63, 0xe9, 0x42, 0xd9, 0xa7, 0x55, 0x02, 0xb6]
  length_eq := rfl

/-- A URL with a path of `n` letters. -/
def WireUrl.ofLength (n : ℕ) : WireUrl := ⟨List.replicate n 97, by simp [isPathByte]⟩

theorem WireUrl.length_print (u : WireUrl) : u.print.length = 22 + u.path.length :=
  List.length_append

theorem WireUrl.length_ofLength (n : ℕ) : (ofLength n).print.length = 22 + n := by
  rw [length_print, ofLength, List.length_replicate]

end IrohBeam
