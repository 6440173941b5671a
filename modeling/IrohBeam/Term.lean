/-
IrohBeam/Term.lean

The values that cross the Elixir/Erlang API: atoms, errors, endpoint
identities and the option terms the validators tell apart
(`lib/iroh_beam/error.ex`, `lib/iroh_beam/identity.ex`,
`lib/iroh_beam/relay.ex`).

Options arrive untyped, so a validator is a function of a `Term`.  Only
proper lists occur, and a term the validators never look into (a pid, a
float, a function) is an `other`.
-/
import IrohBeam.Bytes

namespace IrohBeam

open Bytes

/-! ### Atoms and errors -/

/-- An atom, by the UTF-8 bytes of its text. -/
structure Atom where
  text : Binary
  deriving DecidableEq, Repr

/-- The atom with the given ASCII text. -/
def atom (s : String) : Atom := ⟨ascii s⟩

/-- Error categories of the native layer and of the Elixir layer above it. -/
inductive Category where
  | alreadyStarted | bindFailed | busy | cancelled | capacity | closed | duplicateIdentity
  | internal | invalidArgument | io | nativeFailure | peerAborted | refused | resolution
  | timeout | tooLarge | unauthorized
  deriving DecidableEq, Repr

/-- The operations errors are attributed to. -/
inductive OperationName where
  | nativeSmoke | endpointId | endpointAddr | endpointTicket
  | endpointStart | endpointBind | endpointClose | endpointOnline
  | connection | connectionConnect | connectionAccept | connectionClosed
  | stream | streamOpenUni | streamOpenBi | streamAcceptUni | streamAcceptBi
  | streamSend | streamRecv | streamFinish | datagramSend | datagramRecv
  | identityLoad | distribution | distributionStart | distributionStop
  deriving DecidableEq, Repr

/-- `%IrohBeam.Error{}` and the native error map it is made from.  The
context, at most the printed reason of another error, is left out. -/
structure Error where
  category : Category
  operation : OperationName
  message : String
  deriving DecidableEq, Repr

/-- How a call that does not succeed ends: with `{:error, error}`, or by
raising. -/
inductive Failure where
  | error (error : Error)
  | raised
  deriving DecidableEq, Repr

/-! ### Identities and addresses -/

/-- `%IrohBeam.EndpointId{}`. -/
structure EndpointId where
  bytes : Binary
  text : Binary
  deriving DecidableEq, Repr

/-- `%IrohBeam.EndpointAddr{}`. -/
structure EndpointAddr where
  id : EndpointId
  relayUrls : List Binary
  ipAddrs : List Binary
  deriving DecidableEq, Repr

/-- `%IrohBeam.EndpointTicket{}`. -/
structure EndpointTicket where
  addr : EndpointAddr
  text : Binary
  bytes : Binary
  deriving DecidableEq, Repr

/-- `%IrohBeam.Relay{}`. -/
structure Relay where
  url : Binary
  token : Option Binary
  deriving DecidableEq, Repr

/-- `%IrohBeam.SecretKey{}`: an opaque native resource. -/
structure SecretKey where
  resource : ℕ
  deriving DecidableEq, Repr

/-! ### Terms -/

/-- An option value. -/
inductive Term where
  | int (n : ℤ)
  | atom (a : Atom)
  | binary (b : Binary)
  | list (ts : List Term)
  | tuple (ts : List Term)
  | map (pairs : List (Term × Term))
  | secretKey (key : SecretKey)
  | relay (relay : Relay)
  | endpointId (id : EndpointId)
  | endpointAddr (addr : EndpointAddr)
  | endpointTicket (ticket : EndpointTicket)
  | other (tag : ℕ)

namespace Term

/-- `nil`, the default of an absent option. -/
def nil : Term := .atom (IrohBeam.atom "nil")

/-- `is_nil/1`. -/
def isNil : Term → Bool
  | .atom a => a == IrohBeam.atom "nil"
  | _ => false

/-- `nil` and `false` are falsy, everything else is truthy. -/
def truthy : Term → Bool
  | .atom a => a != IrohBeam.atom "nil" && a != IrohBeam.atom "false"
  | _ => true

/-- `a || b`. -/
def orElse (a b : Term) : Term := if a.truthy then a else b

/-- `is_map/1`: maps and the structs among the terms. -/
def isMap : Term → Bool
  | .map _ | .secretKey _ | .relay _ => true
  | .endpointId _ | .endpointAddr _ | .endpointTicket _ => true
  | _ => false

/-- A key given as an atom or as a string. -/
inductive Key where
  | atom (a : Atom)
  | string (b : Binary)

/-- Whether a map's key is the one looked up. -/
def Key.matches : Key → Term → Bool
  | .atom a, .atom a' => a == a'
  | .string b, .binary b' => b == b'
  | _, _ => false

/-- `Map.get/2`.  No struct above has a field that is looked up this way. -/
def mapGet (t : Term) (k : Key) : Term :=
  match t with
  | .map pairs => ((pairs.find? fun p => k.matches p.1).map Prod.snd).getD nil
  | _ => nil

/-- All elements of a list as binaries, if they are. -/
def binaries : List Term → Option (List Binary)
  | [] => some []
  | .binary b :: ts => (binaries ts).map (b :: ·)
  | _ :: _ => none

/-- All elements of a list as relay records, if they are. -/
def relays : List Term → Option (List Relay)
  | [] => some []
  | .relay r :: ts => (relays ts).map (r :: ·)
  | _ :: _ => none

end Term

/-! ### Keyword lists -/

/-- `Keyword.keyword?/1`, giving the pairs. -/
def keyword : List Term → Option (List (Atom × Term))
  | [] => some []
  | .tuple [.atom k, v] :: ts => (keyword ts).map ((k, v) :: ·)
  | _ :: _ => none

/-- `Keyword.validate/2`: every key must be one of the known ones and may be
given once; a key not given has its default. -/
def keywordValidate (pairs defaults : List (Atom × Term)) : Option (List (Atom × Term)) :=
  if (pairs.map Prod.fst).Nodup ∧ ∀ p ∈ pairs, p.1 ∈ defaults.map Prod.fst then
    some (pairs ++ defaults)
  else none

/-- `options[key]`. -/
def option (options : List (Atom × Term)) (key : String) : Term :=
  (options.lookup (atom key)).getD .nil

/-! ### Constructors of identities -/

/-- The value of a hexadecimal digit, in either case. -/
def hexDigit (x : UInt8) : Option ℕ :=
  if 48 ≤ x ∧ x ≤ 57 then some (x.toNat - 48)
  else if 65 ≤ x ∧ x ≤ 70 then some (x.toNat - 55)
  else if 97 ≤ x ∧ x ≤ 102 then some (x.toNat - 87)
  else none

/-- `Base.decode16(text, case: :mixed)`. -/
def decode16 : Binary → Option Binary
  | [] => some []
  | [_] => none
  | x :: y :: rest => do
      let hi ← hexDigit x
      let lo ← hexDigit y
      let tail ← decode16 rest
      pure (UInt8.ofNat (16 * hi + lo) :: tail)

/-- The canonical text of an endpoint identity as the native layer prints it:
hexadecimal, so that it decodes. -/
structure CanonicalId where
  text : Binary
  bytes : Binary
  decodes : decode16 text = some bytes

/-- `EndpointId.from_canonical/1`. -/
def fromCanonical (c : CanonicalId) : EndpointId := ⟨c.bytes, c.text⟩

/-- The map `endpoint_ticket_parse_text` returns. -/
structure ParsedTicket where
  endpointId : CanonicalId
  relayUrls : List Binary
  ipAddrs : List Binary
  text : Binary

/-- The identity functions of the native module that the validators call.  A text
that is not UTF-8 does not decode as an argument and raises instead: on such a text
their answer here stands for no answer of the code. -/
structure IdentityNif where
  endpointIdParse : Binary → Except Error CanonicalId
  endpointAddrNormalize :
    Binary → List Binary → List Binary → Except Error (List Binary × List Binary)
  endpointTicketParseText : Binary → Except Error ParsedTicket
  endpointTicketTextToBytes : Binary → Except Error Binary

/-- An `invalid_argument` error. -/
def invalid {α : Type*} (operation : OperationName) (message : String) : Except Failure α :=
  .error (.error ⟨.invalidArgument, operation, message⟩)

/-- Pass on a native result. -/
def liftNif {α : Type*} : Except Error α → Except Failure α
  | .ok a => .ok a
  | .error e => .error (.error e)

/-- `EndpointId.parse/1`. -/
def EndpointId.parse (nif : IdentityNif) : Term → Except Failure EndpointId
  | .binary text => (liftNif (nif.endpointIdParse text)).map fromCanonical
  | _ => invalid .endpointId "endpoint ID must be a string"

/-- `EndpointAddr.new/2` with both options given. -/
def EndpointAddr.new (nif : IdentityNif) (id : EndpointId) (relayUrls ipAddrs : Term) :
    Except Failure EndpointAddr :=
  match relayUrls, ipAddrs with
  | .list rs, .list is =>
      match Term.binaries rs, Term.binaries is with
      | some rs, some is => do
          let normalized ← liftNif (nif.endpointAddrNormalize id.bytes rs is)
          pure ⟨id, normalized.1, normalized.2⟩
      | _, _ => invalid .endpointAddr "relay_urls and ip_addrs must be lists of strings"
  | _, _ => invalid .endpointAddr "relay_urls and ip_addrs must be lists of strings"

/-- `EndpointTicket.parse/1`. -/
def EndpointTicket.parse (nif : IdentityNif) (text : Binary) : Except Failure EndpointTicket := do
  let parsed ← liftNif (nif.endpointTicketParseText text)
  let bytes ← liftNif (nif.endpointTicketTextToBytes parsed.text)
  pure ⟨⟨fromCanonical parsed.endpointId, parsed.relayUrls, parsed.ipAddrs⟩, parsed.text, bytes⟩

end IrohBeam
