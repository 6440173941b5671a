/-
IrohBeam/Server.lean

The `iroh_dist_endpoint` server (`src/iroh_dist_endpoint.erl`): lookups on the
configuration, the table of links, and the hand-over of accepted sessions to
`take_incoming/1`.

`handle` is one turn of the server on one message.  What it does to the
outside world is a list of effects, a reply to a call being one of them.  The
file ends with `handle_case`, which says once what a turn can do to the queue
and the waiter; everything else a turn does is a frame for the hand-over.
-/
import IrohBeam.Config

namespace IrohBeam

open Bytes

/-! ### State, messages and effects -/

/-- A process identifier. -/
abbrev Pid := ℕ

/-- The `From` of a call. -/
abbrev Caller := ℕ

/-- What the server reads of a connection's selected path. -/
structure Path where
  kind : Atom
  deriving DecidableEq, Repr

/-- An entry of the link table. -/
structure Link where
  owner : Pid
  remoteId : EndpointId
  path : Option Path
  bytesSent : ℕ
  bytesReceived : ℕ
  framesSent : ℕ
  framesReceived : ℕ
  deriving DecidableEq, Repr

/-- What `peer_info` shows of an entry: all but its owner. -/
structure SafeLink where
  remoteId : EndpointId
  path : Option Path
  bytesSent : ℕ
  bytesReceived : ℕ
  framesSent : ℕ
  framesReceived : ℕ
  deriving DecidableEq, Repr

/-- `maps:without([owner], Link)`. -/
def Link.safe (link : Link) : SafeLink :=
  { remoteId := link.remoteId
    path := link.path
    bytesSent := link.bytesSent
    bytesReceived := link.bytesReceived
    framesSent := link.framesSent
    framesReceived := link.framesReceived }

abbrev LinkMap := AList fun _ : Atom => Link

/-- `#state{}`. -/
structure Server where
  config : Config
  endpoint : Pid
  endpointId : EndpointId
  endpointAddr : EndpointAddr
  creation : ℕ
  acceptor : Pid
  incoming : List Session
  waiter : Option Caller
  links : LinkMap

inductive Direction where
  | sent | received
  deriving DecidableEq, Repr

/-- The calls of the server's interface.  The `path` of `register_link` is
what `Connection.path/1` answers while the call is handled. -/
inductive Request where
  | status
  | listener
  | resolve (node : Atom)
  | allowedNodes
  | validatePeer (node : Atom) (remoteId : EndpointId)
  | validatePreface (remoteName : Binary) (remoteId : EndpointId) (targetName : Binary)
  | peerInfo (node : Atom)
  | registerLink (node : Atom) (session : Session) (owner : Pid) (path : Option Path)
  | unregisterLink (node : Atom) (owner : Pid)
  | closeLink (node : Atom)
  | takeIncoming
  | unknown

/-- Why a linked process ended. -/
inductive ExitReason where
  | normal
  | abnormal (reason : ℕ)
  deriving DecidableEq, Repr

/-- What the server receives. -/
inductive Message where
  | call (request : Request) (caller : Caller)
  | updateLink (node : Atom) (owner : Pid) (direction : Direction) (bytes frames : ℕ)
  | unknownCast
  | incoming (session : Session)
  | exit (pid : Pid) (reason : ExitReason)
  | unknownInfo

/-- The part of a configuration that `status` reports; a relay's token is
reduced to whether there is one. -/
structure SafeConfig where
  mode : Mode
  name : Atom
  nameDomain : NameDomain
  network : Network ⊕ List (Binary × Bool)
  directIp : Bool
  configuredPeers : ℕ
  receiveChunk : ℕ
  maxFrame : ℕ
  maxConnections : ℕ
  netTicktime : ℕ
  netTickintensity : ℕ

/-- `safe_network/1`. -/
def safeNetwork : Network → Network ⊕ List (Binary × Bool)
  | .custom relays => .inr (relays.map fun r => (r.url, r.token.isSome))
  | network => .inl network

/-- `safe/1`. -/
def Config.safe (c : Config) : SafeConfig :=
  { mode := c.mode
    name := c.name
    nameDomain := c.nameDomain
    network := safeNetwork c.network
    directIp := c.directIp
    configuredPeers := c.peers.keys.length
    receiveChunk := c.receiveChunk
    maxFrame := c.maxFrame
    maxConnections := c.maxConnections
    netTicktime := c.netTicktime
    netTickintensity := c.netTickintensity }

/-- The reasons the server's calls refuse with. -/
inductive CallError where
  | peer (error : PeerError)
  | notConnected
  | busy
  | unsupportedCall

/-- What the server's calls answer. -/
inductive Reply where
  | ok
  | status (config : SafeConfig) (endpointId : EndpointId) (endpointAddr : EndpointAddr)
      (pendingIncoming activeLinks : ℕ)
  | listener (endpointId : EndpointId) (endpointAddr : EndpointAddr) (creation : ℕ)
  | resolved (peer : Peer) (endpoint : Pid)
      (connectTimeout streamTimeout receiveChunk maxFrame : ℕ)
  | nodes (nodes : List Atom)
  | authorized (node : Atom)
  | peerInfo (node : Atom) (expectedId : EndpointId) (connected : Bool) (link : Option SafeLink)
  | session (session : Session)
  | error (error : CallError)

/-- What a turn of the server does outside its state. -/
inductive Effect where
  | reply (caller : Caller) (reply : Reply)
  | closeSession (session : Session)
  | nodeUp (path : Option Path)
  | nodeDown
  | closeController (owner : Pid)
  | closeEndpoint (endpoint : Pid) (timeout : ℕ)

/-- Why the server stops of its own accord. -/
inductive StopReason where
  | endpointClosed
  | endpointExit (reason : ExitReason)
  | acceptorExit (reason : ExitReason)
  deriving DecidableEq, Repr

/-- The state `finish_init/2` starts with. -/
def Server.start (config : Config) (endpoint : Pid) (endpointId : EndpointId)
    (endpointAddr : EndpointAddr) (creation : ℕ) (acceptor : Pid) : Server :=
  { config, endpoint, endpointId, endpointAddr, creation, acceptor
    incoming := []
    waiter := none
    links := ∅ }

/-! ### Handling messages -/

/-- The answer of `validate_peer`. -/
def validatePeer (c : Config) (node : Atom) (remoteId : EndpointId) : Except PeerError Unit :=
  match c.expectedId node with
  | .ok id => if id = remoteId then .ok () else .error .identityMismatch
  | .error e => .error e

/-- A lookup's result as a reply. -/
def replyOf {α : Type} (f : α → Reply) : Except PeerError α → Reply
  | .ok a => f a
  | .error e => .error (.peer e)

/-- The link table's entry for a node, if the given process owns it. -/
def Server.ownedLink (s : Server) (node : Atom) (owner : Pid) : Option Link :=
  (s.links.lookup node).filter fun link => link.owner = owner

/-- `handle_call/3`. -/
def handleCall (request : Request) (caller : Caller) (s : Server) : Server × List Effect :=
  match request with
  | .status =>
      (s, [.reply caller (.status s.config.safe s.endpointId s.endpointAddr s.incoming.length
        s.links.keys.length)])
  | .listener => (s, [.reply caller (.listener s.endpointId s.endpointAddr s.creation)])
  | .resolve node =>
      (s, [.reply caller (replyOf (fun peer => .resolved peer s.endpoint s.config.connectTimeout
        s.config.streamTimeout s.config.receiveChunk s.config.maxFrame)
        (s.config.resolve node))])
  | .allowedNodes => (s, [.reply caller (.nodes s.config.allowedNodes)])
  | .validatePeer node remoteId =>
      (s, [.reply caller (replyOf (fun _ => .ok) (validatePeer s.config node remoteId))])
  | .validatePreface remoteName remoteId targetName =>
      (s, [.reply caller (replyOf .authorized
        (s.config.authorizeClaim remoteName remoteId targetName))])
  | .peerInfo node =>
      (s, [.reply caller (replyOf (fun peer => .peerInfo node peer.id
        (s.links.lookup node).isSome ((s.links.lookup node).map Link.safe))
        (s.config.resolve node))])
  | .registerLink node session owner path =>
      ({ s with links := s.links.insert node ⟨owner, session.remoteId, path, 0, 0, 0, 0⟩ },
        [.nodeUp path, .reply caller .ok])
  | .unregisterLink node owner =>
      match s.ownedLink node owner with
      | some _ => ({ s with links := s.links.erase node }, [.nodeDown, .reply caller .ok])
      | none => (s, [.reply caller .ok])
  | .closeLink node =>
      match s.links.lookup node with
      | some link => (s, [.closeController link.owner, .reply caller .ok])
      | none => (s, [.reply caller (.error .notConnected)])
  | .takeIncoming =>
      match s.waiter with
      | none =>
          match s.incoming with
          | session :: queue =>
              ({ s with incoming := queue }, [.reply caller (.session session)])
          | [] => ({ s with waiter := some caller }, [])
      | some _ => (s, [.reply caller (.error .busy)])
  | .unknown => (s, [.reply caller (.error .unsupportedCall)])

/-- `increment_link/4`. -/
def Link.increment (link : Link) (bytes frames : ℕ) : Direction → Link
  | .sent =>
      { link with
        bytesSent := link.bytesSent + bytes
        framesSent := link.framesSent + frames }
  | .received =>
      { link with
        bytesReceived := link.bytesReceived + bytes
        framesReceived := link.framesReceived + frames }

/-- `handle_cast/2` on `update_link`. -/
def Server.updateLink (s : Server) (node : Atom) (owner : Pid) (direction : Direction)
    (bytes frames : ℕ) : Server :=
  match s.ownedLink node owner with
  | some link => { s with links := s.links.insert node (link.increment bytes frames direction) }
  | none => s

/-- `handle_info/2` on `{incoming, Session}`. -/
def Server.acceptIncoming (s : Server) (session : Session) : Server × List Effect :=
  match s.waiter with
  | none =>
      match s.incoming.length with
      | 0 => ({ s with incoming := s.incoming ++ [session] }, [])
      | _ => (s, [.closeSession session])
  | some caller => ({ s with waiter := none }, [.reply caller (.session session)])

/-- `handle_info/2` on `{'EXIT', Pid, Reason}`. -/
def Server.linkedExit (s : Server) (pid : Pid) (reason : ExitReason) : Option StopReason :=
  if pid = s.endpoint then
    match reason with
    | .normal => some .endpointClosed
    | _ => some (.endpointExit reason)
  else if pid = s.acceptor then some (.acceptorExit reason)
  else none

/-- One turn: the new state, the effects, and whether the server stops. -/
def handle (message : Message) (s : Server) : Server × List Effect × Option StopReason :=
  match message with
  | .call request caller =>
      match handleCall request caller s with
      | (s', effects) => (s', effects, none)
  | .updateLink node owner direction bytes frames =>
      (s.updateLink node owner direction bytes frames, [], none)
  | .incoming session =>
      match s.acceptIncoming session with
      | (s', effects) => (s', effects, none)
  | .exit pid reason => (s, [], s.linkedExit pid reason)
  | .unknownCast | .unknownInfo => (s, [], none)

/-- `terminate/2`: close what is queued, then the endpoint if it is alive. -/
def Server.terminate (s : Server) (endpointAlive : Bool) : List Effect :=
  s.incoming.map .closeSession ++
    if endpointAlive then [.closeEndpoint s.endpoint s.config.shutdownTimeout] else []

/-! ### What a turn does to the hand-over -/

/-- The session an effect hands to a caller. -/
def Effect.handed : Effect → Option (Caller × Session)
  | .reply caller (.session session) => some (caller, session)
  | _ => none

/-- The session an effect closes. -/
def Effect.closed : Effect → Option Session
  | .closeSession session => some session
  | _ => none

/-- The caller whose `take_incoming/1` an effect answers. -/
def Effect.answered : Effect → Option Caller
  | .reply caller (.session _) | .reply caller (.error .busy) => some caller
  | _ => none

/-- The session a message brings. -/
def Message.session : Message → Option Session
  | .incoming session => some session
  | _ => none

/-- The caller of a `take_incoming/1` message. -/
def Message.taker : Message → Option Caller
  | .call .takeIncoming caller => some caller
  | _ => none

@[simp] theorem handed_session (caller : Caller) (session : Session) :
    (Effect.reply caller (.session session)).handed = some (caller, session) := rfl

@[simp] theorem handed_busy (caller : Caller) :
    (Effect.reply caller (.error .busy)).handed = none := rfl

@[simp] theorem handed_closeSession (session : Session) :
    (Effect.closeSession session).handed = none := rfl

@[simp] theorem handed_closeEndpoint (endpoint : Pid) (timeout : ℕ) :
    (Effect.closeEndpoint endpoint timeout).handed = none := rfl

@[simp] theorem closed_reply (caller : Caller) (reply : Reply) :
    (Effect.reply caller reply).closed = none := rfl

@[simp] theorem closed_closeSession (session : Session) :
    (Effect.closeSession session).closed = some session := rfl

@[simp] theorem closed_closeEndpoint (endpoint : Pid) (timeout : ℕ) :
    (Effect.closeEndpoint endpoint timeout).closed = none := rfl

@[simp] theorem answered_session (caller : Caller) (session : Session) :
    (Effect.reply caller (.session session)).answered = some caller := rfl

@[simp] theorem answered_busy (caller : Caller) :
    (Effect.reply caller (.error .busy)).answered = some caller := rfl

@[simp] theorem answered_closeSession (session : Session) :
    (Effect.closeSession session).answered = none := rfl

@[simp] theorem answered_closeEndpoint (endpoint : Pid) (timeout : ℕ) :
    (Effect.closeEndpoint endpoint timeout).answered = none := rfl

@[simp] theorem session_incoming (session : Session) :
    (Message.incoming session).session = some session := rfl

@[simp] theorem session_call (request : Request) (caller : Caller) :
    (Message.call request caller).session = none := rfl

@[simp] theorem taker_takeIncoming (caller : Caller) :
    (Message.call .takeIncoming caller).taker = some caller := rfl

@[simp] theorem taker_incoming (session : Session) :
    (Message.incoming session).taker = none := rfl

/-- An effect that the hand-over has no part in. -/
def Effect.Inert (e : Effect) : Prop := e.handed = none ∧ e.closed = none ∧ e.answered = none

/-- What one turn can do to queue and waiter. -/
inductive HandoffCase (s : Server) : Message → Server → List Effect → Prop
  | frame {m s' fx} : m.session = none → m.taker = none →
      s'.incoming = s.incoming → s'.waiter = s.waiter → (∀ e ∈ fx, e.Inert) →
      HandoffCase s m s' fx
  | take {caller session s'} : s.waiter = none → s.incoming = session :: s'.incoming →
      s'.waiter = none →
      HandoffCase s (.call .takeIncoming caller) s' [.reply caller (.session session)]
  | wait {caller s'} : s.waiter = none → s.incoming = [] → s'.incoming = [] →
      s'.waiter = some caller → HandoffCase s (.call .takeIncoming caller) s' []
  | busy {caller other} : s.waiter = some other →
      HandoffCase s (.call .takeIncoming caller) s [.reply caller (.error .busy)]
  | enqueue {session s'} : s.waiter = none → s.incoming = [] → s'.incoming = [session] →
      s'.waiter = none → HandoffCase s (.incoming session) s' []
  | refuse {session} : s.waiter = none → s.incoming ≠ [] →
      HandoffCase s (.incoming session) s [.closeSession session]
  | hand {session caller s'} : s.waiter = some caller → s'.incoming = s.incoming →
      s'.waiter = none →
      HandoffCase s (.incoming session) s' [.reply caller (.session session)]

/-- A lookup's reply is inert when its positive answers are. -/
theorem replyOf_inert {α : Type} {f : α → Reply} {caller : Caller}
    (hf : ∀ a, (Effect.reply caller (f a)).Inert) (x : Except PeerError α) :
    (Effect.reply caller (replyOf f x)).Inert := by
  cases x with
  | error e => exact ⟨rfl, rfl, rfl⟩
  | ok a => exact hf a

/-- A call that only answers from the state. -/
theorem HandoffCase.answer {s : Server} {m : Message} {e : Effect} (hsession : m.session = none)
    (htaker : m.taker = none) (he : e.Inert) : HandoffCase s m s [e] := by
  refine .frame hsession htaker rfl rfl ?_
  intro e' he'
  rwa [List.mem_singleton.mp he']

/-- A call with two inert effects. -/
theorem HandoffCase.change {s s' : Server} {m : Message} {e e' : Effect}
    (hsession : m.session = none) (htaker : m.taker = none) (hin : s'.incoming = s.incoming)
    (hwaiter : s'.waiter = s.waiter) (he : e.Inert) (he' : e'.Inert) :
    HandoffCase s m s' [e, e'] := by
  refine .frame hsession htaker hin hwaiter ?_
  intro f hf
  rcases List.mem_pair.mp hf with rfl | rfl
  · exact he
  · exact he'

theorem handleCall_case (request : Request) (caller : Caller) (s : Server) :
    HandoffCase s (.call request caller) (handleCall request caller s).1
      (handleCall request caller s).2 := by
  cases request with
  | status => exact .answer rfl rfl ⟨rfl, rfl, rfl⟩
  | listener => exact .answer rfl rfl ⟨rfl, rfl, rfl⟩
  | resolve node => exact .answer rfl rfl (replyOf_inert (fun _ => ⟨rfl, rfl, rfl⟩) _)
  | allowedNodes => exact .answer rfl rfl ⟨rfl, rfl, rfl⟩
  | validatePeer node id => exact .answer rfl rfl (replyOf_inert (fun _ => ⟨rfl, rfl, rfl⟩) _)
  | validatePreface remote id target =>
      exact .answer rfl rfl (replyOf_inert (fun _ => ⟨rfl, rfl, rfl⟩) _)
  | peerInfo node => exact .answer rfl rfl (replyOf_inert (fun _ => ⟨rfl, rfl, rfl⟩) _)
  | registerLink node session owner path =>
      exact .change rfl rfl rfl rfl ⟨rfl, rfl, rfl⟩ ⟨rfl, rfl, rfl⟩
  | unregisterLink node owner =>
      simp only [handleCall]
      split
      · exact .change rfl rfl rfl rfl ⟨rfl, rfl, rfl⟩ ⟨rfl, rfl, rfl⟩
      · exact .answer rfl rfl ⟨rfl, rfl, rfl⟩
  | closeLink node =>
      simp only [handleCall]
      split
      · exact .change rfl rfl rfl rfl ⟨rfl, rfl, rfl⟩ ⟨rfl, rfl, rfl⟩
      · exact .answer rfl rfl ⟨rfl, rfl, rfl⟩
  | takeIncoming =>
      simp only [handleCall]
      split
      · next hwaiter =>
          split
          · next hqueue => exact .take hwaiter hqueue hwaiter
          · next hqueue => exact .wait hwaiter hqueue hqueue rfl
      · next hwaiter => exact .busy hwaiter
  | unknown => exact .answer rfl rfl ⟨rfl, rfl, rfl⟩

theorem acceptIncoming_case (s : Server) (session : Session) :
    HandoffCase s (.incoming session) (s.acceptIncoming session).1
      (s.acceptIncoming session).2 := by
  unfold Server.acceptIncoming
  split
  · next hwaiter =>
      split
      · next hlen =>
          have hnil := List.length_eq_zero_iff.mp hlen
          exact .enqueue hwaiter hnil (by rw [hnil]; rfl) hwaiter
      · next hlen => exact .refuse hwaiter (fun hnil => hlen (by rw [hnil]; rfl))
  · next hwaiter => exact .hand hwaiter rfl rfl

theorem updateLink_frame (s : Server) (node : Atom) (owner : Pid) (direction : Direction)
    (bytes frames : ℕ) :
    (s.updateLink node owner direction bytes frames).incoming = s.incoming ∧
      (s.updateLink node owner direction bytes frames).waiter = s.waiter := by
  unfold Server.updateLink
  split <;> exact ⟨rfl, rfl⟩

/-- **What a turn does to the hand-over**, one case for each clause that
touches queue or waiter and a frame for all the others. -/
theorem handle_case (m : Message) (s : Server) :
    HandoffCase s m (handle m s).1 (handle m s).2.1 := by
  cases m with
  | call request caller => exact handleCall_case request caller s
  | updateLink node owner direction bytes frames =>
      obtain ⟨hin, hwaiter⟩ := updateLink_frame s node owner direction bytes frames
      exact .frame rfl rfl hin hwaiter (by simp [handle])
  | incoming session => exact acceptIncoming_case s session
  | exit pid reason => exact .frame rfl rfl rfl rfl (by simp [handle])
  | unknownCast => exact .frame rfl rfl rfl rfl (by simp [handle])
  | unknownInfo => exact .frame rfl rfl rfl rfl (by simp [handle])

/-! ### Conservation -/

/-- The queue holds at most one session, and none while a caller waits. -/
structure Server.Tidy (s : Server) : Prop where
  queue_le : s.incoming.length ≤ 1
  waiter : s.waiter ≠ none → s.incoming = []

namespace HandoffCase

variable {s s' : Server} {m : Message} {fx : List Effect}

/-- Inert effects leave no trace. -/
theorem filterMap_inert (h : ∀ e ∈ fx, e.Inert) :
    fx.filterMap Effect.handed = [] ∧ fx.filterMap Effect.closed = [] ∧
      fx.filterMap Effect.answered = [] := by
  refine ⟨?_, ?_, ?_⟩ <;> rw [List.filterMap_eq_nil_iff] <;> intro e he
  · exact (h e he).1
  · exact (h e he).2.1
  · exact (h e he).2.2

theorem tidy (h : HandoffCase s m s' fx) (hs : s.Tidy) : s'.Tidy := by
  cases h with
  | frame _ _ hin hwaiter _ => exact ⟨by rw [hin]; exact hs.1, by rw [hin, hwaiter]; exact hs.2⟩
  | take _ hin hwaiter' =>
      have hlen := hs.queue_le
      rw [hin, List.length_cons] at hlen
      exact ⟨Nat.le_of_succ_le hlen, fun hne => absurd hwaiter' hne⟩
  | wait _ _ hin' _ => exact ⟨by simp [hin'], fun _ => hin'⟩
  | busy _ => exact hs
  | enqueue _ _ hin' hwaiter' => exact ⟨by simp [hin'], fun hne => absurd hwaiter' hne⟩
  | refuse _ _ => exact hs
  | hand _ hin' hwaiter' => exact ⟨by rw [hin']; exact hs.1, fun hne => absurd hwaiter' hne⟩

/-- A turn answers or keeps waiting every call it knows of. -/
theorem calls (h : HandoffCase s m s' fx) :
    (m.taker.toList ++ s.waiter.toList).Perm
      (fx.filterMap Effect.answered ++ s'.waiter.toList) := by
  cases h with
  | frame _ htaker _ hwaiter hfx => simp [htaker, hwaiter, (filterMap_inert hfx).2.2]
  | take hwaiter _ hwaiter' => simp [hwaiter, hwaiter']
  | wait hwaiter _ _ hwaiter' => simp [hwaiter, hwaiter']
  | busy hwaiter => simp
  | enqueue hwaiter _ _ hwaiter' => simp [hwaiter, hwaiter']
  | refuse hwaiter _ => simp [List.filterMap_cons]
  | hand hwaiter _ hwaiter' => simp [hwaiter, hwaiter']

/-- A turn keeps, hands over or closes every session it knows of. -/
theorem sessions (h : HandoffCase s m s' fx) :
    (m.session.toList ++ s.incoming).Perm
      (s'.incoming ++ (fx.filterMap Effect.handed).map Prod.snd ++ fx.filterMap Effect.closed) := by
  cases h with
  | frame hsession _ hin _ hfx =>
      obtain ⟨hhanded, hclosed, -⟩ := filterMap_inert hfx
      simp [hsession, hin, hhanded, hclosed]
  | take _ hin _ =>
      simpa [hin, List.filterMap_cons] using (List.perm_append_singleton _ _).symm
  | wait _ hin hin' _ => simp [hin, hin']
  | busy _ => simp [List.filterMap_cons]
  | enqueue _ hin hin' _ => simp [hin, hin']
  | refuse _ _ => simpa [List.filterMap_cons] using (List.perm_append_singleton _ _).symm
  | hand _ hin' _ =>
      simpa [hin', List.filterMap_cons] using (List.perm_append_singleton _ _).symm

/-- A turn hands over in order of arrival. -/
theorem order (h : HandoffCase s m s' fx) (hs : s.Tidy) :
    ((fx.filterMap Effect.handed).map Prod.snd ++ s'.incoming).Sublist
      (s.incoming ++ m.session.toList) := by
  cases h with
  | frame hsession _ hin _ hfx => simp [hsession, hin, (filterMap_inert hfx).1]
  | take _ hin _ => simp [hin]
  | wait _ hin hin' _ => simp [hin']
  | busy _ => simp [List.filterMap_cons]
  | enqueue _ hin hin' _ => simp [hin, hin']
  | refuse _ _ => simp [List.filterMap_cons]
  | hand hwaiter hin' _ =>
      -- a waiter excludes a queue, so the arriving session is the next one
      have hnil := hs.waiter (by simp [hwaiter])
      simp [hin', hnil]

end HandoffCase

/-- No turn changes the configuration. -/
theorem handle_config (m : Message) (s : Server) : (handle m s).1.config = s.config := by
  cases m with
  | call request caller =>
      cases request <;> simp only [handle, handleCall] <;> repeat' split
      all_goals rfl
  | updateLink node owner direction bytes frames =>
      simp only [handle, Server.updateLink]
      split <;> rfl
  | incoming session =>
      simp only [handle, Server.acceptIncoming]
      repeat' split
      all_goals rfl
  | exit pid reason => rfl
  | unknownCast => rfl
  | unknownInfo => rfl

end IrohBeam
