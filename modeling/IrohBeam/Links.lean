/-
IrohBeam/Links.lean

The link table of the `iroh_dist_endpoint` server over any sequence of messages
it processes.

`register_link` writes a fresh entry for its node whatever is there,
`unregister_link` and `update_link` act on an entry only for the process that
owns it.  So what the table has for one node depends on the messages alone:
`handle_lookup` gives the entry after a turn as a function of the entry before
it (`linkStep`), and a history of messages folds over one cell.

* `links_exact` — the entry of a node is the one of its last registration, with
  the updates of that owner since added up, until that owner takes it out.
* `node_events_balance_iff` — the telemetry events for nodes going up and down
  balance against the number of entries in every state exactly if no
  registration finds an entry for its node.
-/
import IrohBeam.Server
import Mathlib.Algebra.Order.BigOperators.Group.List

namespace IrohBeam

/-! ### Processing messages -/

/-- The server and its effects so far. -/
structure Served where
  server : Server
  log : List Effect

/-- One turn. -/
def serve (s : Served) (m : Message) : Served :=
  ⟨(handle m s.server).1, s.log ++ (handle m s.server).2.1⟩

/-- Turns on a sequence of messages. -/
def serveAll (server : Server) (ms : List Message) : Served := ms.foldl serve ⟨server, []⟩

theorem serveAll_concat (server : Server) (ms : List Message) (m : Message) :
    serveAll server (ms ++ [m]) = serve (serveAll server ms) m := by
  rw [serveAll, List.foldl_append]
  rfl

/-! ### What messages say about a node -/

/-- The entry a `register_link` for the node writes. -/
def Message.registration (node : Atom) : Message → Option Link
  | .call (.registerLink n session owner path) _ =>
      if n = node then some ⟨owner, session.remoteId, path, 0, 0, 0, 0⟩ else none
  | _ => none

/-- The message is an `unregister_link` for the node by this owner. -/
def Message.removes (node : Atom) (owner : Pid) : Message → Bool
  | .call (.unregisterLink n o) _ => n = node ∧ o = owner
  | _ => false

/-- The message is an `update_link` for the node by this owner. -/
def Message.updates (node : Atom) (owner : Pid) : Message → Bool
  | .updateLink n o _ _ _ => n = node ∧ o = owner
  | _ => false

/-- The bytes and frames an `update_link` for the node by this owner reports in
one direction. -/
def Message.counts (node : Atom) (owner : Pid) (direction : Direction) : Message → ℕ × ℕ
  | .updateLink n o d bytes frames =>
      if n = node ∧ o = owner ∧ d = direction then (bytes, frames) else (0, 0)
  | _ => (0, 0)

/-- The bytes reported in a history. -/
def bytesCounted (node : Atom) (owner : Pid) (direction : Direction) (ms : List Message) : ℕ :=
  (ms.map fun m => (m.counts node owner direction).1).sum

/-- The frames reported in a history. -/
def framesCounted (node : Atom) (owner : Pid) (direction : Direction) (ms : List Message) : ℕ :=
  (ms.map fun m => (m.counts node owner direction).2).sum

/-- An entry with the updates of its owner in a history added. -/
def Link.counting (link : Link) (node : Atom) (ms : List Message) : Link :=
  { link with
    bytesSent := link.bytesSent + bytesCounted node link.owner .sent ms
    bytesReceived := link.bytesReceived + bytesCounted node link.owner .received ms
    framesSent := link.framesSent + framesCounted node link.owner .sent ms
    framesReceived := link.framesReceived + framesCounted node link.owner .received ms }

/-! ### One entry -/

/-- What a message does to the entry of a node. -/
def linkStep (node : Atom) (entry : Option Link) (m : Message) : Option Link :=
  match m.registration node, entry with
  | some link, _ => some link
  | none, some link =>
      if m.removes node link.owner then none else some (link.counting node [m])
  | none, none => none

/-- An update of another node or owner counts nothing. -/
theorem Link.counting_other {link : Link} {node : Atom} {m : Message}
    (h : m.updates node link.owner = false) : link.counting node [m] = link := by
  have hcounts : ∀ d, m.counts node link.owner d = (0, 0) := by
    intro d
    cases m with
    | updateLink n o d' bytes frames =>
        simp only [Message.updates, decide_eq_false_iff_not] at h
        exact if_neg fun hall => h ⟨hall.1, hall.2.1⟩
    | _ => rfl
  simp [Link.counting, bytesCounted, framesCounted, hcounts]

/-- `increment_link` adds what the message reports. -/
theorem Link.counting_update {link : Link} {node : Atom} {direction : Direction}
    {bytes frames : ℕ} :
    link.counting node [.updateLink node link.owner direction bytes frames] =
      link.increment bytes frames direction := by
  cases direction <;>
    simp [Link.counting, bytesCounted, framesCounted, Message.counts, Link.increment]

theorem ownedLink_eq_some {s : Server} {node : Atom} {owner : Pid} {link : Link}
    (h : s.ownedLink node owner = some link) :
    s.links.lookup node = some link ∧ link.owner = owner := by
  obtain ⟨hlookup, howner⟩ := Option.filter_eq_some_iff.mp h
  exact ⟨hlookup, by simpa using howner⟩

theorem ownedLink_eq_none {s : Server} {node : Atom} {owner : Pid}
    (h : s.ownedLink node owner = none) {link : Link} (hlink : s.links.lookup node = some link) :
    link.owner ≠ owner := by
  intro howner
  rw [Server.ownedLink, hlink, Option.filter_some, if_pos (by simpa using howner)] at h
  cases h

theorem linkStep_none {node : Atom} {m : Message} (h : m.registration node = none) :
    linkStep node none m = none := by
  simp only [linkStep, h]

theorem linkStep_some {node : Atom} {m : Message} (h : m.registration node = none) (link : Link) :
    linkStep node (some link) m =
      if m.removes node link.owner then none else some (link.counting node [m]) := by
  simp only [linkStep, h]

theorem linkStep_registration {node : Atom} {m : Message} {link : Link}
    (h : m.registration node = some link) (entry : Option Link) :
    linkStep node entry m = some link := by
  simp only [linkStep, h]

/-- A message that is about another node, or about none, leaves the entry. -/
theorem linkStep_other {node : Atom} {entry : Option Link} {m : Message}
    (hreg : m.registration node = none)
    (h : ∀ link, entry = some link →
      m.removes node link.owner = false ∧ m.updates node link.owner = false) :
    linkStep node entry m = entry := by
  cases entry with
  | none => exact linkStep_none hreg
  | some link =>
      obtain ⟨hremoves, hupdates⟩ := h link rfl
      rw [linkStep_some hreg, hremoves, if_neg Bool.false_ne_true, Link.counting_other hupdates]

/-- **One turn, seen from one node**: the entry after it is a function of the
message and the entry before it. -/
theorem handle_lookup (m : Message) (s : Server) (node : Atom) :
    (handle m s).1.links.lookup node = linkStep node (s.links.lookup node) m := by
  cases m with
  | call request caller =>
      show (handleCall request caller s).1.links.lookup node = _
      cases request with
      | registerLink n session owner path =>
          by_cases hn : n = node
          · subst hn
            simp [handleCall, linkStep, Message.registration]
          · have hreg : (Message.call (.registerLink n session owner path) caller).registration
                node = none := if_neg hn
            rw [linkStep_other hreg fun _ _ => ⟨rfl, rfl⟩]
            exact AList.lookup_insert_ne (Ne.symm hn)
      | unregisterLink n owner =>
          simp only [handleCall]
          split
          · next link hlink =>
              obtain ⟨hlookup, howner⟩ := ownedLink_eq_some hlink
              by_cases hn : n = node
              · subst hn
                rw [hlookup]
                simp [linkStep, Message.registration, Message.removes, howner]
              · rw [linkStep_other rfl fun _ _ => ⟨by simp [Message.removes, hn], rfl⟩]
                exact AList.lookup_erase_ne (Ne.symm hn)
          · next hnone =>
              -- the entry, if there is one, belongs to another process
              refine (linkStep_other rfl fun link hlink => ⟨?_, rfl⟩).symm
              simp only [Message.removes, decide_eq_false_iff_not]
              rintro ⟨rfl, rfl⟩
              exact ownedLink_eq_none hnone hlink rfl
      | takeIncoming =>
          rw [linkStep_other rfl fun _ _ => ⟨rfl, rfl⟩]
          simp only [handleCall]
          split
          · split <;> rfl
          · rfl
      | closeLink n =>
          rw [linkStep_other rfl fun _ _ => ⟨rfl, rfl⟩]
          simp only [handleCall]
          split <;> rfl
      | _ => exact (linkStep_other rfl fun _ _ => ⟨rfl, rfl⟩).symm
  | updateLink n owner direction bytes frames =>
      show (s.updateLink n owner direction bytes frames).links.lookup node = _
      unfold Server.updateLink
      split
      · next link hlink =>
          obtain ⟨hlookup, rfl⟩ := ownedLink_eq_some hlink
          by_cases hn : n = node
          · subst hn
            rw [hlookup]
            simp [linkStep, Message.registration, Message.removes, Link.counting_update]
          · rw [linkStep_other rfl fun _ _ => ⟨rfl, by simp [Message.updates, hn]⟩]
            exact AList.lookup_insert_ne (Ne.symm hn)
      · next hnone =>
          refine (linkStep_other rfl fun link hlink => ⟨rfl, ?_⟩).symm
          simp only [Message.updates, decide_eq_false_iff_not]
          rintro ⟨rfl, rfl⟩
          exact ownedLink_eq_none hnone hlink rfl
  | incoming session =>
      rw [linkStep_other rfl fun _ _ => ⟨rfl, rfl⟩]
      show (s.acceptIncoming session).1.links.lookup node = _
      unfold Server.acceptIncoming
      split
      · split <;> rfl
      · rfl
  | _ => exact (linkStep_other rfl fun _ _ => ⟨rfl, rfl⟩).symm

/-- A history, seen from one node. -/
theorem serveAll_lookup (server : Server) (ms : List Message) (node : Atom) :
    (serveAll server ms).server.links.lookup node =
      ms.foldl (linkStep node) (server.links.lookup node) := by
  induction ms using List.reverseRecOn with
  | nil => rfl
  | append_singleton ms m ih =>
      rw [serveAll_concat, List.foldl_append, List.foldl_cons, List.foldl_nil, ← ih]
      exact handle_lookup m _ node

/-! ### Histories -/

theorem Link.counting_cons (link : Link) (node : Atom) (m : Message) (ms : List Message) :
    (link.counting node [m]).counting node ms = link.counting node (m :: ms) := by
  simp [Link.counting, bytesCounted, framesCounted, Nat.add_assoc]

/-- Without a registration there is no entry. -/
theorem foldl_linkStep_none {node : Atom} {ms : List Message}
    (h : ∀ m ∈ ms, m.registration node = none) : ms.foldl (linkStep node) none = none := by
  induction ms with
  | nil => rfl
  | cons m ms ih =>
      obtain ⟨hm, hms⟩ := List.forall_mem_cons.mp h
      rw [List.foldl_cons, linkStep_none hm]
      exact ih hms

/-- Until the next registration an entry counts the updates of its owner, and
goes when its owner takes it out. -/
theorem foldl_linkStep_some {node : Atom} {ms : List Message}
    (h : ∀ m ∈ ms, m.registration node = none) (link : Link) :
    ms.foldl (linkStep node) (some link) =
      if ms.any (Message.removes node link.owner) then none
      else some (link.counting node ms) := by
  induction ms generalizing link with
  | nil => rfl
  | cons m ms ih =>
      obtain ⟨hm, hms⟩ := List.forall_mem_cons.mp h
      rw [List.foldl_cons, linkStep_some hm, List.any_cons]
      cases hremoves : m.removes node link.owner with
      | true =>
          simp only [if_true, Bool.true_or]
          exact foldl_linkStep_none hms
      | false =>
          simp only [Bool.false_eq_true, if_false, Bool.false_or]
          rw [ih hms (link.counting node [m]), Link.counting_cons]
          rfl

/-- The last registration of a node in a history, if there is one. -/
theorem exists_last_registration (node : Atom) (ms : List Message) :
    (∀ m ∈ ms, m.registration node = none) ∨
      ∃ before m after link, ms = before ++ m :: after ∧ m.registration node = some link ∧
        ∀ m' ∈ after, m'.registration node = none := by
  induction ms with
  | nil => exact .inl fun m hm => by cases hm
  | cons m ms ih =>
      rcases ih with hnone | ⟨before, m', after, link, rfl, hm', hafter⟩
      · cases hm : m.registration node with
        | none => exact .inl (List.forall_mem_cons.mpr ⟨hm, hnone⟩)
        | some link => exact .inr ⟨[], m, ms, link, rfl, hm, hnone⟩
      · exact .inr ⟨m :: before, m', after, link, rfl, hm', hafter⟩

/-- The table after a history with a last registration. -/
theorem lookup_after_registration (server : Server) {node : Atom} {before after : List Message}
    {m : Message} {link : Link} (hm : m.registration node = some link)
    (hafter : ∀ m' ∈ after, m'.registration node = none) :
    (serveAll server (before ++ m :: after)).server.links.lookup node =
      if after.any (Message.removes node link.owner) then none
      else some (link.counting node after) := by
  rw [serveAll_lookup, List.foldl_append, List.foldl_cons, linkStep_registration hm]
  exact foldl_linkStep_some hafter link

theorem lookup_of_no_registration {server : Server} (hstart : server.links = ∅) {node : Atom}
    {ms : List Message} (h : ∀ m ∈ ms, m.registration node = none) :
    (serveAll server ms).server.links.lookup node = none := by
  rw [serveAll_lookup, hstart, AList.lookup_empty]
  exact foldl_linkStep_none h

/-- A registration starts all counters at zero. -/
theorem registration_counters {node : Atom} {m : Message} {link : Link}
    (h : m.registration node = some link) :
    link.bytesSent = 0 ∧ link.bytesReceived = 0 ∧ link.framesSent = 0 ∧
      link.framesReceived = 0 := by
  unfold Message.registration at h
  split at h
  · split at h
    · obtain rfl := Option.some.inj h
      exact ⟨rfl, rfl, rfl, rfl⟩
    · cases h
  · cases h

/-- The entry of a node: it is there exactly while the last registration has
not been taken out by its owner, and it has that owner and the sums of that
owner's updates since. -/
structure LinkOf (node : Atom) (ms : List Message) (entry : Option Link) : Prop where
  present : entry.isSome = true ↔
    ∃ before m after link, ms = before ++ m :: after ∧ m.registration node = some link ∧
      (∀ m' ∈ after, m'.registration node = none) ∧
      ∀ m' ∈ after, m'.removes node link.owner = false
  counters : ∀ before m after link e, ms = before ++ m :: after →
    m.registration node = some link → (∀ m' ∈ after, m'.registration node = none) →
    entry = some e →
      e.owner = link.owner ∧ e.remoteId = link.remoteId ∧ e.path = link.path ∧
      e.bytesSent = bytesCounted node link.owner .sent after ∧
      e.bytesReceived = bytesCounted node link.owner .received after ∧
      e.framesSent = framesCounted node link.owner .sent after ∧
      e.framesReceived = framesCounted node link.owner .received after

/-- No counter is smaller. -/
structure Link.CountersLe (link link' : Link) : Prop where
  owner : link'.owner = link.owner
  bytesSent : link.bytesSent ≤ link'.bytesSent
  bytesReceived : link.bytesReceived ≤ link'.bytesReceived
  framesSent : link.framesSent ≤ link'.framesSent
  framesReceived : link.framesReceived ≤ link'.framesReceived

theorem Link.le_counting (link : Link) (node : Atom) (ms : List Message) :
    link.CountersLe (link.counting node ms) :=
  ⟨rfl, Nat.le_add_right _ _, Nat.le_add_right _ _, Nat.le_add_right _ _, Nat.le_add_right _ _⟩

theorem linkOf_serveAll {server : Server} (hstart : server.links = ∅) (ms : List Message)
    (node : Atom) : LinkOf node ms ((serveAll server ms).server.links.lookup node) where
  present := by
    constructor
    · intro hsome
      rcases exists_last_registration node ms with hnone | ⟨before, m, after, link, rfl, hm, hafter⟩
      · rw [lookup_of_no_registration hstart hnone] at hsome
        cases hsome
      · refine ⟨before, m, after, link, rfl, hm, hafter, ?_⟩
        rw [lookup_after_registration server hm hafter] at hsome
        split at hsome
        · cases hsome
        · next hkept => simpa using hkept
    · rintro ⟨before, m, after, link, rfl, hm, hafter, hkept⟩
      rw [lookup_after_registration server hm hafter, if_neg (by simpa using hkept)]
      rfl
  counters := by
    rintro before m after link e rfl hm hafter he
    rw [lookup_after_registration server hm hafter] at he
    split at he
    · cases he
    · obtain rfl := Option.some.inj he
      obtain ⟨hbs, hbr, hfs, hfr⟩ := registration_counters hm
      simp [Link.counting, hbs, hbr, hfs, hfr]

/-- **The link table**: after any sequence of messages the entry of every node
is the one of its last registration, with the sums of its owner's updates, until
that owner takes it out; a message that neither registers the node nor is by the
owner for that node changes nothing, and no message but a registration makes a
counter smaller. -/
theorem links_exact (config : Config) (endpoint : Pid) (endpointId : EndpointId)
    (endpointAddr : EndpointAddr) (creation : ℕ) (acceptor : Pid) (ms : List Message)
    (node : Atom) :
    let server :=
      (serveAll (.start config endpoint endpointId endpointAddr creation acceptor) ms).server
    LinkOf node ms (server.links.lookup node) ∧
    (∀ m, m.registration node = none →
      (∀ link, server.links.lookup node = some link →
        m.removes node link.owner = false ∧ m.updates node link.owner = false) →
      (handle m server).1.links.lookup node = server.links.lookup node) ∧
    ∀ m link link', server.links.lookup node = some link → m.registration node = none →
      (handle m server).1.links.lookup node = some link' → link.CountersLe link' := by
  intro server
  refine ⟨linkOf_serveAll rfl ms node, ?_, ?_⟩
  · intro m hreg hother
    rw [handle_lookup]
    exact linkStep_other hreg hother
  · intro m link link' hlink hreg hafter
    rw [handle_lookup, hlink, linkStep_some hreg] at hafter
    split at hafter
    · cases hafter
    · obtain rfl := Option.some.inj hafter
      exact link.le_counting node [m]

/-- The old controller 1 of `b@h` reports and leaves after the new controller 2
has registered: neither reaches the new entry. -/
theorem links_exact_sample :
    let server := (serveAll (.start sampleConfig 0 samplePeerId ⟨samplePeerId, [], []⟩ 0 9)
      [.call (.registerLink (atom "b@h") (sampleConfig.session 0 0 samplePeerId) 1 none) 1,
       .updateLink (atom "b@h") 1 .sent 5 1,
       .call (.registerLink (atom "b@h") (sampleConfig.session 1 1 samplePeerId) 2 none) 2,
       .updateLink (atom "b@h") 1 .sent 7 1,
       .updateLink (atom "b@h") 2 .received 3 1,
       .call (.unregisterLink (atom "b@h") 1) 1]).server
    server.links.lookup (atom "b@h") = some ⟨2, samplePeerId, none, 0, 3, 0, 1⟩ ∧
      (handle (.updateLink (atom "b@h") 1 .sent 7 1) server).1.links.lookup (atom "b@h") =
        server.links.lookup (atom "b@h") := by
  intro server
  refine ⟨rfl, (links_exact sampleConfig 0 samplePeerId ⟨samplePeerId, [], []⟩ 0 9 _
    (atom "b@h")).2.1 _ rfl ?_⟩
  intro link hlink
  obtain rfl := Option.some.inj hlink
  exact ⟨rfl, rfl⟩

/-! ### Node events -/

/-- A `node_up` event. -/
def Effect.isNodeUp : Effect → Bool
  | .nodeUp _ => true
  | _ => false

/-- A `node_down` event. -/
def Effect.isNodeDown : Effect → Bool
  | .nodeDown => true
  | _ => false

/-- The `node_up` events less the `node_down` events. -/
def nodeBalance (log : List Effect) : ℤ := log.countP Effect.isNodeUp - log.countP Effect.isNodeDown

/-- `active_links` as `status` reports it: the size of the link table. -/
def Server.activeLinks (s : Server) : ℕ := s.links.keys.length

theorem status_activeLinks (s : Server) (caller : Caller) :
    (handleCall .status caller s).2 =
      [.reply caller (.status s.config.safe s.endpointId s.endpointAddr s.incoming.length
        s.activeLinks)] := rfl

theorem nodeBalance_append (log fx : List Effect) :
    nodeBalance (log ++ fx) = nodeBalance log + nodeBalance fx := by
  simp only [nodeBalance, List.countP_append, Nat.cast_add]
  ring

/-- The message registers a node that has an entry. -/
def Message.replaces (s : Server) : Message → Bool
  | .call (.registerLink node _ _ _) _ => (s.links.lookup node).isSome
  | _ => false

theorem activeLinks_insert (links : LinkMap) (node : Atom) (link : Link) :
    ((links.insert node link).keys.length : ℤ) =
      links.keys.length + if (links.lookup node).isSome then 0 else 1 := by
  rw [AList.keys_insert, List.length_cons]
  by_cases hmem : node ∈ links
  · rw [AList.lookup_isSome.mpr hmem, if_pos rfl, List.length_erase_of_mem hmem]
    have hpos : 0 < links.keys.length := List.length_pos_of_mem hmem
    omega
  · have hnone : (links.lookup node).isSome = false := by
      rw [Bool.eq_false_iff]
      exact fun hsome => hmem (AList.lookup_isSome.mp hsome)
    rw [hnone, if_neg Bool.false_ne_true, List.erase_of_not_mem hmem]
    exact Nat.cast_succ _

theorem activeLinks_erase {links : LinkMap} {node : Atom} {link : Link}
    (h : links.lookup node = some link) :
    ((links.erase node).keys.length : ℤ) = links.keys.length - 1 := by
  have hmem : node ∈ links.keys := AList.lookup_isSome.mp (by rw [h]; rfl)
  have hpos : 0 < links.keys.length := List.length_pos_of_mem hmem
  rw [AList.keys_erase, List.length_erase_of_mem hmem]
  omega

/-- **One turn**: events and entries change together, except that a registration
over an entry has an event and adds none. -/
theorem handle_nodeBalance (m : Message) (s : Server) :
    nodeBalance (handle m s).2.1 =
      (handle m s).1.activeLinks - s.activeLinks + if m.replaces s then 1 else 0 := by
  cases m with
  | call request caller =>
      show nodeBalance (handleCall request caller s).2 =
        ((handleCall request caller s).1.activeLinks : ℤ) - s.activeLinks + _
      cases request with
      | registerLink node session owner path =>
          show (1 - 0 : ℤ) = ((s.links.insert node _).keys.length : ℤ) - s.links.keys.length +
            if (s.links.lookup node).isSome then 1 else 0
          rw [activeLinks_insert]
          split <;> ring
      | unregisterLink node owner =>
          simp only [handleCall]
          split
          · next link hlink =>
              show (0 - 1 : ℤ) = ((s.links.erase node).keys.length : ℤ) - s.links.keys.length + 0
              rw [activeLinks_erase (ownedLink_eq_some hlink).1]
              ring
          · simp [nodeBalance, Effect.isNodeUp, Effect.isNodeDown, Message.replaces]
      | takeIncoming =>
          simp only [handleCall]
          split
          · split <;>
              simp [nodeBalance, Effect.isNodeUp, Effect.isNodeDown, Message.replaces,
                Server.activeLinks]
          · simp [nodeBalance, Effect.isNodeUp, Effect.isNodeDown, Message.replaces]
      | closeLink node =>
          simp only [handleCall]
          split <;> simp [nodeBalance, Effect.isNodeUp, Effect.isNodeDown, Message.replaces]
      | _ => simp [handleCall, nodeBalance, Effect.isNodeUp, Effect.isNodeDown, Message.replaces]
  | updateLink node owner direction bytes frames =>
      show (0 - 0 : ℤ) =
        ((s.updateLink node owner direction bytes frames).links.keys.length : ℤ) - _ + 0
      unfold Server.updateLink
      split
      · next link hlink =>
          -- the entry is there, so writing it back adds none
          rw [activeLinks_insert, (ownedLink_eq_some hlink).1]
          simp [Server.activeLinks]
      · simp [Server.activeLinks]
  | incoming session =>
      show nodeBalance (s.acceptIncoming session).2 =
        ((s.acceptIncoming session).1.activeLinks : ℤ) - s.activeLinks + 0
      unfold Server.acceptIncoming
      split
      · split <;> simp [nodeBalance, Effect.isNodeUp, Effect.isNodeDown, Server.activeLinks]
      · simp [nodeBalance, Effect.isNodeUp, Effect.isNodeDown, Server.activeLinks]
  | _ => simp [handle, nodeBalance, Message.replaces]

/-- The events balance against the entries. -/
def Served.Balanced (s : Served) : Prop := nodeBalance s.log = s.server.activeLinks

theorem serve_balanced_iff {s : Served} (h : s.Balanced) (m : Message) :
    (serve s m).Balanced ↔ m.replaces s.server = false := by
  rw [Served.Balanced, serve, nodeBalance_append, show nodeBalance s.log = _ from h,
    handle_nodeBalance]
  cases m.replaces s.server with
  | false => simp
  | true =>
      simp only [if_true, Bool.true_eq_false, iff_false]
      omega

/-- **Node events**: the `node_up` events less the `node_down` events are the
entries of the link table in every state of a history, exactly if no
registration in it finds an entry for its node. -/
theorem node_events_balance_iff (config : Config) (endpoint : Pid) (endpointId : EndpointId)
    (endpointAddr : EndpointAddr) (creation : ℕ) (acceptor : Pid) (ms : List Message) :
    let start := Server.start config endpoint endpointId endpointAddr creation acceptor
    (∀ before after, ms = before ++ after → (serveAll start before).Balanced) ↔
      ∀ before m after, ms = before ++ m :: after →
        m.replaces (serveAll start before).server = false := by
  intro start
  constructor
  · rintro h before m after rfl
    have hbefore := h before (m :: after) rfl
    have hafter := h (before ++ [m]) after (by simp)
    rw [serveAll_concat] at hafter
    exact (serve_balanced_iff hbefore m).mp hafter
  · intro h before
    induction before using List.reverseRecOn with
    | nil => exact fun _ _ => rfl
    | append_singleton before m ih =>
        rintro after rfl
        have hbefore := ih (m :: after) (by simp)
        rw [serveAll_concat]
        exact (serve_balanced_iff hbefore m).mpr (h before m after (by simp))

/-- A second controller of `b@h` registers before the first has left. -/
theorem node_events_unbalanced :
    ¬ ∀ (ms : List Message), (serveAll
      (.start sampleConfig 0 samplePeerId ⟨samplePeerId, [], []⟩ 0 9) ms).Balanced := by
  intro hclaim
  have hbalanced := hclaim
    [.call (.registerLink (atom "b@h") (sampleConfig.session 0 0 samplePeerId) 1 none) 1,
     .call (.registerLink (atom "b@h") (sampleConfig.session 1 1 samplePeerId) 2 none) 2,
     .call (.unregisterLink (atom "b@h") 1) 1]
  have hcount : (2 : ℤ) = 1 := hbalanced
  exact absurd hcount (by decide)

end IrohBeam
