/-
IrohBeam/Peers.lean

The peer indexes of a distribution configuration, exactly.

`normalize_peers/2` is a `reduce_while` over an unordered map.  Its loop is
unrolled once into what it asks of one entry (`Normalizes`,
`normalizePeersLoop_cons_iff`) and then into the list of all normalised entries
(`normalizePeersLoop_eq_ok_iff`): the two indexes are that list, keyed by
node and by identity text.  What `PeersAccepted` says is about the entries
as a set, so the order of enumeration cannot matter.
-/
import IrohBeam.EndpointOptions

namespace IrohBeam

open Bytes

/-! ### Maps built by insertion -/

section Insertion

variable {α β : Type*} [DecidableEq α]

/-- Insert every pair of a list. -/
def insertAll (l : List (α × β)) (m : AList fun _ : α => β) : AList fun _ : α => β :=
  l.foldl (fun m p => m.insert p.1 p.2) m

@[simp] theorem insertAll_cons (p : α × β) (l : List (α × β)) (m : AList fun _ : α => β) :
    insertAll (p :: l) m = insertAll l (m.insert p.1 p.2) := rfl

/-- Keys that are new and pairwise distinct are all listed. -/
theorem entries_insertAll {l : List (α × β)} {m : AList fun _ : α => β}
    (hnodup : (l.map Prod.fst).Nodup) (hnew : ∀ p ∈ l, p.1 ∉ m) :
    (insertAll l m).entries =
      (l.map fun p => (⟨p.1, p.2⟩ : Sigma fun _ : α => β)).reverse ++ m.entries := by
  induction l generalizing m with
  | nil => rfl
  | cons p l ih =>
      rw [List.map_cons, List.nodup_cons] at hnodup
      have hp : p.1 ∉ m := hnew p List.mem_cons_self
      have hrest : ∀ q ∈ l, q.1 ∉ m.insert p.1 p.2 := by
        intro q hq hmem
        rcases (AList.mem_insert m).mp hmem with heq | hmem
        · exact hnodup.1 (heq ▸ List.mem_map_of_mem hq)
        · exact hnew q (List.mem_cons_of_mem p hq) hmem
      rw [insertAll_cons, ih hnodup.2 hrest, AList.entries_insert_of_notMem hp]
      simp

variable {l : List (α × β)} (hnodup : (l.map Prod.fst).Nodup)
include hnodup

theorem lookup_insertAll_iff {k : α} {v : β} :
    (insertAll l ∅).lookup k = some v ↔ (k, v) ∈ l := by
  have hentries := entries_insertAll hnodup fun p _ => AList.notMem_empty p.1
  have hmem := AList.mem_lookup_iff (a := k) (b := v) (s := insertAll l ∅)
  rw [hentries, Option.mem_def] at hmem
  rw [hmem]
  simp

theorem keys_insertAll :
    (insertAll l ∅).keys = (l.map Prod.fst).reverse := by
  unfold AList.keys
  rw [entries_insertAll hnodup fun p _ => AList.notMem_empty p.1]
  simp [List.keys, Function.comp_def]

end Insertion

/-! ### Node names -/

theorem notMem_of_mem_splitOn {α : Type*} [BEq α] [LawfulBEq α] {a : α} {xs l : List α}
    (h : l ∈ xs.splitOn a) : a ∉ l := by
  induction xs generalizing l with
  | nil =>
      rw [List.splitOn_nil, List.mem_singleton] at h
      rw [h]
      exact List.not_mem_nil
  | cons x xs ih =>
      rw [List.splitOn_cons_eq_if_modifyHead] at h
      split at h
      · rcases List.mem_cons.mp h with rfl | h
        · exact List.not_mem_nil
        · exact ih h
      · next hx =>
          have hx : x ≠ a := by simpa using hx
          match hsplit : xs.splitOn a with
          | [] => exact absurd hsplit (List.splitOn_ne_nil a xs)
          | first :: rest =>
              rw [hsplit, List.modifyHead_cons] at h
              rcases List.mem_cons.mp h with rfl | h
              · have hfirst : a ∉ first := ih (hsplit ▸ List.mem_cons_self)
                simp [hfirst, Ne.symm hx]
              · exact ih (hsplit ▸ List.mem_cons_of_mem first h)

/-- A text of the form `name@host` with exactly one `@` and both parts
non-empty. -/
def NameAtHost (text : Binary) : Prop :=
  ∃ name host, text = name ++ 64 :: host ∧ 64 ∉ name ∧ 64 ∉ host ∧ name ≠ [] ∧ host ≠ []

theorem wellFormedNode_iff (node : Atom) : WellFormedNode node ↔ NameAtHost node.text := by
  constructor
  · rintro ⟨name, host, hparts, hname, hhost⟩
    have htext : node.text = name ++ 64 :: host := by
      have hjoin : [64].intercalate (node.text.splitOn 64) = node.text :=
        List.intercalate_splitOn 64
      rw [show node.text.splitOn 64 = [name, host] from hparts] at hjoin
      simpa using hjoin.symm
    refine ⟨name, host, htext, ?_, ?_, hname, hhost⟩
    · exact notMem_of_mem_splitOn (hparts ▸ List.mem_cons_self)
    · exact notMem_of_mem_splitOn (hparts ▸ List.mem_cons_of_mem name List.mem_cons_self)
  · rintro ⟨name, host, htext, hname, hhost, hne⟩
    refine ⟨name, host, ?_, hne⟩
    show node.text.splitOn 64 = [name, host]
    rw [htext, List.splitOn_append_cons_self_of_not_mem hname, List.splitOn_eq_singleton hhost]

theorem validateNode_eq_ok_iff {t : Term} {node : Atom} :
    validateNode t = .ok node ↔ t = .atom node ∧ WellFormedNode node := by
  constructor
  · exact validateNode_eq_ok
  · rintro ⟨rfl, name, host, hparts, hne⟩
    simp [validateNode, hparts, hne]

/-! ### The loop -/

section Normalize

variable {nif : IdentityNif} {localName : Atom}

/-- What one entry of the peers map normalises to. -/
structure Normalizes (nif : IdentityNif) (localName : Atom) (pair : Term × Term)
    (entry : Atom × Peer) : Prop where
  key : pair.1 = .atom entry.1
  wellFormed : WellFormedNode entry.1
  ne_local : entry.1 ≠ localName
  target : normalizeTarget nif pair.2 = .ok (entry.2.target, entry.2.id)

theorem Normalizes.id_eq {pair : Term × Term} {entry : Atom × Peer} {target : Target}
    {id : EndpointId} (h : Normalizes nif localName pair entry)
    (htarget : normalizeTarget nif pair.2 = .ok (target, id)) : entry.2.id = id := by
  have hsame := h.target.symm.trans htarget
  rw [Except.ok.injEq, Prod.mk.injEq] at hsame
  exact hsame.2

/-- The text an entry is indexed by. -/
def idText (entry : Atom × Peer) : Binary := entry.2.id.text

/-- One turn of the `reduce_while`. -/
theorem normalizePeersLoop_cons_iff {pair : Term × Term} {rest : List (Term × Term)}
    {byNode : PeerMap} {byId : IdMap} {result : PeerMap × IdMap} :
    normalizePeersLoop nif localName (pair :: rest) byNode byId = .ok result ↔
      ∃ entry, Normalizes nif localName pair entry ∧ idText entry ∉ byId ∧
        normalizePeersLoop nif localName rest (byNode.insert entry.1 entry.2)
          (byId.insert (idText entry) entry.1) = .ok result := by
  constructor
  · intro h
    obtain ⟨node, hnode, h⟩ := bind_eq_ok h
    obtain ⟨hlocal, h⟩ := guard_eq_ok h
    obtain ⟨⟨target, id⟩, htarget, h⟩ := bind_eq_ok h
    obtain ⟨hnew, h⟩ := guard_eq_ok h
    obtain ⟨hkey, hwf⟩ := validateNode_eq_ok hnode
    exact ⟨(node, ⟨target, id⟩), ⟨hkey, hwf, hlocal, htarget⟩, hnew, h⟩
  · rintro ⟨⟨node, peer⟩, hentry, hnew, h⟩
    obtain ⟨key, value⟩ := pair
    have hnode : validateNode key = .ok node :=
      validateNode_eq_ok_iff.mpr ⟨hentry.key, hentry.wellFormed⟩
    have htarget : normalizeTarget nif value = .ok (peer.target, peer.id) := hentry.target
    have hlocal : node ≠ localName := hentry.ne_local
    have hnew : peer.id.text ∉ byId := hnew
    rw [← h, normalizePeersLoop, hnode]
    simp only [bind, Except.bind, if_neg hlocal, htarget, if_neg hnew]
    rfl

/-- The loop succeeds exactly on maps whose entries all normalise, to
identities that are distinct and new, and indexes them by node and by
identity. -/
theorem normalizePeersLoop_eq_ok_iff {pairs : List (Term × Term)} {byNode : PeerMap}
    {byId : IdMap} {result : PeerMap × IdMap} :
    normalizePeersLoop nif localName pairs byNode byId = .ok result ↔
      ∃ entries, List.Forall₂ (Normalizes nif localName) pairs entries ∧
        (entries.map idText).Nodup ∧ (∀ entry ∈ entries, idText entry ∉ byId) ∧
        result = (insertAll entries byNode,
          insertAll (entries.map fun entry => (idText entry, entry.1)) byId) := by
  induction pairs generalizing byNode byId with
  | nil =>
      constructor
      · intro h
        exact ⟨[], List.Forall₂.nil, List.nodup_nil, by simp, (Except.ok.inj h).symm⟩
      · rintro ⟨entries, hall, -, -, rfl⟩
        obtain rfl := List.forall₂_nil_left_iff.mp hall
        rfl
  | cons pair rest ih =>
      rw [normalizePeersLoop_cons_iff]
      constructor
      · rintro ⟨entry, hentry, hnew, h⟩
        obtain ⟨entries, hall, hnodup, hfresh, hresult⟩ := ih.mp h
        -- the identities after this one were new to an index that has this one
        have hdistinct : ∀ e ∈ entries, idText e ≠ idText entry ∧ idText e ∉ byId := by
          intro e he
          have := hfresh e he
          rwa [AList.mem_insert, not_or] at this
        refine ⟨entry :: entries, hall.cons hentry, ?_, ?_, hresult⟩
        · rw [List.map_cons, List.nodup_cons]
          refine ⟨?_, hnodup⟩
          rintro hmem
          obtain ⟨e, he, heq⟩ := List.mem_map.mp hmem
          exact (hdistinct e he).1 heq
        · intro e he
          rcases List.mem_cons.mp he with rfl | he
          · exact hnew
          · exact (hdistinct e he).2
      · rintro ⟨entries, hall, hnodup, hfresh, hresult⟩
        obtain ⟨entry, entries, hentry, hrest, rfl⟩ := List.forall₂_cons_left_iff.mp hall
        rw [List.map_cons, List.nodup_cons] at hnodup
        refine ⟨entry, hentry, hfresh entry List.mem_cons_self, ?_⟩
        refine ih.mpr ⟨entries, hrest, hnodup.2, ?_, hresult⟩
        intro e he
        rw [AList.mem_insert, not_or]
        exact ⟨fun heq => hnodup.1 (heq ▸ List.mem_map_of_mem he),
          hfresh e (List.mem_cons_of_mem entry he)⟩

/-! ### The verdict -/

/-- What is asked of a peers map, as a set of entries. -/
structure PeersAccepted (nif : IdentityNif) (localName : Atom) (pairs : List (Term × Term)) :
    Prop where
  nodes : ∀ pair ∈ pairs, ∃ node : Atom,
    pair.1 = .atom node ∧ NameAtHost node.text ∧ node ≠ localName
  targets : ∀ pair ∈ pairs, ∃ target id, normalizeTarget nif pair.2 = .ok (target, id)
  distinct : ∀ pair ∈ pairs, ∀ pair' ∈ pairs, ∀ target id target' id',
    normalizeTarget nif pair.2 = .ok (target, id) →
    normalizeTarget nif pair'.2 = .ok (target', id') → id.text = id'.text → pair.1 = pair'.1

theorem PeersAccepted.perm {pairs pairs' : List (Term × Term)} (hperm : pairs.Perm pairs')
    (h : PeersAccepted nif localName pairs) : PeersAccepted nif localName pairs' where
  nodes pair hpair := h.nodes pair (hperm.mem_iff.mpr hpair)
  targets pair hpair := h.targets pair (hperm.mem_iff.mpr hpair)
  distinct pair hpair pair' hpair' :=
    h.distinct pair (hperm.mem_iff.mpr hpair) pair' (hperm.mem_iff.mpr hpair')

/-- Normalised entries of a map have distinct nodes. -/
theorem nodes_nodup {pairs : List (Term × Term)} {entries : List (Atom × Peer)}
    (hall : List.Forall₂ (Normalizes nif localName) pairs entries)
    (hkeys : (pairs.map Prod.fst).Nodup) : (entries.map Prod.fst).Nodup := by
  have hmap : pairs.map Prod.fst = (entries.map Prod.fst).map Term.atom := by
    clear hkeys
    induction hall with
    | nil => rfl
    | cons hentry _ ih => rw [List.map_cons, List.map_cons, List.map_cons, hentry.key, ih]
  rw [hmap] at hkeys
  exact hkeys.of_map

/-- Every entry comes from a pair. -/
theorem exists_pair {pairs : List (Term × Term)} {entries : List (Atom × Peer)}
    (hall : List.Forall₂ (Normalizes nif localName) pairs entries) {entry : Atom × Peer}
    (hentry : entry ∈ entries) : ∃ pair ∈ pairs, Normalizes nif localName pair entry := by
  induction hall with
  | nil => cases hentry
  | @cons pair entry' pairs entries hpair _ ih =>
      rcases List.mem_cons.mp hentry with rfl | hentry
      · exact ⟨pair, List.mem_cons_self, hpair⟩
      · obtain ⟨pair', hmem, hnorm⟩ := ih hentry
        exact ⟨pair', List.mem_cons_of_mem pair hmem, hnorm⟩

/-- Every pair has its entry. -/
theorem exists_entry {pairs : List (Term × Term)} {entries : List (Atom × Peer)}
    (hall : List.Forall₂ (Normalizes nif localName) pairs entries) {pair : Term × Term}
    (hpair : pair ∈ pairs) : ∃ entry ∈ entries, Normalizes nif localName pair entry := by
  induction hall with
  | nil => cases hpair
  | @cons pair' entry pairs entries hnorm _ ih =>
      rcases List.mem_cons.mp hpair with rfl | hpair
      · exact ⟨entry, List.mem_cons_self, hnorm⟩
      · obtain ⟨entry', hmem, hnorm'⟩ := ih hpair
        exact ⟨entry', List.mem_cons_of_mem entry hmem, hnorm'⟩

/-- An accepted map has a normalised entry for every pair, and no two of
them share an identity. -/
theorem PeersAccepted.exists_entries {pairs : List (Term × Term)}
    (h : PeersAccepted nif localName pairs) (hkeys : (pairs.map Prod.fst).Nodup) :
    ∃ entries, List.Forall₂ (Normalizes nif localName) pairs entries ∧
      (entries.map idText).Nodup := by
  induction pairs with
  | nil => exact ⟨[], List.Forall₂.nil, List.nodup_nil⟩
  | cons pair rest ih =>
      rw [List.map_cons, List.nodup_cons] at hkeys
      have hrest : PeersAccepted nif localName rest :=
        { nodes := fun p hp => h.nodes p (List.mem_cons_of_mem pair hp)
          targets := fun p hp => h.targets p (List.mem_cons_of_mem pair hp)
          distinct := fun p hp q hq =>
            h.distinct p (List.mem_cons_of_mem pair hp) q (List.mem_cons_of_mem pair hq) }
      obtain ⟨entries, hall, hnodup⟩ := ih hrest hkeys.2
      obtain ⟨node, hkey, hform, hlocal⟩ := h.nodes pair List.mem_cons_self
      obtain ⟨target, id, htarget⟩ := h.targets pair List.mem_cons_self
      have hentry : Normalizes nif localName pair (node, ⟨target, id⟩) :=
        ⟨hkey, (wellFormedNode_iff node).mpr hform, hlocal, htarget⟩
      refine ⟨(node, ⟨target, id⟩) :: entries, hall.cons hentry, ?_⟩
      rw [List.map_cons, List.nodup_cons]
      refine ⟨?_, hnodup⟩
      -- a later entry with this identity would have this key
      intro hmem
      obtain ⟨entry, hin, heq⟩ := List.mem_map.mp hmem
      obtain ⟨pair', hpair', hnorm⟩ := exists_pair hall hin
      have hsame := h.distinct pair List.mem_cons_self pair' (List.mem_cons_of_mem pair hpair')
        target id entry.2.target entry.2.id htarget hnorm.target heq.symm
      exact hkeys.1 (hsame ▸ List.mem_map_of_mem hpair')

/-- Normalised entries with distinct identities make an accepted map. -/
theorem peersAccepted_of_entries {pairs : List (Term × Term)} {entries : List (Atom × Peer)}
    (hall : List.Forall₂ (Normalizes nif localName) pairs entries)
    (hnodup : (entries.map idText).Nodup) : PeersAccepted nif localName pairs where
  nodes pair hpair := by
    obtain ⟨entry, -, hnorm⟩ := exists_entry hall hpair
    exact ⟨entry.1, hnorm.key, (wellFormedNode_iff entry.1).mp hnorm.wellFormed, hnorm.ne_local⟩
  targets pair hpair := by
    obtain ⟨entry, -, hnorm⟩ := exists_entry hall hpair
    exact ⟨entry.2.target, entry.2.id, hnorm.target⟩
  distinct pair hpair pair' hpair' target id target' id' htarget htarget' heq := by
    obtain ⟨entry, hentry, hnorm⟩ := exists_entry hall hpair
    obtain ⟨entry', hentry', hnorm'⟩ := exists_entry hall hpair'
    have hsame : entry = entry' := by
      refine List.inj_on_of_nodup_map hnodup hentry hentry' ?_
      rw [idText, idText, hnorm.id_eq htarget, hnorm'.id_eq htarget', heq]
    rw [hnorm.key, hnorm'.key, hsame]

/-- The verdict of `normalize_peers/2` on a map. -/
theorem normalizePeers_ok_iff {pairs : List (Term × Term)}
    (hkeys : (pairs.map Prod.fst).Nodup) :
    (∃ result, normalizePeers nif (.map pairs) localName = .ok result) ↔
      PeersAccepted nif localName pairs := by
  constructor
  · rintro ⟨result, h⟩
    obtain ⟨entries, hall, hnodup, -⟩ := normalizePeersLoop_eq_ok_iff.mp h
    exact peersAccepted_of_entries hall hnodup
  · intro h
    obtain ⟨entries, hall, hnodup⟩ := h.exists_entries hkeys
    refine ⟨_, normalizePeersLoop_eq_ok_iff.mpr ⟨entries, hall, hnodup, ?_, rfl⟩⟩
    intro entry _
    exact AList.notMem_empty _

/-- The order of enumeration does not decide. -/
theorem normalizePeers_perm {pairs pairs' : List (Term × Term)}
    (hkeys : (pairs.map Prod.fst).Nodup) (hperm : pairs.Perm pairs') :
    (∃ result, normalizePeers nif (.map pairs) localName = .ok result) ↔
      ∃ result, normalizePeers nif (.map pairs') localName = .ok result := by
  have hkeys' : (pairs'.map Prod.fst).Nodup := ((hperm.map Prod.fst).nodup_iff).mp hkeys
  rw [normalizePeers_ok_iff hkeys, normalizePeers_ok_iff hkeys']
  exact ⟨PeersAccepted.perm hperm, PeersAccepted.perm hperm.symm⟩

/-! ### The indexes -/

/-- The indexes of a configuration are those of a peers map: they are
inverse to each other and cover it. -/
structure Config.ExactIndexes (c : Config) (nif : IdentityNif) (pairs : List (Term × Term)) :
    Prop where
  authorizeId_of_resolve : ∀ node peer,
    c.resolve node = .ok peer → c.authorizeId peer.id = some node
  resolve_of_authorizeId : ∀ id node, c.authorizeId id = some node →
    ∃ peer, c.resolve node = .ok peer ∧ peer.id.text = id.text
  peers_size : c.peers.keys.length = pairs.length
  ids_size : c.ids.keys.length = pairs.length
  allowedNodes : ∀ key, key ∈ pairs.map Prod.fst ↔ ∃ node ∈ c.allowedNodes, key = .atom node
  allowlist : ∃ ids, option (pairsOf (.list c.endpointOptions)) "peer_allowlist" = .list ids ∧
    ∀ t, t ∈ ids ↔ ∃ pair ∈ pairs, ∃ target id,
      normalizeTarget nif pair.2 = .ok (target, id) ∧ t = .endpointId id

theorem Config.resolve_eq_ok_iff {c : Config} {node : Atom} {peer : Peer} :
    c.resolve node = .ok peer ↔ c.peers.lookup node = some peer := by
  unfold Config.resolve
  cases c.peers.lookup node with
  | none => simp
  | some p => simp

/-- The allowlist holds the identities of the peers that resolve. -/
theorem Config.mem_peerAllowlist_iff {c : Config} {id : EndpointId} :
    id ∈ c.peerAllowlist ↔ ∃ node peer, c.resolve node = .ok peer ∧ peer.id = id := by
  unfold Config.peerAllowlist
  rw [List.mem_map]
  constructor
  · rintro ⟨⟨node, peer⟩, hmem, rfl⟩
    exact ⟨node, peer, Config.resolve_eq_ok_iff.mpr (AList.mem_lookup_iff.mpr hmem), rfl⟩
  · rintro ⟨node, peer, hpeer, rfl⟩
    exact ⟨⟨node, peer⟩, AList.mem_lookup_iff.mp (Config.resolve_eq_ok_iff.mp hpeer), rfl⟩

/-- The indexes `normalize_peers/2` builds are exact. -/
theorem exactIndexes_of_normalizePeers {pairs : List (Term × Term)} {c : Config}
    (hkeys : (pairs.map Prod.fst).Nodup)
    (h : normalizePeers nif (.map pairs) localName = .ok (c.peers, c.ids)) :
    c.ExactIndexes nif pairs := by
  obtain ⟨entries, hall, hnodup, -, hresult⟩ := normalizePeersLoop_eq_ok_iff.mp h
  obtain ⟨hpeers, hids⟩ := Prod.mk.injEq .. ▸ hresult
  have hnodes : (entries.map Prod.fst).Nodup := nodes_nodup hall hkeys
  have htexts : ((entries.map fun entry => (idText entry, entry.1)).map Prod.fst).Nodup := by
    rw [List.map_map]
    exact hnodup
  have hresolve : ∀ node peer, c.resolve node = .ok peer ↔ (node, peer) ∈ entries := by
    intro node peer
    rw [Config.resolve_eq_ok_iff, hpeers, lookup_insertAll_iff hnodes]
  have hauthorize : ∀ id node, c.authorizeId id = some node ↔
      ∃ peer, (node, peer) ∈ entries ∧ peer.id.text = id.text := by
    intro id node
    rw [Config.authorizeId, hids, lookup_insertAll_iff htexts, List.mem_map]
    constructor
    · rintro ⟨⟨node', peer⟩, hmem, heq⟩
      obtain ⟨htext, rfl⟩ := Prod.mk.injEq .. ▸ heq
      exact ⟨peer, hmem, htext⟩
    · rintro ⟨peer, hmem, htext⟩
      exact ⟨(node, peer), hmem, by rw [idText, htext]⟩
  refine ⟨?_, ?_, ?_, ?_, ?_, ?_⟩
  · intro node peer hpeer
    exact (hauthorize peer.id node).mpr ⟨peer, (hresolve node peer).mp hpeer, rfl⟩
  · intro id node hid
    obtain ⟨peer, hmem, htext⟩ := (hauthorize id node).mp hid
    exact ⟨peer, (hresolve node peer).mpr hmem, htext⟩
  · rw [hpeers, keys_insertAll hnodes, List.length_reverse, List.length_map, hall.length_eq]
  · rw [hids, keys_insertAll htexts, List.length_reverse, List.length_map, List.length_map,
      hall.length_eq]
  · intro key
    rw [Config.allowedNodes, hpeers, keys_insertAll hnodes]
    constructor
    · intro hkey
      obtain ⟨pair, hpair, rfl⟩ := List.mem_map.mp hkey
      obtain ⟨entry, hentry, hnorm⟩ := exists_entry hall hpair
      exact ⟨entry.1, List.mem_reverse.mpr (List.mem_map_of_mem hentry), hnorm.key⟩
    · rintro ⟨node, hnode, rfl⟩
      obtain ⟨entry, hentry, rfl⟩ := List.mem_map.mp (List.mem_reverse.mp hnode)
      obtain ⟨pair, hpair, hnorm⟩ := exists_pair hall hentry
      exact hnorm.key ▸ List.mem_map_of_mem hpair
  · refine ⟨c.peerAllowlist.map .endpointId, ?_, ?_⟩
    · show option ((keyword (ofKeyword c.endpointPairs)).getD []) "peer_allowlist" = _
      rw [keyword_ofKeyword]
      rfl
    · intro t
      rw [List.mem_map]
      constructor
      · rintro ⟨id, hid, rfl⟩
        obtain ⟨node, peer, hpeer, rfl⟩ := Config.mem_peerAllowlist_iff.mp hid
        obtain ⟨pair, hpair, hnorm⟩ := exists_pair hall ((hresolve node peer).mp hpeer)
        exact ⟨pair, hpair, peer.target, peer.id, hnorm.target, rfl⟩
      · rintro ⟨pair, hpair, target, id, htarget, rfl⟩
        obtain ⟨⟨node, peer⟩, hentry, hnorm⟩ := exists_entry hall hpair
        have hpeer := (hresolve node peer).mpr hentry
        exact ⟨id, Config.mem_peerAllowlist_iff.mpr ⟨node, peer, hpeer, hnorm.id_eq htarget⟩, rfl⟩

end Normalize

/-- A peers map is accepted exactly if its nodes and targets are good and no
two targets share an identity, in whatever order it is enumerated; and the
configuration it is accepted into has its indexes exact. -/
theorem peer_indexes_exact (nif : IdentityNif) (localName : Atom) {pairs : List (Term × Term)}
    (hkeys : (pairs.map Prod.fst).Nodup) :
    ((∃ result, normalizePeers nif (.map pairs) localName = .ok result) ↔
        PeersAccepted nif localName pairs) ∧
      (∀ pairs', pairs.Perm pairs' →
        ((∃ result, normalizePeers nif (.map pairs) localName = .ok result) ↔
          ∃ result, normalizePeers nif (.map pairs') localName = .ok result)) ∧
      ∀ options mode c, validate nif options mode = .ok c →
        option (withDefaults options) "peers" = .map pairs →
        (∃ result, normalizePeers nif (.map pairs) c.name = .ok result) ∧
          c.ExactIndexes nif pairs := by
  refine ⟨normalizePeers_ok_iff hkeys, fun pairs' hperm => normalizePeers_perm hkeys hperm, ?_⟩
  intro options mode c h hpairs
  obtain ⟨-, -, hpeers⟩ := validate_parts h
  rw [hpairs] at hpeers
  exact ⟨⟨_, hpeers⟩, exactIndexes_of_normalizePeers hkeys hpeers⟩

/-- Two peers, by an identity and by an address. -/
def twoPeers : List (Term × Term) :=
  [(.atom (atom "b@h"), .endpointId samplePeerId),
   (.atom (atom "c@h"), .endpointAddr ⟨sampleOtherId, [], []⟩)]

/-- A third one, with the identity of the first. -/
def clashingPeers : List (Term × Term) :=
  twoPeers ++ [(.atom (atom "d@h"), .endpointAddr ⟨samplePeerId, [], []⟩)]

/-- `sampleOptions` with the two peers. -/
def twoPeerOptions : Term :=
  .list
    [.tuple [.atom (atom "name"), .atom (atom "a@h")],
     .tuple [.atom (atom "identity"), .atom (atom "ephemeral")],
     .tuple [.atom (atom "network"), .atom (atom "direct")],
     .tuple [.atom (atom "peers"), .map twoPeers]]

def twoPeerConfig : Config :=
  { sampleConfig with
    peers := ((∅ : PeerMap).insert (atom "b@h") ⟨.id samplePeerId, samplePeerId⟩).insert
      (atom "c@h") ⟨.addr ⟨sampleOtherId, [], []⟩, sampleOtherId⟩
    ids := ((∅ : IdMap).insert samplePeerId.text (atom "b@h")).insert
      sampleOtherId.text (atom "c@h") }

/-- Keys that are atoms are distinct if the atoms are. -/
theorem atoms_nodup {nodes : List Atom} (h : nodes.Nodup) : (nodes.map Term.atom).Nodup :=
  h.map fun _ _ heq => Term.atom.inj heq

/-- Two peers are accepted in either order and have exact indexes; with the third
one the map is refused in every order. -/
theorem peer_indexes_exact_sample :
    (∃ result, normalizePeers sampleNif (.map twoPeers.reverse) (atom "a@h") = .ok result) ∧
      validate sampleNif twoPeerOptions .dynamic = .ok twoPeerConfig ∧
      twoPeerConfig.ExactIndexes sampleNif twoPeers ∧
      twoPeerConfig.authorizeId sampleOtherId = some (atom "c@h") ∧
      ∀ pairs', clashingPeers.Perm pairs' →
        ¬ ∃ result, normalizePeers sampleNif (.map pairs') (atom "a@h") = .ok result := by
  have hvalid : validate sampleNif twoPeerOptions .dynamic = .ok twoPeerConfig := rfl
  obtain ⟨-, horder, hindexes⟩ := peer_indexes_exact sampleNif (atom "a@h")
    (show (twoPeers.map Prod.fst).Nodup from
      atoms_nodup (by decide : [atom "b@h", atom "c@h"].Nodup))
  obtain ⟨haccepted, hexact⟩ := hindexes twoPeerOptions .dynamic twoPeerConfig hvalid rfl
  have hsecond : twoPeerConfig.authorizeId sampleOtherId = some (atom "c@h") :=
    hexact.authorizeId_of_resolve (atom "c@h") ⟨.addr ⟨sampleOtherId, [], []⟩, sampleOtherId⟩ rfl
  refine ⟨(horder _ twoPeers.reverse_perm.symm).mp haccepted, hvalid, hexact, hsecond, ?_⟩
  intro pairs' hperm hresult
  obtain ⟨hverdict, hclash, -⟩ := peer_indexes_exact sampleNif (atom "a@h")
    (show (clashingPeers.map Prod.fst).Nodup from
      atoms_nodup (by decide : [atom "b@h", atom "c@h", atom "d@h"].Nodup))
  have hdistinct := (hverdict.mp ((hclash pairs' hperm).mpr hresult)).distinct
  -- the first and the last entry have one identity and two keys
  have hsame := hdistinct (.atom (atom "b@h"), .endpointId samplePeerId) List.mem_cons_self
    (.atom (atom "d@h"), .endpointAddr ⟨samplePeerId, [], []⟩)
    (List.mem_append_right _ (List.mem_singleton_self _)) _ _ _ _ rfl rfl rfl
  exact absurd (Term.atom.inj hsame) (by decide)

end IrohBeam
