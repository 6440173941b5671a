/-
IrohBeam/Handshake.lean

The byte protocol of a link before node-up.  On one unbuffered stream come,
one after the other,

    preface          magic, two 16-bit lengths, two node names
                     src/iroh_dist_preface.erl
    packet two       handshake packets with a 16-bit length
                     src/iroh_dist.erl
    packet four      distribution packets with a 32-bit length
                     src/iroh_dist_controller.erl

and each decoder must leave the stream exactly where the next one starts.
`incoming_preface` and `packet2Recvs_frames` say that the first two do, and
`handshake_reads_its_frames` puts them together; the truncated cases are
`incoming_truncated` and `packet2Recv_truncated`.
-/
import IrohBeam.Controller

namespace IrohBeam

open Bytes

/-! ### The preface -/

/-- `?MAGIC`. -/
def magic : Binary := ascii "IROHDIST1"

/-- The preface for the given names. -/
def prefaceFrame (localName remoteName : Binary) : Binary :=
  magic ++ be 2 localName.length ++ be 2 remoteName.length ++ localName ++ remoteName

/-- `send/2` of the preface module. -/
def prefaceSend (session : Session) (data : Binary) (w : Wire) : Except HandshakeError Unit × Wire :=
  match w.send data session.streamTimeout 1024 with
  | (.ok (), w') => (.ok (), w')
  | (.error e, w') => (.error (safeReason e), w')

/-- `outgoing/3`. -/
def outgoing (session : Session) (localNode remoteNode : Atom) (w : Wire) :
    Except HandshakeError Unit × Wire :=
  if localNode.text.length ≤ 255 ∧ remoteNode.text.length ≤ 255 then
    match prefaceSend session (prefaceFrame localNode.text remoteNode.text) w with
    | (.ok (), w') =>
        match recvExact session 1 [] w' with
        | (.ok ack, w'') => (if ack = [1] then .ok () else .error .unauthorized, w'')
        | (.error e, w'') => (.error e, w'')
    | (.error e, w') => (.error e, w')
  else (.error .invalidNodeName, w)

/-- The end of `incoming/1`, once both names have been read: ask the endpoint
server whether the claim is authorised, acknowledge it and record it. -/
def acceptClaim (validatePreface : Binary → EndpointId → Binary → Except PeerError Atom)
    (session : Session) (remote target : Binary) (w : Wire) :
    Except HandshakeError Session × Wire :=
  match validatePreface remote session.remoteId target with
  | .ok node =>
      match prefaceSend session [1] w with
      | (.ok (), w') => (.ok { session with claimedNode := some node }, w')
      | (.error e, w') => (.error e, w')
  | .error e => (.error (.peer e), w)

/-- `incoming/1`. -/
def incoming (validatePreface : Binary → EndpointId → Binary → Except PeerError Atom)
    (session : Session) (w : Wire) : Except HandshakeError Session × Wire :=
  match recvExact session (magic.length + 4) [] w with
  | (.ok header, w') =>
      let remoteSize := ofBe ((header.drop 9).take 2)
      let targetSize := ofBe ((header.drop 11).take 2)
      if header.take 9 = magic ∧ remoteSize ≤ 255 ∧ targetSize ≤ 255 then
        match recvExact session (remoteSize + targetSize) [] w' with
        | (.ok names, w'') =>
            acceptClaim validatePreface session (names.take remoteSize)
              (names.drop remoteSize) w''
        | (.error e, w'') => (.error e, w'')
      else (.error .malformedPreface, w')
  | (.error e, w') => (.error e, w')

/-! ### Packet two -/

/-- `packet2_frame/1`. -/
def packet2Frame (packet : List Binary) : Except HandshakeError Binary :=
  if packet.flatten.length < 2 ^ 16 then
    .ok (be 2 packet.flatten.length ++ packet.flatten)
  else .error .emsgsize

/-- `packet2_send/2`. -/
def packet2Send (session : Session) (packet : List Binary) (w : Wire) :
    Except HandshakeError Unit × Wire :=
  match packet2Frame packet with
  | .ok frame =>
      match w.send frame session.streamTimeout 65537 with
      | (.ok (), w') => (.ok (), w')
      | (.error e, w') => (.error (safeReason e), w')
  | .error e => (.error e, w)

/-- `packet2_recv/1`. -/
def packet2Recv (session : Session) (w : Wire) : Except HandshakeError Binary × Wire :=
  match recvExact session 2 [] w with
  | (.ok size, w') => recvExact session (ofBe size) [] w'
  | (.error e, w') => (.error e, w')

/-- `n` successive calls of `packet2_recv/1`, up to the first error. -/
def packet2Recvs (session : Session) : ℕ → Wire → Except HandshakeError (List Binary) × Wire
  | 0, w => (.ok [], w)
  | n + 1, w =>
      match packet2Recv session w with
      | (.ok packet, w') =>
          match packet2Recvs session n w' with
          | (.ok packets, w'') => (.ok (packet :: packets), w'')
          | (.error e, w'') => (.error e, w'')
      | (.error e, w') => (.error e, w')

/-! ### Sending -/

/-- A send leaves what is to be read alone. -/
theorem send_unread (w : Wire) (data : Binary) (timeout maxBytes : ℕ) :
    (w.send data timeout maxBytes).2.unread = w.unread ∧
      (w.send data timeout maxBytes).2.replies = w.replies := by
  unfold Wire.send
  split
  · split
    split
    · split <;> exact ⟨rfl, rfl⟩
    · exact ⟨rfl, rfl⟩
  · exact ⟨rfl, rfl⟩

/-- A send that the stream takes whole. -/
theorem send_complete {w : Wire} {data : Binary} {timeout : ℕ} (maxBytes : ℕ)
    (hout : w.outcomes 0 = .complete) (ht : 0 < timeout) (hne : data ≠ [])
    (hlen : data.length ≤ maxBytes) :
    w.send data timeout maxBytes =
      (.ok (), { w with
        written := w.written ++ data
        outcomes := fun i => w.outcomes (i + 1) }) := by
  have hpos : 0 < data.length := List.length_pos_iff.mpr hne
  unfold Wire.send
  rw [if_pos ⟨ht, by omega, hpos, hlen⟩]
  simp [startStreamSend, hne, hout]

theorem prefaceSend_unread (session : Session) (data : Binary) (w : Wire) :
    (prefaceSend session data w).2.unread = w.unread ∧
      (prefaceSend session data w).2.replies = w.replies := by
  have h := send_unread w data session.streamTimeout 1024
  unfold prefaceSend
  split <;> next heq => rw [heq] at h; exact h

theorem acceptClaim_unread (validatePreface : Binary → EndpointId → Binary → Except PeerError Atom)
    (session : Session) (remote target : Binary) (w : Wire) :
    (acceptClaim validatePreface session remote target w).2.unread = w.unread ∧
      (acceptClaim validatePreface session remote target w).2.replies = w.replies := by
  have h := prefaceSend_unread session [1] w
  unfold acceptClaim
  split
  · split <;> next heq => rw [heq] at h; exact h
  · exact ⟨rfl, rfl⟩

@[simp] theorem length_prefaceFrame (l r : Binary) :
    (prefaceFrame l r).length = 13 + (l.length + r.length) := by
  have hmagic : magic.length = 9 := rfl
  simp only [prefaceFrame, List.length_append, length_be, hmagic]
  omega

/-- What `outgoing/3` writes is the preface. -/
theorem outgoing_written {session : Session} (hs : 0 < session.streamTimeout)
    {localNode remoteNode : Atom} (hl : localNode.text.length ≤ 255)
    (hr : remoteNode.text.length ≤ 255) {w : Wire} (hout : w.outcomes 0 = .complete) :
    (outgoing session localNode remoteNode w).2.written =
      w.written ++ prefaceFrame localNode.text remoteNode.text := by
  have hlen := length_prefaceFrame localNode.text remoteNode.text
  have hne : prefaceFrame localNode.text remoteNode.text ≠ [] := by
    intro hnil
    rw [hnil, List.length_nil] at hlen
    omega
  have hsend := send_complete 1024 hout hs hne (by omega)
  simp only [outgoing, if_pos (And.intro hl hr), prefaceSend, hsend]
  -- waiting for the acknowledgement writes nothing
  have hack := recvExact_written session 1 []
    { w with
      written := w.written ++ prefaceFrame localNode.text remoteNode.text
      outcomes := fun i => w.outcomes (i + 1) }
  split <;> next heq => rw [heq] at hack; exact hack

/-- `packet2_frame/1` writes a packet below the limit as a frame. -/
theorem packet2Frame_eq {packet : List Binary} (h : packet.flatten.length < 2 ^ 16) :
    packet2Frame packet = .ok (Frame.encode 2 packet.flatten) := by
  rw [packet2Frame, if_pos h, Frame.encode]

/-- What `packet2_send/2` writes is the packet's frame. -/
theorem packet2Send_written {session : Session} (hs : 0 < session.streamTimeout)
    {packet : List Binary} (h : packet.flatten.length < 2 ^ 16) {w : Wire}
    (hout : w.outcomes 0 = .complete) :
    (packet2Send session packet w).2.written = w.written ++ Frame.encode 2 packet.flatten := by
  have hlen := Frame.length_encode 2 packet.flatten
  have hne : Frame.encode 2 packet.flatten ≠ [] := by
    intro hnil
    rw [hnil, List.length_nil] at hlen
    omega
  have hsend := send_complete 65537 hout hs hne (by omega)
  simp only [packet2Send, packet2Frame_eq h, hsend]

/-! ### Reading the preface -/

/-- The fixed part of a preface. -/
def prefaceHeader (l r : Binary) : Binary := magic ++ be 2 l.length ++ be 2 r.length

theorem prefaceFrame_eq (l r : Binary) : prefaceFrame l r = prefaceHeader l r ++ (l ++ r) := by
  simp only [prefaceFrame, prefaceHeader, List.append_assoc]

theorem length_prefaceHeader (l r : Binary) : (prefaceHeader l r).length = 13 := by
  simp [prefaceHeader, magic, ascii]

/-- The header fields are those that were written. -/
theorem prefaceHeader_fields {l r : Binary} (hl : l.length ≤ 255) (hr : r.length ≤ 255) :
    (prefaceHeader l r).take 9 = magic ∧
      ofBe (((prefaceHeader l r).drop 9).take 2) = l.length ∧
      ofBe (((prefaceHeader l r).drop 11).take 2) = r.length := by
  have hmagic : magic.length = 9 := rfl
  refine ⟨?_, ?_, ?_⟩
  · rw [prefaceHeader, List.append_assoc, List.take_left' hmagic]
  · rw [prefaceHeader, List.append_assoc, List.drop_left' hmagic, List.take_left' (length_be 2 _),
      ofBe_be_of_lt (by omega)]
  · rw [prefaceHeader, List.drop_left' (by simp [hmagic]), List.take_of_length_le (by simp),
      ofBe_be_of_lt (by omega)]

/-- A header with the right magic is the header of a preface. -/
theorem prefaceHeader_of_fields {header : Binary} (hlen : header.length = 13)
    (hmagic : header.take 9 = magic) {l r : Binary}
    (hl : l.length = ofBe ((header.drop 9).take 2))
    (hr : r.length = ofBe ((header.drop 11).take 2)) : header = prefaceHeader l r := by
  have hfield : ∀ i, i + 2 ≤ 13 → be 2 (ofBe ((header.drop i).take 2)) = (header.drop i).take 2 := by
    intro i hi
    have htwo : ((header.drop i).take 2).length = 2 := by
      rw [List.length_take, List.length_drop]
      omega
    have hfield := be_ofBe ((header.drop i).take 2)
    rwa [htwo] at hfield
  rw [prefaceHeader, hl, hr, hfield 9 (by omega), hfield 11 (by omega), ← hmagic, List.append_assoc]
  have hrest : (header.drop 9).take 2 ++ (header.drop 11).take 2 = header.drop 9 := by
    have hlast : (header.drop 11).take 2 = header.drop 11 :=
      List.take_of_length_le (by rw [List.length_drop]; omega)
    rw [hlast, ← List.drop_drop (i := 2) (j := 9), List.take_append_drop]
  rw [hrest, List.take_append_drop]

theorem acceptClaim_ok {validatePreface : Binary → EndpointId → Binary → Except PeerError Atom}
    {session session' : Session} {remote target : Binary} {w w' : Wire}
    (h : acceptClaim validatePreface session remote target w = (.ok session', w')) :
    ∃ node, validatePreface remote session.remoteId target = .ok node ∧
      session' = { session with claimedNode := some node } := by
  unfold acceptClaim at h
  split at h
  · next node hnode =>
      split at h
      · exact ⟨node, hnode, (Except.ok.inj (Prod.mk.inj h).1).symm⟩
      · cases (Prod.mk.inj h).1
  · cases (Prod.mk.inj h).1

/-- **What `incoming/1` accepts is a preface**, on every stream: the claim it
authorised is the one the bytes make. -/
theorem incoming_ok
    {validatePreface : Binary → EndpointId → Binary → Except PeerError Atom}
    {session session' : Session} {w w' : Wire}
    (h : incoming validatePreface session w = (.ok session', w')) :
    ∃ remote target node, remote.length ≤ 255 ∧ target.length ≤ 255 ∧
      prefaceFrame remote target <+: w.unread ∧
      validatePreface remote session.remoteId target = .ok node ∧
      session' = { session with claimedNode := some node } := by
  unfold incoming at h
  split at h
  · next header w₁ hread =>
      obtain ⟨_, hlen, rfl, hun⟩ := recvExact_ok hread
      dsimp only at h
      split at h
      · next hfields =>
          obtain ⟨hmagic, hremote, htarget⟩ := hfields
          split at h
          · next names w₂ hread₂ =>
              obtain ⟨_, hlen₂, rfl, hun₂⟩ := recvExact_ok hread₂
              obtain ⟨node, hvalid, hsession⟩ := acceptClaim_ok h
              refine ⟨_, _, node, ?_, ?_, ?_, hvalid, hsession⟩
              · rw [List.length_take]
                omega
              · rw [List.length_drop]
                omega
              · rw [prefaceFrame_eq, List.take_append_drop, hun, hun₂, ← List.append_assoc,
                  ← prefaceHeader_of_fields hlen hmagic]
                · exact List.prefix_append _ _
                · rw [List.length_take]
                  omega
                · rw [List.length_drop]
                  omega
          · cases (Prod.mk.inj h).1
      · cases (Prod.mk.inj h).1
  · cases (Prod.mk.inj h).1

section Reading

variable {session : Session} (hs : 0 < session.streamTimeout)
  (validatePreface : Binary → EndpointId → Binary → Except PeerError Atom)
include hs

/-- Once the header has been read, `incoming/1` goes on with the names. -/
theorem incoming_header {l r : Binary} (hl : l.length ≤ 255) (hr : r.length ≤ 255) {w : Wire}
    (hw : w.Flows) {rest : Binary} (hun : w.unread = prefaceHeader l r ++ rest) :
    ∃ w', w.Advances 13 w' ∧ w'.unread = rest ∧
      incoming validatePreface session w =
        match recvExact session (l.length + r.length) [] w' with
        | (.ok names, w'') =>
            acceptClaim validatePreface session (names.take l.length) (names.drop l.length) w''
        | (.error e, w'') => (.error e, w'') := by
  have hlen := length_prefaceHeader l r
  obtain ⟨hm, hlsize, hrsize⟩ := prefaceHeader_fields hl hr
  obtain ⟨w', hread, hadv⟩ := recvExact_eq hs hw 13
    (by rw [hun, List.length_append]; omega) (by omega) []
  rw [hun, List.take_left' hlen] at hread
  refine ⟨w', hadv, ?_, ?_⟩
  · rw [hadv.unread, hun, List.drop_left' hlen]
  · have hthirteen : magic.length + 4 = 13 := rfl
    simp only [incoming, hthirteen, hread, List.reverse_nil, List.flatten_nil, List.nil_append, hm,
      hlsize, hrsize, true_and, if_pos (And.intro hl hr)]

/-- **`incoming/1` reads exactly the preface**: it asks about the two names
that were written, and leaves what follows them. -/
theorem incoming_preface {l r : Binary} (hl : l.length ≤ 255) (hr : r.length ≤ 255) {w : Wire}
    (hw : w.Flows) {rest : Binary} (hun : w.unread = prefaceFrame l r ++ rest) :
    ∃ w', w.Advances (prefaceFrame l r).length w' ∧ w'.unread = rest ∧
      incoming validatePreface session w = acceptClaim validatePreface session l r w' := by
  rw [prefaceFrame_eq, List.append_assoc] at hun
  obtain ⟨w₁, hadv₁, hun₁, hin⟩ := incoming_header hs validatePreface hl hr hw hun
  obtain ⟨w', hread, hadv'⟩ := recvExact_eq hs hadv₁.flows (l.length + r.length)
    (by rw [hun₁]; simp) (by omega) []
  have hnames : (l ++ r ++ rest).take (l.length + r.length) = l ++ r :=
    List.take_left' List.length_append
  refine ⟨w', ?_, ?_, ?_⟩
  · rw [length_prefaceFrame]
    exact hadv₁.trans hadv'
  · rw [hadv'.unread, hun₁, List.drop_left' List.length_append]
  · rw [hun₁, hnames] at hread
    rw [hin, hread]
    simp

/-- **A preface cut short is `closed`.** -/
theorem incoming_truncated {l r : Binary} (hl : l.length ≤ 255) (hr : r.length ≤ 255) {w : Wire}
    (hw : w.Flows) (hpre : w.unread <+: prefaceFrame l r) (hne : w.unread ≠ prefaceFrame l r) :
    (incoming validatePreface session w).1 = .error .closed := by
  have hlt : w.unread.length < 13 + (l.length + r.length) := by
    rw [← length_prefaceFrame]
    exact lt_of_le_of_ne hpre.length_le fun h => hne (hpre.eq_of_length h)
  by_cases hshort : w.unread.length < 13
  · -- the stream ends inside the header
    obtain ⟨w', hclosed⟩ := recvExact_closed hs hw (magic.length + 4) hshort
      (by decide) []
    simp only [incoming, hclosed]
  · -- the header is complete, so the stream ends inside the names
    obtain ⟨rest, hrest⟩ : ∃ rest, w.unread = prefaceHeader l r ++ rest := by
      rw [prefaceFrame_eq] at hpre
      have hhead : prefaceHeader l r <+: w.unread :=
        List.prefix_of_prefix_length_le (List.prefix_append _ _) hpre
          (by rw [length_prefaceHeader]; omega)
      obtain ⟨rest, h⟩ := hhead
      exact ⟨rest, h.symm⟩
    obtain ⟨w₁, hadv, hun₁, hin⟩ := incoming_header hs validatePreface hl hr hw hrest
    obtain ⟨w', hclosed⟩ := recvExact_closed hs hadv.flows (l.length + r.length)
      (by rw [hadv.unread, List.length_drop]; omega) (by omega) []
    rw [hin, hclosed]

/-! ### Reading packets -/

omit validatePreface in
/-- `packet2_recv/1` reads exactly one frame. -/
theorem packet2Recv_frame {p : Binary} (hp : p.length < 2 ^ 16) {w : Wire} (hw : w.Flows)
    {rest : Binary} (hun : w.unread = Frame.encode 2 p ++ rest) :
    ∃ w', packet2Recv session w = (.ok p, w') ∧ w'.unread = rest ∧ w'.Flows := by
  rw [Frame.encode, List.append_assoc] at hun
  obtain ⟨w₁, hread₁, hadv₁⟩ := recvExact_eq hs hw 2
    (by rw [hun]; simp) (by omega) []
  rw [hun, List.take_left' (length_be 2 _)] at hread₁
  have hun₁ : w₁.unread = p ++ rest := by
    rw [hadv₁.unread, hun, List.drop_left' (length_be 2 _)]
  obtain ⟨w', hread', hadv'⟩ := recvExact_eq hs hadv₁.flows p.length
    (by rw [hun₁]; simp) (by omega) []
  rw [hun₁, List.take_left] at hread'
  refine ⟨w', ?_, ?_, hadv'.flows⟩
  · simp only [packet2Recv, hread₁, List.reverse_nil, List.flatten_nil, List.nil_append,
      ofBe_be_of_lt (w := 2) hp]
    exact hread'
  · rw [hadv'.unread, hun₁, List.drop_left]

/-- **Successive calls read exactly their frames.** -/
theorem packet2Recvs_frames {ps : List Binary} (hps : ∀ p ∈ ps, p.length < 2 ^ 16) {w : Wire}
    (hw : w.Flows) {rest : Binary} (hun : w.unread = Frame.encodeAll 2 ps ++ rest) :
    ∃ w', packet2Recvs session ps.length w = (.ok ps, w') ∧ w'.unread = rest ∧ w'.Flows := by
  induction ps generalizing w with
  | nil => exact ⟨w, rfl, hun, hw⟩
  | cons p ps ih =>
      obtain ⟨hp, hps⟩ := List.forall_mem_cons.mp hps
      rw [Frame.encodeAll_cons, List.append_assoc] at hun
      obtain ⟨w₁, hrecv, hun₁, hw₁⟩ := packet2Recv_frame hs hp hw hun
      obtain ⟨w', hrecvs, hun', hw'⟩ := ih hps hw₁ hun₁
      refine ⟨w', ?_, hun', hw'⟩
      simp only [List.length_cons, packet2Recvs, hrecv, hrecvs]

/-- **A packet cut short is `closed`.** -/
theorem packet2Recv_truncated {p : Binary} (hp : p.length < 2 ^ 16) {w : Wire} (hw : w.Flows)
    (hpre : w.unread <+: Frame.encode 2 p) (hne : w.unread ≠ Frame.encode 2 p) :
    (packet2Recv session w).1 = .error .closed := by
  have hlt : w.unread.length < 2 + p.length := by
    rw [← Frame.length_encode]
    exact lt_of_le_of_ne hpre.length_le fun h => hne (hpre.eq_of_length h)
  by_cases hshort : w.unread.length < 2
  · -- the stream ends inside the length field
    obtain ⟨w', hclosed⟩ := recvExact_closed hs hw 2 hshort (by omega) []
    simp only [packet2Recv, hclosed]
  · -- the length is complete, so the stream ends inside the packet
    obtain ⟨w₁, hread, hadv⟩ := recvExact_eq hs hw 2 (by omega) (by omega) []
    have hsize : w.unread.take 2 = be 2 p.length := by
      have htake : (Frame.encode 2 p).take 2 = be 2 p.length := List.take_left' (length_be 2 _)
      rw [← htake]
      exact (hpre.take 2).eq_of_length (by simp; omega)
    simp only [packet2Recv, hread, List.reverse_nil, List.flatten_nil, List.nil_append, hsize,
      ofBe_be_of_lt (w := 2) hp]
    obtain ⟨w', hclosed⟩ := recvExact_closed hs hadv.flows p.length
      (by rw [hadv.unread, List.length_drop]; omega) (by omega) []
    rw [hclosed]

end Reading

/-! ### The whole handshake -/

/-- **Each decoder reads exactly its frames.**  `outgoing/3` and
`packet2_send/2` write the preface and the frames; on a stream that carries
them and then the frames of packet four, for every chunking, `incoming/1` gets
the two names, the calls of `packet2_recv/1` get the packets, and the frames of
packet four are left.  A stream that ends inside a preface or a packet-two
frame gives `closed`. -/
theorem handshake_reads_its_frames {nif : IdentityNif} {options : Term} {mode : Mode} {c : Config}
    (hc : validate nif options mode = .ok c) (connection stream : ℕ) (remoteId : EndpointId)
    (localNode remoteNode : Atom) (hl : localNode.text.length ≤ 255)
    (hr : remoteNode.text.length ≤ 255) (packets : List (List Binary))
    (hpackets : ∀ p ∈ packets, p.flatten.length < 65536) (frames : List Binary)
    (validatePreface : Binary → EndpointId → Binary → Except PeerError Atom) :
    let session := c.session connection stream remoteId
    let preface := prefaceFrame localNode.text remoteNode.text
    (∀ w : Wire, w.outcomes 0 = .complete →
      (outgoing session localNode remoteNode w).2.written = w.written ++ preface) ∧
    (∀ p ∈ packets, packet2Frame p = .ok (Frame.encode 2 p.flatten) ∧
      ∀ w : Wire, w.outcomes 0 = .complete →
        (packet2Send session p w).2.written = w.written ++ Frame.encode 2 p.flatten) ∧
    (∀ w : Wire, w.Flows →
      w.unread = preface ++ Frame.encodeAll 2 (packets.map List.flatten) ++
        Frame.encodeAll 4 frames →
      ∃ w₁ w₂, incoming validatePreface session w =
          acceptClaim validatePreface session localNode.text remoteNode.text w₁ ∧
        packet2Recvs session packets.length (incoming validatePreface session w).2 =
          (.ok (packets.map List.flatten), w₂) ∧
        w₂.unread = Frame.encodeAll 4 frames) ∧
    (∀ w : Wire, w.Flows → w.unread <+: preface → w.unread ≠ preface →
      (incoming validatePreface session w).1 = .error .closed) ∧
    ∀ before p after, packets = before ++ p :: after →
      ∀ part, part <+: Frame.encode 2 p.flatten → part ≠ Frame.encode 2 p.flatten →
      ∀ w : Wire, w.Flows → w.unread = Frame.encodeAll 2 (before.map List.flatten) ++ part →
      ∃ w', packet2Recvs session before.length w = (.ok (before.map List.flatten), w') ∧
        (packet2Recv session w').1 = .error .closed := by
  intro session preface
  have hs : 0 < session.streamTimeout := (validate_limits hc).streamTimeout
  have hflat : ∀ q ∈ packets.map List.flatten, q.length < 2 ^ 16 := by
    intro q hq
    obtain ⟨p, hp, rfl⟩ := List.mem_map.mp hq
    exact hpackets p hp
  refine ⟨?_, ?_, ?_, ?_, ?_⟩
  · intro w hout
    exact outgoing_written hs hl hr hout
  · intro p hp
    refine ⟨packet2Frame_eq (hpackets p hp), ?_⟩
    intro w hout
    exact packet2Send_written hs (hpackets p hp) hout
  · intro w hw hun
    rw [List.append_assoc] at hun
    obtain ⟨w₁, hadv, hun₁, hin⟩ := incoming_preface hs validatePreface hl hr hw hun
    obtain ⟨hunread, hreplies⟩ :=
      acceptClaim_unread validatePreface session localNode.text remoteNode.text w₁
    -- the acknowledgement that `incoming/1` sends reads nothing
    have hflows : (incoming validatePreface session w).2.Flows := by
      intro i
      rw [hin, hreplies]
      exact hadv.flows i
    obtain ⟨w₂, hrecvs, hun₂, -⟩ :=
      packet2Recvs_frames hs hflat hflows (by rw [hin, hunread, hun₁])
    rw [List.length_map] at hrecvs
    exact ⟨w₁, w₂, hin, hrecvs, hun₂⟩
  · intro w hw hpre hne
    exact incoming_truncated hs validatePreface hl hr hw hpre hne
  · rintro before p after rfl part hpre hne w hw hun
    rw [List.map_append, List.map_cons] at hflat
    obtain ⟨w', hrecvs, hun', hw'⟩ := packet2Recvs_frames hs
      (fun q hq => hflat q (List.mem_append_left _ hq)) hw hun
    rw [List.length_map] at hrecvs
    refine ⟨w', hrecvs, packet2Recv_truncated hs (hflat p.flatten (by simp)) hw' ?_ ?_⟩
    · rwa [hun']
    · rwa [hun']

/-- The bytes of `b@h` dialling `a@h`, one handshake packet and one packet-four
frame, arriving one by one. -/
def sampleWire : Wire where
  unread := prefaceFrame (ascii "b@h") (ascii "a@h") ++ Frame.encodeAll 2 [[7, 8]] ++
    Frame.encodeAll 4 [[9]]
  replies := fun _ => .bytes 1
  written := []
  outcomes := fun _ => .complete

theorem handshake_reads_its_frames_sample :
    ∃ w₂ : Wire,
      packet2Recvs (sampleConfig.session 0 0 samplePeerId) 1
          (incoming sampleConfig.authorizeClaim (sampleConfig.session 0 0 samplePeerId)
            sampleWire).2 = (.ok [[7, 8]], w₂) ∧
        w₂.unread = Frame.encodeAll 4 [[9]] := by
  obtain ⟨-, -, hread, -⟩ := handshake_reads_its_frames validate_sample 0 0 samplePeerId
    (atom "b@h") (atom "a@h") (by decide) (by decide) [[[7], [8]]] (by decide) [[9]]
    sampleConfig.authorizeClaim
  obtain ⟨w₁, w₂, -, hrecvs, hun⟩ := hread sampleWire (fun _ => ⟨1, Nat.one_pos, rfl⟩) rfl
  exact ⟨w₂, hrecvs, hun⟩

end IrohBeam
