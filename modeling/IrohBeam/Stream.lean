/-
IrohBeam/Stream.lean

The blocking calls of `IrohBeam.Stream` (`lib/iroh_beam/stream.ex`), as one
process sees them on one bidirectional stream.

A `Wire` is the stream from that process's side: the bytes the peer has
written before it finished, less what has been read, and an oracle for each
direction.  The `i`-th receive from now on gets what `replies i` says and the
`i`-th send what `outcomes i` says, so a wire ranges over every chunking and
every failure.

`recvExact` is the loop by which both users of a stream before node-up read a
fixed number of bytes.  Its two specifications, `recvExact_eq` and
`recvExact_closed`, hold for every chunking: it consumes exactly the bytes it
was asked for, and it answers `closed` when the stream ends before them.
-/
import IrohBeam.Config

namespace IrohBeam

open Bytes

/-! ### The wire -/

/-- What the stream does with the bytes of one send.  `failed` covers every
way the send can end other than by success: the half is closed or busy, the
peer aborts, or the caller's timeout cancels it. -/
inductive WriteOutcome where
  | complete
  | failed (accepted : ℕ) (error : Error)

/-- What the stream does on one receive: give at most `n` of the bytes that
are there, or fail. -/
inductive RecvReply where
  | bytes (n : ℕ)
  | failed (error : Error)

/-- One side of a stream. -/
structure Wire where
  unread : Binary
  replies : ℕ → RecvReply
  written : Binary
  outcomes : ℕ → WriteOutcome

/-- What `recv/3` returns. -/
inductive RecvResult where
  | data (bytes : Binary)
  | eof
  | error (error : Error)
  deriving DecidableEq

/-! ### Receiving and sending -/

/-- `recv/3`. -/
def Wire.recv (w : Wire) (maxBytes timeout : ℕ) : RecvResult × Wire :=
  if 1 ≤ maxBytes ∧ maxBytes ≤ 16 * 1024 * 1024 then
    if 0 < timeout then
      let w' := { w with replies := fun i => w.replies (i + 1) }
      match w.replies 0 with
      | .failed e => (.error e, w')
      | .bytes n =>
          if w.unread = [] then (.eof, w')
          else
            let k := min n maxBytes
            (.data (w.unread.take k), { w' with unread := w.unread.drop k })
    else
      (.error ⟨.invalidArgument, .stream, "stream options require a positive timeout"⟩, w)
  else
    (.error ⟨.invalidArgument, .streamRecv,
      "receive limit must be between 1 and 16777216 bytes"⟩, w)

/-- `start_stream_send` with `send_all`: the bytes written and the result. -/
def startStreamSend (data : Binary) (chunkSize : ℕ) (outcome : WriteOutcome) :
    Binary × Except Error ℕ :=
  if data = [] ∨ chunkSize = 0 then
    ([], .error ⟨.invalidArgument, .streamSend, "send data and chunk size must be positive"⟩)
  else match outcome with
    | .complete => (data, .ok data.length)
    | .failed accepted error => (data.take accepted, .error error)

/-- `send/3` with the `timeout` and `max_bytes` options given. -/
def Wire.send (w : Wire) (data : Binary) (timeout maxBytes : ℕ) : Except Error Unit × Wire :=
  if 0 < timeout ∧ 0 < maxBytes ∧ 0 < data.length ∧ data.length ≤ maxBytes then
    match startStreamSend data (64 * 1024) (w.outcomes 0) with
    | (written, result) =>
        let w' := { w with
          written := w.written ++ written
          outcomes := fun i => w.outcomes (i + 1) }
        match result with
        | .ok n =>
            if n = data.length then (.ok (), w')
            else (.error ⟨.invalidArgument, .streamSend,
              "stream send completed with a short write"⟩, w')
        | .error e => (.error e, w')
  else
    (.error ⟨.invalidArgument, .streamSend, "send options or byte limit are invalid"⟩, w)

/-- The reasons a handshake step fails with.  `stream` is what `safe_reason/1`
keeps of a stream error; `caseClause` is the exception an empty chunk raises. -/
inductive HandshakeError where
  | closed
  | stream (category : Category) (operation : OperationName)
  | caseClause
  | unauthorized
  | invalidNodeName
  | malformedPreface
  | emsgsize
  | peer (error : PeerError)
  deriving DecidableEq, Repr

/-- `safe_reason/1` on an error struct. -/
def safeReason (e : Error) : HandshakeError := .stream e.category e.operation

/-- `recv_exact/3`, with the chunks read so far in reverse.  A receive never
returns more than it is asked for, so the subtraction is exact. -/
def recvExact (session : Session) (remaining : ℕ) (chunks : List Binary) (w : Wire) :
    Except HandshakeError Binary × Wire :=
  if _h : remaining = 0 then (.ok chunks.reverse.flatten, w)
  else match w.recv remaining session.streamTimeout with
    | (.data data, w') =>
        if _hdata : 0 < data.length then
          recvExact session (remaining - data.length) (data :: chunks) w'
        else (.error .caseClause, w')
    | (.eof, w') => (.error .closed, w')
    | (.error e, w') => (.error (safeReason e), w')
termination_by remaining
decreasing_by omega

/-- Receiving writes nothing. -/
theorem recv_written {w w' : Wire} {maxBytes timeout : ℕ} {result : RecvResult}
    (h : w.recv maxBytes timeout = (result, w')) : w'.written = w.written := by
  have hw : (w.recv maxBytes timeout).2.written = w.written := by
    unfold Wire.recv
    split
    · split
      · dsimp only
        split
        · rfl
        · split <;> rfl
      · rfl
    · rfl
  rwa [h] at hw

theorem recvExact_written (session : Session) (remaining : ℕ) (chunks : List Binary) (w : Wire) :
    (recvExact session remaining chunks w).2.written = w.written := by
  fun_induction recvExact session remaining chunks w with
  | case1 => rfl
  | case2 remaining chunks w _ data w' hrecv _ ih => exact ih.trans (recv_written hrecv)
  | case3 remaining chunks w _ data w' hrecv => exact recv_written hrecv
  | case4 remaining chunks w _ w' hrecv => exact recv_written hrecv
  | case5 remaining chunks w _ e w' hrecv => exact recv_written hrecv

/-! ### What was read -/

/-- Data comes off the front of the unread bytes. -/
theorem recv_data {w w' : Wire} {maxBytes timeout : ℕ} {data : Binary}
    (h : w.recv maxBytes timeout = (.data data, w')) :
    data.length ≤ maxBytes ∧ w.unread = data ++ w'.unread := by
  unfold Wire.recv at h
  split at h
  · split at h
    · dsimp only at h
      split at h
      · cases h
      · split at h
        · cases h
        · obtain ⟨hdata, rfl⟩ := Prod.mk.inj h
          obtain rfl := RecvResult.data.inj hdata
          refine ⟨?_, (List.take_append_drop _ _).symm⟩
          rw [List.length_take]
          omega
    · cases h
  · cases h

/-- What `recv_exact` returns it has taken off the stream, and it is all that
was asked for. -/
theorem recvExact_ok {session : Session} {remaining : ℕ} {chunks : List Binary} {w w' : Wire}
    {b : Binary} (h : recvExact session remaining chunks w = (.ok b, w')) :
    ∃ read, read.length = remaining ∧ b = chunks.reverse.flatten ++ read ∧
      w.unread = read ++ w'.unread := by
  fun_induction recvExact session remaining chunks w with
  | case1 chunks w =>
      obtain ⟨hb, rfl⟩ := Prod.mk.inj h
      exact ⟨[], rfl, by rw [List.append_nil]; exact (Except.ok.inj hb).symm, rfl⟩
  | case2 remaining chunks w hpos data w₁ hrecv hdata ih =>
      obtain ⟨hle, hun⟩ := recv_data hrecv
      obtain ⟨read, hlen, hb, hun₁⟩ := ih h
      refine ⟨data ++ read, ?_, ?_, ?_⟩
      · rw [List.length_append, hlen, Nat.add_sub_cancel' hle]
      · simpa using hb
      · rw [hun, hun₁, List.append_assoc]
  | case3 => cases (Prod.mk.inj h).1
  | case4 => cases (Prod.mk.inj h).1
  | case5 => cases (Prod.mk.inj h).1

/-! ### Every chunking -/

/-- Every receive returns at least one byte or the end of the stream. -/
def Wire.Flows (w : Wire) : Prop := ∀ i, ∃ n, 0 < n ∧ w.replies i = .bytes n

/-- `w'` is `w` after `n` bytes have been read, and nothing else has happened. -/
structure Wire.Advances (n : ℕ) (w w' : Wire) : Prop where
  unread : w'.unread = w.unread.drop n
  written : w'.written = w.written
  outcomes : w'.outcomes = w.outcomes
  flows : w'.Flows

theorem Wire.Advances.refl {w : Wire} (h : w.Flows) : w.Advances 0 w :=
  ⟨rfl, rfl, rfl, h⟩

theorem Wire.Advances.trans {n m : ℕ} {w w' w'' : Wire} (h : w.Advances n w')
    (h' : w'.Advances m w'') : w.Advances (n + m) w'' where
  unread := by rw [h'.unread, h.unread, List.drop_drop]
  written := h'.written.trans h.written
  outcomes := h'.outcomes.trans h.outcomes
  flows := h'.flows

/-- A receive on a stream with bytes left takes between one and `maxBytes` of
them. -/
theorem recv_flows {w : Wire} (hw : w.Flows) (hne : w.unread ≠ []) {maxBytes timeout : ℕ}
    (hmax : 1 ≤ maxBytes ∧ maxBytes ≤ 16 * 1024 * 1024) (ht : 0 < timeout) :
    ∃ k w', w.recv maxBytes timeout = (.data (w.unread.take k), w') ∧
      1 ≤ k ∧ k ≤ maxBytes ∧ w.Advances k w' := by
  obtain ⟨n, hn, hreply⟩ := hw 0
  refine ⟨min n maxBytes,
    { w with unread := w.unread.drop (min n maxBytes), replies := fun i => w.replies (i + 1) },
    ?_, ?_, min_le_right _ _, ?_⟩
  · simp only [Wire.recv, if_pos hmax, if_pos ht, hreply, if_neg hne]
  · exact le_min hn hmax.1
  · exact ⟨rfl, rfl, rfl, fun i => hw (i + 1)⟩

/-- A receive at the end of the stream says so. -/
theorem recv_eof {w : Wire} (hw : w.Flows) (hnil : w.unread = []) {maxBytes timeout : ℕ}
    (hmax : 1 ≤ maxBytes ∧ maxBytes ≤ 16 * 1024 * 1024) (ht : 0 < timeout) :
    ∃ w', w.recv maxBytes timeout = (.eof, w') := by
  obtain ⟨n, -, hreply⟩ := hw 0
  refine ⟨{ w with replies := fun i => w.replies (i + 1) }, ?_⟩
  simp only [Wire.recv, if_pos hmax, if_pos ht, hreply, if_pos hnil]

/-- One round of the loop: some bytes are moved from the wire to the chunks. -/
theorem recvExact_round {session : Session} (hs : 0 < session.streamTimeout) {w : Wire}
    (hw : w.Flows) (hne : w.unread ≠ []) {remaining : ℕ} (hpos : 0 < remaining)
    (hmax : remaining ≤ 16 * 1024 * 1024) (chunks : List Binary) :
    ∃ data w', 0 < data.length ∧ data.length ≤ remaining ∧
      data = w.unread.take data.length ∧ w.Advances data.length w' ∧
      recvExact session remaining chunks w =
        recvExact session (remaining - data.length) (data :: chunks) w' := by
  obtain ⟨k, w', hrecv, hk, hkmax, hadv⟩ := recv_flows hw hne ⟨hpos, hmax⟩ hs
  have hdata : 0 < (w.unread.take k).length := by
    have hlen := List.length_pos_iff.mpr hne
    rw [List.length_take]
    omega
  refine ⟨w.unread.take k, w', hdata, ?_, ?_, ?_, ?_⟩
  · rw [List.length_take]
    omega
  · rw [List.length_take, List.take_eq_take_min]
  · refine ⟨?_, hadv.written, hadv.outcomes, hadv.flows⟩
    rw [hadv.unread, List.length_take, List.drop_eq_drop_min]
  · conv_lhs => rw [recvExact]
    rw [dif_neg (by omega), hrecv]
    simp only [dif_pos hdata]

/-- **`recv_exact` reads exactly the bytes it is asked for**, whatever the
chunking. -/
theorem recvExact_eq {session : Session} (hs : 0 < session.streamTimeout) {w : Wire}
    (hw : w.Flows) (remaining : ℕ) (hlen : remaining ≤ w.unread.length)
    (hmax : remaining ≤ 16 * 1024 * 1024) (chunks : List Binary) :
    ∃ w', recvExact session remaining chunks w =
        (.ok (chunks.reverse.flatten ++ w.unread.take remaining), w') ∧
      w.Advances remaining w' := by
  -- each round takes at least one byte, so the induction is on what remains
  induction remaining using Nat.strong_induction_on generalizing w chunks with
  | _ remaining ih =>
      rcases Nat.eq_zero_or_pos remaining with rfl | hpos
      · refine ⟨w, ?_, .refl hw⟩
        rw [recvExact, dif_pos rfl, List.take_zero, List.append_nil]
      · have hne : w.unread ≠ [] := by
          intro hnil
          rw [hnil, List.length_nil] at hlen
          omega
        obtain ⟨data, w₁, hdpos, hdle, hdata, hadv, hround⟩ :=
          recvExact_round hs hw hne hpos hmax chunks
        have hlen₁ : remaining - data.length ≤ w₁.unread.length := by
          rw [hadv.unread, List.length_drop]
          omega
        obtain ⟨w', hrec, hadv'⟩ :=
          ih (remaining - data.length) (by omega) hadv.flows hlen₁ (by omega) (data :: chunks)
        have hsplit : data ++ w₁.unread.take (remaining - data.length) =
            w.unread.take remaining := by
          rw [hadv.unread]
          nth_rewrite 1 [hdata]
          rw [← List.take_add, Nat.add_sub_cancel' hdle]
        refine ⟨w', ?_, ?_⟩
        · rw [hround, hrec, List.reverse_cons, List.flatten_append, List.append_assoc,
            ← hsplit]
          simp
        · have htrans := hadv.trans hadv'
          rwa [Nat.add_sub_cancel' hdle] at htrans

/-- **A stream that ends early is `closed`**, never a shortened result. -/
theorem recvExact_closed {session : Session} (hs : 0 < session.streamTimeout) {w : Wire}
    (hw : w.Flows) (remaining : ℕ) (hlen : w.unread.length < remaining)
    (hmax : remaining ≤ 16 * 1024 * 1024) (chunks : List Binary) :
    ∃ w', recvExact session remaining chunks w = (.error .closed, w') := by
  induction remaining using Nat.strong_induction_on generalizing w chunks with
  | _ remaining ih =>
      by_cases hnil : w.unread = []
      · -- bytes are still wanted and none is left
        obtain ⟨w', heof⟩ := recv_eof hw hnil ⟨by omega, hmax⟩ hs
        refine ⟨w', ?_⟩
        rw [recvExact, dif_neg (by omega), heof]
      · obtain ⟨data, w₁, hdpos, hdle, hdata, hadv, hround⟩ :=
          recvExact_round hs hw hnil (by omega) hmax chunks
        have hunread : data.length ≤ w.unread.length := by
          have htake := congrArg List.length hdata
          rw [List.length_take] at htake
          omega
        rw [hround]
        refine ih (remaining - data.length) (by omega) hadv.flows ?_ (by omega) _
        rw [hadv.unread, List.length_drop]
        omega

end IrohBeam
