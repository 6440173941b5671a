/-
IrohBeam/Controller.lean

The data plane of a distribution link.  Sending goes through four layers:

    output_wait / output_data        src/iroh_dist_controller.erl
    send_packet
    IO.send_iodata                   lib/iroh_beam/distribution/io.ex
    stream_send_iodata_start         native/iroh_beam_nif/src/stream.rs

each with its own size check; receiving folds `parser_feed` over whatever
chunks the stream delivers (`IrohBeam/PacketFour.lean`).

The controller is driven by a list of events, each paired with what the
stream does to the frame it causes: accept all of it, or fail after
accepting some prefix.  `controllerRun` collects the bytes that went out,
and `Controller.Inv` says what they are.
-/
import IrohBeam.Stream
import IrohBeam.PacketFour

namespace IrohBeam

open Bytes

/-! ### The native send -/

/-- The size checks of `stream_send_iodata_start`, giving the flat binary. -/
def streamSendIodataStart (iodata : List Binary) (expectedSize maxBytes : ℕ) :
    Except Error Binary :=
  if expectedSize = 0 ∨ maxBytes < expectedSize ∨ maxBytes = 0 ∨ 64 * 1024 * 1024 + 4 < maxBytes then
    .error ⟨.invalidArgument, .streamSend, "iodata size is outside the configured bound"⟩
  else if iodata.flatten.length = expectedSize then .ok iodata.flatten
  else .error ⟨.invalidArgument, .streamSend, "iodata does not match the declared size"⟩

/-- `IO.send_iodata/5`. -/
def sendIodata (iodata : List Binary) (expectedSize maxBytes timeout : ℕ)
    (outcome : WriteOutcome) : Binary × Except Error Unit :=
  if 0 < expectedSize ∧ 0 < maxBytes ∧ 0 < timeout then
    match streamSendIodataStart iodata expectedSize maxBytes with
    | .error e => ([], .error e)
    | .ok data =>
        match startStreamSend data (64 * 1024) outcome with
        | (written, .ok n) =>
            if n = expectedSize then (written, .ok ())
            else (written, .error ⟨.invalidArgument, .streamSend,
              "distribution stream completed with a short write"⟩)
        | (written, .error e) => (written, .error e)
  else ([], .error ⟨.invalidArgument, .streamSend, "distribution iodata limits are invalid"⟩)

/-! ### The controller -/

/-- What `dist_ctrl_get_data/1` returns with `get_size` set. -/
structure Packet where
  length : ℕ
  iovec : List Binary
  size_eq : iovec.flatten.length = length

/-- The controller's events: a packet pulled after `dist_data`, or a tick. -/
inductive ControllerEvent where
  | data (packet : Packet)
  | tick

/-- The payload an event puts on the wire; a tick is the empty packet. -/
def ControllerEvent.payload : ControllerEvent → Binary
  | .data packet => packet.iovec.flatten
  | .tick => []

/-- `output_data/5` sends a packet within the frame limit only. -/
def ControllerEvent.Fits (maxFrame : ℕ) : ControllerEvent → Prop
  | .data packet => packet.length ≤ maxFrame
  | .tick => True

/-- Why the output loop ended. -/
inductive ControllerExit where
  | badmatch (error : Error)
  | frameTooLarge (length : ℕ)

/-- The output side of a controller: the bytes handed to the stream, the
payloads sent, the payload whose send failed, and the exit reason. -/
structure Controller where
  written : Binary
  sent : List Binary
  failed : Option Binary
  exit : Option ControllerExit

def Controller.start : Controller := ⟨[], [], none, none⟩

/-- The payloads handed to `send_packet`, in order. -/
def Controller.attempted (s : Controller) : List Binary := s.sent ++ s.failed.toList

/-- `send_packet/4`. -/
def sendPacket (session : Session) (length : ℕ) (iovec : List Binary) (outcome : WriteOutcome) :
    Binary × Except Error Unit :=
  sendIodata (be 4 length :: iovec) (length + 4) (session.maxFrame + 4) session.streamTimeout
    outcome

/-- `ok = send_packet(...)`: a result other than `ok` ends the process. -/
def Controller.send (session : Session) (s : Controller) (length : ℕ) (iovec : List Binary)
    (outcome : WriteOutcome) : Controller :=
  match sendPacket session length iovec outcome with
  | (written, .ok ()) =>
      { s with written := s.written ++ written, sent := s.sent ++ [iovec.flatten] }
  | (written, .error e) =>
      { s with
        written := s.written ++ written
        failed := some iovec.flatten
        exit := some (.badmatch e) }

/-- One event of `output_wait/5` and `output_data/5`. -/
def controllerStep (session : Session) (s : Controller) (e : ControllerEvent × WriteOutcome) :
    Controller :=
  match s.exit with
  | some _ => s
  | none =>
      match e.1 with
      | .tick => s.send session 0 [] e.2
      | .data packet =>
          if packet.length ≤ session.maxFrame then s.send session packet.length packet.iovec e.2
          else { s with exit := some (.frameTooLarge packet.length) }

/-- The output loop over a sequence of events. -/
def controllerRun (session : Session) (events : List (ControllerEvent × WriteOutcome)) :
    Controller :=
  events.foldl (controllerStep session) .start

theorem controllerRun_concat (session : Session) (events : List (ControllerEvent × WriteOutcome))
    (e : ControllerEvent × WriteOutcome) :
    controllerRun session (events ++ [e]) = controllerStep session (controllerRun session events) e :=
  List.foldl_concat ..

/-! ### The size checks agree -/

/-- A session whose limits are those of an accepted configuration. -/
def Session.Sound (session : Session) : Prop :=
  0 < session.streamTimeout ∧ session.maxFrame ≤ 64 * 1024 * 1024

theorem Config.WithinLimits.session {c : Config} (h : c.WithinLimits) (connection stream : ℕ)
    (remoteId : EndpointId) : (c.session connection stream remoteId).Sound :=
  ⟨h.streamTimeout, h.maxFrame.2⟩

/-- The NIF accepts the frame of every packet within the limit. -/
theorem streamSendIodataStart_frame {maxFrame length : ℕ} {iovec : List Binary}
    (hmax : maxFrame ≤ 64 * 1024 * 1024) (hlen : length ≤ maxFrame)
    (hsize : iovec.flatten.length = length) :
    streamSendIodataStart (be 4 length :: iovec) (length + 4) (maxFrame + 4) =
      .ok (Frame.encode 4 iovec.flatten) := by
  have hflat : (be 4 length :: iovec).flatten = Frame.encode 4 iovec.flatten := by
    rw [List.flatten_cons, Frame.encode, hsize]
  have hflatlen : (be 4 length :: iovec).flatten.length = length + 4 := by
    rw [hflat, Frame.length_encode, hsize, Nat.add_comm]
  rw [streamSendIodataStart, if_neg (by omega), if_pos hflatlen, hflat]

/-- The four-byte header of a packet within the limit does not truncate. -/
theorem header_exact {maxFrame length : ℕ} (hmax : maxFrame ≤ 64 * 1024 * 1024)
    (hlen : length ≤ maxFrame) : ofBe (be 4 length) = length :=
  ofBe_be_of_lt (by omega)

/-- **Spec of `send_packet`** on a packet within the limit: the frame goes
out whole and the result is `ok`, or a prefix of it goes out and the result
is an error. -/
theorem sendPacket_eq {session : Session} (hs : session.Sound) {length : ℕ} {iovec : List Binary}
    (hlen : length ≤ session.maxFrame) (hsize : iovec.flatten.length = length)
    (outcome : WriteOutcome) :
    sendPacket session length iovec outcome =
      match outcome with
      | .complete => (Frame.encode 4 iovec.flatten, .ok ())
      | .failed accepted e => ((Frame.encode 4 iovec.flatten).take accepted, .error e) := by
  have hne : Frame.encode 4 iovec.flatten ≠ [] := by
    intro h
    have hlen0 := congrArg List.length h
    rw [Frame.length_encode] at hlen0
    simp at hlen0
  rw [sendPacket, sendIodata, if_pos ⟨by omega, by omega, hs.1⟩,
    streamSendIodataStart_frame hs.2 hlen hsize]
  cases outcome with
  | complete => simp [startStreamSend, hne, hsize, Nat.add_comm]
  | failed accepted e => simp [startStreamSend, hne]

/-! ### What has been written -/

/-- The bytes written are the frames of the payloads sent, followed by a
prefix of the frame whose send failed; before the loop ends there is none. -/
structure Controller.Inv (session : Session) (s : Controller) : Prop where
  fits : ∀ p ∈ s.attempted, p.length ≤ session.maxFrame
  written : ∃ part, s.written = Frame.encodeAll 4 s.sent ++ part ∧
    part <+: Frame.encodeAll 4 s.failed.toList
  running : s.exit = none → s.failed = none

theorem Controller.start_inv (session : Session) : Controller.start.Inv session where
  fits := by simp [Controller.attempted, Controller.start]
  written := ⟨[], rfl, List.prefix_rfl⟩
  running := fun _ => rfl

/-- Nothing is left over while the loop is running. -/
theorem Controller.Inv.written_eq {session : Session} {s : Controller} (h : s.Inv session)
    (hfailed : s.failed = none) : s.written = Frame.encodeAll 4 s.sent := by
  obtain ⟨part, hw, hpart⟩ := h.written
  rw [hfailed] at hpart
  rw [hw, List.prefix_nil.mp hpart, List.append_nil]

theorem Controller.Inv.written_prefix {session : Session} {s : Controller} (h : s.Inv session) :
    s.written <+: Frame.encodeAll 4 s.attempted := by
  obtain ⟨part, hw, hpart⟩ := h.written
  rw [hw, Controller.attempted, Frame.encodeAll_append]
  exact (List.prefix_append_right_inj _).mpr hpart

/-- A send keeps the invariant. -/
theorem Controller.Inv.send {session : Session} (hs : session.Sound) {s : Controller}
    (h : s.Inv session) (hrun : s.exit = none) {length : ℕ} {iovec : List Binary}
    (hlen : length ≤ session.maxFrame) (hsize : iovec.flatten.length = length)
    (outcome : WriteOutcome) : (s.send session length iovec outcome).Inv session := by
  have hfailed := h.running hrun
  have hfits : ∀ p ∈ s.sent ++ [iovec.flatten], p.length ≤ session.maxFrame := by
    intro p hp
    rcases List.mem_append.mp hp with hp | hp
    · exact h.fits p (List.mem_append_left _ hp)
    · rw [List.mem_singleton.mp hp, hsize]
      exact hlen
  cases outcome with
  | complete =>
      simp only [Controller.send, sendPacket_eq hs hlen hsize]
      refine ⟨?_, ⟨[], ?_, List.nil_prefix⟩, fun _ => hfailed⟩
      · simpa [Controller.attempted, hfailed] using hfits
      · simp [h.written_eq hfailed]
  | failed accepted e =>
      simp only [Controller.send, sendPacket_eq hs hlen hsize]
      refine ⟨?_, ⟨(Frame.encode 4 iovec.flatten).take accepted, ?_, ?_⟩, ?_⟩
      · simpa [Controller.attempted] using hfits
      · rw [h.written_eq hfailed]
      · simpa using List.take_prefix _ _
      · intro hexit
        cases hexit

/-- One event keeps the invariant. -/
theorem controllerStep_inv {session : Session} (hs : session.Sound) {s : Controller}
    (h : s.Inv session) (e : ControllerEvent × WriteOutcome) :
    (controllerStep session s e).Inv session := by
  unfold controllerStep
  cases hexit : s.exit with
  | some reason => exact h
  | none =>
      cases e.1 with
      | tick => exact h.send hs hexit (Nat.zero_le _) rfl e.2
      | data packet =>
          by_cases hlen : packet.length ≤ session.maxFrame
          · simp only [if_pos hlen]
            exact h.send hs hexit hlen packet.size_eq e.2
          · simp only [if_neg hlen]
            exact ⟨h.fits, h.written, fun hnone => by cases hnone⟩

theorem controllerFold_inv {session : Session} (hs : session.Sound) {s : Controller}
    (h : s.Inv session) (events : List (ControllerEvent × WriteOutcome)) :
    (events.foldl (controllerStep session) s).Inv session := by
  induction events generalizing s with
  | nil => exact h
  | cons e events ih => exact ih (controllerStep_inv hs h e)

theorem controllerRun_inv {session : Session} (hs : session.Sound)
    (events : List (ControllerEvent × WriteOutcome)) :
    (controllerRun session events).Inv session :=
  controllerFold_inv hs (Controller.start_inv session) events

/-! ### What has been attempted -/

/-- An event hands its payload to `send_packet`, or it ends the loop, or the
loop has already ended; while the loop runs, everything attempted was sent. -/
theorem attempted_send (session : Session) {s : Controller} (hfailed : s.failed = none)
    (length : ℕ) (iovec : List Binary) (outcome : WriteOutcome) :
    (s.send session length iovec outcome).attempted = s.sent ++ [iovec.flatten] ∧
      ((s.send session length iovec outcome).exit = none →
        (s.send session length iovec outcome).sent = s.sent ++ [iovec.flatten]) := by
  rcases h : sendPacket session length iovec outcome with ⟨written, e | u⟩
  · refine ⟨by simp [Controller.send, h, Controller.attempted], ?_⟩
    intro hexit
    simp [Controller.send, h] at hexit
  · simp [Controller.send, h, Controller.attempted, hfailed]

/-- The payloads attempted are the events' payloads up to where the loop ended. -/
theorem controllerRun_attempted {session : Session} (hs : session.Sound)
    (events : List (ControllerEvent × WriteOutcome)) :
    (controllerRun session events).attempted <+: events.map (·.1.payload) ∧
      ((controllerRun session events).exit = none →
        (controllerRun session events).sent = events.map (·.1.payload)) := by
  induction events using List.reverseRecOn with
  | nil => exact ⟨List.prefix_rfl, fun _ => rfl⟩
  | append_singleton events e ih =>
      obtain ⟨hpre, hsent⟩ := ih
      have hinv := controllerRun_inv hs events
      rw [controllerRun_concat, List.map_append, List.map_singleton]
      unfold controllerStep
      cases hexit : (controllerRun session events).exit with
      | some reason =>
          -- the loop has ended: nothing more is attempted
          refine ⟨hpre.trans (List.prefix_append _ _), ?_⟩
          intro hnone
          simp only [hexit] at hnone
          cases hnone
      | none =>
          have hfailed := hinv.running hexit
          cases he : e.1 with
          | tick =>
              obtain ⟨hatt, hok⟩ := attempted_send session hfailed 0 [] e.2
              simp only [hatt, hsent hexit] at hok ⊢
              exact ⟨List.prefix_rfl, hok⟩
          | data packet =>
              by_cases hlen : packet.length ≤ session.maxFrame
              · obtain ⟨hatt, hok⟩ := attempted_send session hfailed
                  packet.length packet.iovec e.2
                simp only [if_pos hlen]
                simp only [hatt, hsent hexit] at hok ⊢
                exact ⟨List.prefix_rfl, hok⟩
              · -- a packet over the limit ends the loop without a send
                simp only [if_neg hlen]
                refine ⟨hpre.trans (List.prefix_append _ _), ?_⟩
                intro hnone
                cases hnone

/-- A send within the limit ends the loop if and only if the stream fails. -/
theorem send_exit {session : Session} (hs : session.Sound) {s : Controller}
    (hrun : s.exit = none) {length : ℕ} {iovec : List Binary} (hlen : length ≤ session.maxFrame)
    (hsize : iovec.flatten.length = length) (outcome : WriteOutcome) :
    (s.send session length iovec outcome).exit = none ↔ outcome = .complete := by
  cases outcome with
  | complete =>
      simp only [Controller.send, sendPacket_eq hs hlen hsize]
      exact iff_of_true hrun trivial
  | failed accepted e =>
      simp only [Controller.send, sendPacket_eq hs hlen hsize]
      exact iff_of_false (fun h => by cases h) (fun h => by cases h)

theorem controllerStep_exit {session : Session} (hs : session.Sound) {s : Controller}
    (hrun : s.exit = none) (e : ControllerEvent × WriteOutcome) :
    (controllerStep session s e).exit = none ↔
      e.1.Fits session.maxFrame ∧ e.2 = .complete := by
  obtain ⟨event, outcome⟩ := e
  unfold controllerStep
  rw [hrun]
  cases event with
  | tick =>
      rw [ControllerEvent.Fits, true_and]
      exact send_exit hs hrun (Nat.zero_le _) rfl outcome
  | data packet =>
      by_cases hlen : packet.length ≤ session.maxFrame
      · simp only [if_pos hlen]
        exact (send_exit hs hrun hlen packet.size_eq outcome).trans
          (and_iff_right hlen).symm
      · simp only [if_neg hlen]
        exact iff_of_false (fun h => by cases h) fun h => hlen h.1

/-- The loop is running if and only if every packet so far was within the limit
and every write has completed. -/
theorem controllerRun_exit {session : Session} (hs : session.Sound)
    (events : List (ControllerEvent × WriteOutcome)) :
    (controllerRun session events).exit = none ↔
      ∀ e ∈ events, e.1.Fits session.maxFrame ∧ e.2 = .complete := by
  induction events using List.reverseRecOn with
  | nil => exact iff_of_true rfl (fun e he => by cases he)
  | append_singleton events e ih =>
      rw [controllerRun_concat, List.forall_mem_append, List.forall_mem_singleton, ← ih]
      cases hexit : (controllerRun session events).exit with
      | some reason =>
          have hended : (controllerStep session (controllerRun session events) e).exit =
              some reason := by
            simp only [controllerStep, hexit]
          rw [hended]
          exact iff_of_false (fun h => by cases h) (fun h => by cases h.1)
      | none =>
          rw [controllerStep_exit hs hexit]
          exact (and_iff_right rfl).symm

/-- Once the loop has ended no event changes anything. -/
theorem controllerRun_append_of_exit {session : Session}
    {pre : List (ControllerEvent × WriteOutcome)}
    (hexit : (controllerRun session pre).exit ≠ none)
    (post : List (ControllerEvent × WriteOutcome)) :
    controllerRun session (pre ++ post) = controllerRun session pre := by
  rw [controllerRun, List.foldl_append]
  change post.foldl (controllerStep session) (controllerRun session pre) = _
  induction post with
  | nil => rfl
  | cons e post ih =>
      have hstep : controllerStep session (controllerRun session pre) e =
          controllerRun session pre := by
        unfold controllerStep
        cases h : (controllerRun session pre).exit with
        | some reason => rfl
        | none => exact absurd h hexit
      rw [List.foldl_cons, hstep, ih]

/-! ### End to end -/

/-- What a peer with frame limit `peerMax` makes of the bytes written, in
whatever chunks they arrive: always a prefix of the payloads attempted, and
once all bytes have arrived the payloads sent, with the payload of a failed
send at most in addition. -/
def Controller.Delivers (peerMax : ℕ) (s : Controller) : Prop :=
  ∀ chunks : List Binary, chunks.flatten <+: s.written →
    ∃ packets p, feedChunks peerMax parserNew chunks = .ok (packets, p) ∧
      packets.map List.flatten <+: s.attempted ∧
      (chunks.flatten = s.written → s.sent <+: packets.map List.flatten ∧
        (s.failed = none → packets.map List.flatten = s.sent))

/-- `send_packet/4` carries a packet, so every size check on its way has let it
through: the result is what the stream makes of the whole frame, and the header
of the frame is the length. -/
structure PassesSizeChecks (session : Session) (packet : Packet) : Prop where
  complete : sendPacket session packet.length packet.iovec .complete =
    (Frame.encode 4 packet.iovec.flatten, .ok ())
  failed : ∀ accepted e, sendPacket session packet.length packet.iovec (.failed accepted e) =
    ((Frame.encode 4 packet.iovec.flatten).take accepted, .error e)
  header : ofBe ((sendPacket session packet.length packet.iovec .complete).1.take 4) =
    packet.length

theorem passesSizeChecks {session : Session} (hs : session.Sound) {packet : Packet}
    (hlen : packet.length ≤ session.maxFrame) : PassesSizeChecks session packet where
  complete := sendPacket_eq hs hlen packet.size_eq .complete
  failed accepted e := sendPacket_eq hs hlen packet.size_eq (.failed accepted e)
  header := by
    rw [sendPacket_eq hs hlen packet.size_eq .complete, Frame.encode, packet.size_eq,
      List.take_left' (length_be 4 packet.length), header_exact hs.2 hlen]

theorem Controller.Inv.delivers {session : Session} (hs : session.Sound) {s : Controller}
    (h : s.Inv session) {peerMax : ℕ} (hpeer : session.maxFrame ≤ peerMax) :
    s.Delivers peerMax := by
  have hfit : ∀ p ∈ s.attempted, p.length ≤ peerMax ∧ p.length < 256 ^ 4 := by
    intro p hp
    have hp' := h.fits p hp
    have hmax := hs.2
    exact ⟨hp'.trans hpeer, by omega⟩
  intro chunks hchunks
  obtain ⟨packets, p, hfeed, hprefix⟩ := feedChunks_prefix hfit (hchunks.trans h.written_prefix)
  refine ⟨packets, p, hfeed, hprefix, ?_⟩
  intro hall
  -- the frames sent are complete in what was written, the failed one may not be
  have hsent : s.sent <+: packets.map List.flatten := by
    refine feedChunks_complete (fun q hq => hfit q (List.mem_append_left _ hq)) ?_ hfeed
    obtain ⟨part, hw, -⟩ := h.written
    rw [hall, hw]
    exact List.prefix_append _ _
  refine ⟨hsent, ?_⟩
  intro hfailed
  rw [Controller.attempted, hfailed, Option.toList_none, List.append_nil] at hprefix
  exact hprefix.eq_of_length (Nat.le_antisymm hprefix.length_le hsent.length_le)

/-- **The data plane, end to end.**  For an accepted configuration and any
events: a peer with at least this frame limit decodes what was sent; the
payloads attempted are those of the events in order; the loop runs as long as
every packet is within the limit and every write completes, and then all of them
have been sent; a packet within the limit passes every size check below; and
once a send has failed no byte of a later frame is written. -/
theorem dataPlane_roundtrip {nif : IdentityNif} {options : Term} {mode : Mode} {c : Config}
    (hc : validate nif options mode = .ok c) (connection stream : ℕ) (remoteId : EndpointId)
    {peerMax : ℕ} (hpeer : c.maxFrame ≤ peerMax)
    (events : List (ControllerEvent × WriteOutcome)) :
    let session := c.session connection stream remoteId
    let run := controllerRun session
    (run events).Delivers peerMax ∧
      (run events).attempted <+: events.map (·.1.payload) ∧
      ((run events).exit = none ↔ ∀ e ∈ events, e.1.Fits c.maxFrame ∧ e.2 = .complete) ∧
      ((run events).exit = none → (run events).sent = events.map (·.1.payload)) ∧
      (∀ packet : Packet, packet.length ≤ c.maxFrame → PassesSizeChecks session packet) ∧
      ∀ pre post, events = pre ++ post → (run pre).exit ≠ none →
        (run events).written = (run pre).written := by
  have hs := (validate_limits hc).session connection stream remoteId
  have hatt := controllerRun_attempted hs events
  refine ⟨(controllerRun_inv hs events).delivers hs hpeer, hatt.1,
    controllerRun_exit hs events, hatt.2, fun packet hlen => passesSizeChecks hs hlen, ?_⟩
  rintro pre post rfl hexit
  rw [controllerRun_append_of_exit hexit post]

def samplePacket : Packet := ⟨2, [[1], [2]], rfl⟩

def failingPacket : Packet := ⟨1, [[3]], rfl⟩

/-- A packet cut in two, then a tick. -/
def sampleEvents : List (ControllerEvent × WriteOutcome) :=
  [(.data samplePacket, .complete), (.tick, .complete)]

/-- The loop runs on, both have been sent, and a peer with the same limit decodes
them; behind a write that fails the tick is not written. -/
theorem dataPlane_roundtrip_sample :
    let run := controllerRun (sampleConfig.session 0 0 samplePeerId)
    validate sampleNif sampleOptions .dynamic = .ok sampleConfig ∧
      (run sampleEvents).exit = none ∧ (run sampleEvents).sent = [[1, 2], []] ∧
      (run sampleEvents).written = [0, 0, 0, 2, 1, 2, 0, 0, 0, 0] ∧
      (run sampleEvents).Delivers sampleConfig.maxFrame ∧
      (run ((.data failingPacket, .failed 5 ⟨.closed, .streamSend, ""⟩) ::
        sampleEvents)).written = [0, 0, 0, 1, 3] := by
  have hfits : ∀ e ∈ sampleEvents, e.1.Fits sampleConfig.maxFrame ∧ e.2 = .complete :=
    List.forall_mem_cons.mpr
      ⟨⟨(by decide : 2 ≤ sampleConfig.maxFrame), rfl⟩, List.forall_mem_singleton.mpr ⟨trivial, rfl⟩⟩
  obtain ⟨hdelivers, -, hexit, hsent, -, -⟩ :=
    dataPlane_roundtrip validate_sample 0 0 samplePeerId le_rfl sampleEvents
  have hruns := hexit.mpr hfits
  exact ⟨validate_sample, hruns, hsent hruns, rfl, hdelivers, rfl⟩

end IrohBeam
