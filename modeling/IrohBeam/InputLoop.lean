/-
IrohBeam/InputLoop.lean

The input process of a link as a whole run: `input_loop/5` of
`src/iroh_dist_controller.erl` over everything `IO.recv/3` returns to it.

A chunk is parsed before any of its packets is handed on, and the packets of a
chunk that is refused are lost with it: they are in the accumulator of
`parser_feed/4` when the length is found too large.  So what reaches
`dist_ctrl_put_data/2` before a framing error are the frames complete in the
chunks before the one that completes the bad header (`inputLoop_spec`), and
all frames are delivered exactly when the stream was cut between the end of the
last frame and the end of that header (`delivered_before_error_iff`).

`inputLoop_run` connects the loop to the input process of
`IrohBeam/LinkSystem.lean`, which takes its packets one step at a time.
-/
import IrohBeam.LinkSystem

namespace IrohBeam

open Transition Bytes

/-! ### The loop -/

/-- What `IO.recv/3` returns. -/
inductive Reading where
  | data (data : Binary)
  | eof
  | failed (error : Error)

/-- What `safe_reason/1` of the controller keeps of an error. -/
structure SafeReason where
  category : Category
  operation : OperationName
  deriving DecidableEq, Repr

/-- `safe_reason/1`. -/
def Error.safeReason (e : Error) : SafeReason := ⟨e.category, e.operation⟩

/-- Why the input process exits. -/
inductive InputExit where
  | frameTooLarge (length : ℕ)
  | closed
  | failed (reason : SafeReason)
  deriving DecidableEq, Repr

/-- What the loop has done: the packets handed to `dist_ctrl_put_data/2`, the
bytes and packets of each `update_link`, and its exit, if it has come to it. -/
structure InputRun where
  handed : List (List Binary)
  reports : List (ℕ × ℕ)
  exit : Option InputExit
  deriving DecidableEq, Repr

/-- The packets of one chunk are handed on and reported, then the loop goes on. -/
def InputRun.after (packets : List (List Binary)) (r : InputRun) : InputRun :=
  ⟨packets ++ r.handed, (totalSize packets, packets.length) :: r.reports, r.exit⟩

/-- `input_loop/5`; an empty list leaves it in its next `recv`. -/
def inputLoop (maxFrame : ℕ) : Parser → List Reading → InputRun
  | _, [] => ⟨[], [], none⟩
  | parser, .data data :: rest =>
      match parserFeed parser data maxFrame with
      | .ok (packets, parser') => (inputLoop maxFrame parser' rest).after packets
      | .error (.frameTooLarge length) => ⟨[], [], some (.frameTooLarge length)⟩
  | _, .eof :: _ => ⟨[], [], some .closed⟩
  | _, .failed e :: _ => ⟨[], [], some (.failed e.safeReason)⟩

/-- The loop on the chunks of a stream. -/
def inputChunks (maxFrame : ℕ) (p : Parser) (chunks : List Binary) : InputRun :=
  inputLoop maxFrame p (chunks.map .data)

theorem inputChunks_cons_ok {maxFrame : ℕ} {p p' : Parser} {data : Binary}
    {packets : List (List Binary)} (h : parserFeed p data maxFrame = .ok (packets, p'))
    (rest : List Binary) :
    inputChunks maxFrame p (data :: rest) = (inputChunks maxFrame p' rest).after packets := by
  simp only [inputChunks, List.map_cons, inputLoop, h]

theorem inputChunks_cons_error {maxFrame : ℕ} {p : Parser} {data : Binary} {length : ℕ}
    (h : parserFeed p data maxFrame = .error (.frameTooLarge length)) (rest : List Binary) :
    inputChunks maxFrame p (data :: rest) = ⟨[], [], some (.frameTooLarge length)⟩ := by
  simp only [inputChunks, List.map_cons, inputLoop, h]

/-! ### What is handed on -/

/-- The loop ends in the chunk `data`: up to there it has handed on the frames
complete in the chunks before. -/
structure EndsIn (maxFrame : ℕ) (held : Binary) (pre : List Binary) (data : Binary)
    (r : InputRun) (length : ℕ) : Prop where
  pending : ∃ rest, greedyFour maxFrame (held ++ pre.flatten) =
    ⟨r.handed.map List.flatten, .pending rest⟩
  tooLarge : (greedyFour maxFrame (held ++ pre.flatten ++ data)).stop = .tooLarge length
  exit : r.exit = some (.frameTooLarge length)

/-- **Spec of the loop**: on any chunks it hands on the frames complete in all
of them, or in those before the chunk it exits in. -/
theorem inputLoop_spec {maxFrame : ℕ} {p : Parser} (hp : p.Valid maxFrame) (hs : p.Settled)
    (chunks : List Binary) :
    (∃ rest, (inputChunks maxFrame p chunks).exit = none ∧
      greedyFour maxFrame (p.held ++ chunks.flatten) =
        ⟨(inputChunks maxFrame p chunks).handed.map List.flatten, .pending rest⟩) ∨
      ∃ pre data post length, chunks = pre ++ data :: post ∧
        EndsIn maxFrame p.held pre data (inputChunks maxFrame p chunks) length := by
  induction chunks generalizing p with
  | nil =>
      left
      refine ⟨p.held, rfl, ?_⟩
      rw [List.flatten_nil, List.append_nil, greedyFour_held hp hs]
      rfl
  | cons data rest ih =>
      have hfeed := parserFeed_spec hp data
      rcases hr : parserFeed p data maxFrame with ⟨⟨length⟩⟩ | ⟨packets, p'⟩
      · -- the loop ends in the first chunk
        right
        rw [hr] at hfeed
        refine ⟨[], data, rest, length, rfl, ?_⟩
        rw [inputChunks_cons_error hr]
        refine ⟨⟨p.held, ?_⟩, ?_, rfl⟩
        · rw [List.flatten_nil, List.append_nil, greedyFour_held hp hs]
          rfl
        · rw [List.flatten_nil, List.append_nil]
          exact hfeed
      · rw [hr] at hfeed
        obtain ⟨hpackets, hstop, hp', hs'⟩ := hfeed
        have hdata : greedyFour maxFrame (p.held ++ data) =
            ⟨packets.map List.flatten, .pending p'.held⟩ := by
          rw [← hstop, hpackets]
        -- decoding goes on from what the parser keeps
        have hgo : ∀ b : Binary, greedyFour maxFrame (p.held ++ data ++ b) =
            (greedyFour maxFrame (p'.held ++ b)).prepend (packets.map List.flatten) :=
          fun b => Frame.greedy_append_of_pending b hdata
        rw [inputChunks_cons_ok hr]
        rcases ih hp' hs' with ⟨left, hexit, hrest⟩ | ⟨pre, d, post, length, rfl, hends⟩
        · left
          refine ⟨left, hexit, ?_⟩
          rw [List.flatten_cons, ← List.append_assoc, hgo, hrest]
          simp [Frame.Decoded.prepend, InputRun.after]
        · right
          obtain ⟨⟨left, hpending⟩, hlarge, hexit⟩ := hends
          refine ⟨data :: pre, d, post, length, rfl, ⟨left, ?_⟩, ?_, hexit⟩
          · rw [List.flatten_cons, ← List.append_assoc, hgo, hpending]
            simp [Frame.Decoded.prepend, InputRun.after]
          · rw [List.flatten_cons, ← List.append_assoc, List.append_assoc, hgo,
              Frame.prepend_stop, ← List.append_assoc]
            exact hlarge

/-! ### The loop in the link system -/

/-- The steps the input process takes on these chunks: a `recv`, a `put` for
each packet and the report, chunk after chunk. -/
def inputActions (maxFrame : ℕ) : Parser → List Binary → List InputAction
  | _, [] => []
  | parser, data :: rest =>
      match parserFeed parser data maxFrame with
      | .ok (packets, parser') =>
          .recv data :: (packets.map (fun _ => .put) ++
            .report :: inputActions maxFrame parser' rest)
      | .error _ => [.recv data]

/-- Handing on what is left of a batch. -/
theorem run_puts (p : LinkNames) (parser : Parser) (as : List InputAction)
    (todo : List (List Binary)) (s : LinkRun) (done : List (List Binary)) :
    run (inputStep p) { s with input := .putting parser done todo }
        (todo.map (fun _ => .put) ++ as) =
      run (inputStep p)
        { s with input := .putting parser (done ++ todo) [], handed := s.handed ++ todo } as := by
  induction todo generalizing s done with
  | nil => simp
  | cons packet todo ih =>
      have hput : inputStep p { s with input := .putting parser done (packet :: todo) } .put =
          some { s with
            input := .putting parser (done ++ [packet]) todo
            handed := s.handed ++ [packet] } := rfl
      rw [List.map_cons, List.cons_append, run_cons_of_step _ hput]
      have hrest := ih { s with handed := s.handed ++ [packet] } (done ++ [packet])
      rw [hrest]
      simp

/-- **The loop is a run of the input process**: it takes these steps, hands on
the same packets, sends one report a chunk, and is back in `recv` or has ended
as the loop has. -/
theorem inputLoop_run (p : LinkNames) (chunks : List Binary) (s : LinkRun) (parser : Parser) :
    ∃ s', run (inputStep p) { s with input := .receiving parser }
        (inputActions p.session.maxFrame parser chunks) = some s' ∧
      s'.handed = s.handed ++ (inputChunks p.session.maxFrame parser chunks).handed ∧
      s'.fromInput = s.fromInput ++
        ((inputChunks p.session.maxFrame parser chunks).reports.map fun r =>
          .updateLink p.node p.owner .received r.1 r.2) ∧
      ((inputChunks p.session.maxFrame parser chunks).exit = none →
        ∃ parser', s'.input = .receiving parser') ∧
      ((inputChunks p.session.maxFrame parser chunks).exit ≠ none → s'.input = .ended) := by
  induction chunks generalizing s parser with
  | nil => exact ⟨_, rfl, by simp [inputChunks, inputLoop], by simp [inputChunks, inputLoop],
      fun _ => ⟨parser, rfl⟩, fun h => absurd rfl h⟩
  | cons data rest ih =>
      rcases hr : parserFeed parser data p.session.maxFrame with ⟨⟨length⟩⟩ | ⟨packets, parser'⟩
      · have hrecv : inputStep p { s with input := .receiving parser } (.recv data) =
            some ({ s with input := .receiving parser } : LinkRun).endInput := by
          simp only [inputStep, hr]
        rw [inputActions, hr, inputChunks_cons_error hr]
        refine ⟨_, run_cons_of_step _ hrecv, ?_, ?_, ?_, fun _ => rfl⟩
        · exact (List.append_nil _).symm
        · exact (List.append_nil _).symm
        · intro hexit
          cases hexit
      · have hrecv : inputStep p { s with input := .receiving parser } (.recv data) =
            some { s with input := .putting parser' [] packets } := by
          simp only [inputStep, hr]
        have hreport : inputStep p
            { s with input := .putting parser' packets [], handed := s.handed ++ packets } .report =
            some { s with
              input := .receiving parser'
              handed := s.handed ++ packets
              fromInput := s.fromInput ++ [p.report packets] } := rfl
        rw [inputActions, hr, inputChunks_cons_ok hr]
        obtain ⟨s', hrun, hhanded, hreports, hnone, hsome⟩ := ih
          { s with
            handed := s.handed ++ packets
            fromInput := s.fromInput ++ [p.report packets] } parser'
        refine ⟨s', ?_, ?_, ?_, hnone, hsome⟩
        · simp only
          rw [run_cons_of_step _ hrecv, run_puts, List.nil_append, run_cons_of_step _ hreport]
          exact hrun
        · rw [hhanded, List.append_assoc]
          rfl
        · rw [hreports, List.append_assoc]
          rfl

/-! ### Before a framing error -/

/-- Complete frames within the limit, followed by a header that announces more
than the limit. -/
structure BadStream (maxFrame : ℕ) where
  payloads : List Binary
  length : ℕ
  fits : ∀ p ∈ payloads, p.length ≤ maxFrame ∧ p.length < 256 ^ 4
  large : maxFrame < length
  field : length < 256 ^ 4

/-- The bytes of the frames. -/
def BadStream.frames {maxFrame : ℕ} (b : BadStream maxFrame) : Binary :=
  Frame.encodeAll 4 b.payloads

/-- All its bytes. -/
def BadStream.bytes {maxFrame : ℕ} (b : BadStream maxFrame) : Binary :=
  b.frames ++ be 4 b.length

/-- The loop hands on every packet, in order, before it exits with the length. -/
def BadStream.DeliversAll {maxFrame : ℕ} (b : BadStream maxFrame) (chunks : List Binary) : Prop :=
  (inputChunks maxFrame parserNew chunks).handed.map List.flatten = b.payloads ∧
    (inputChunks maxFrame parserNew chunks).exit = some (.frameTooLarge b.length)

/-- A chunk ends at or after the end of the frames and before the end of the
header; the start of the stream counts as such a place. -/
def BadStream.CutAtHeader {maxFrame : ℕ} (b : BadStream maxFrame) (chunks : List Binary) : Prop :=
  ∃ n ≤ chunks.length, b.frames.length ≤ (chunks.take n).flatten.length ∧
    (chunks.take n).flatten.length < b.frames.length + 4

instance {maxFrame : ℕ} (b : BadStream maxFrame) (chunks : List Binary) :
    Decidable (b.CutAtHeader chunks) :=
  inferInstanceAs (Decidable (∃ n ≤ chunks.length, _ ∧ _))

section BadStream

variable {maxFrame : ℕ} (b : BadStream maxFrame)

/-- The frames in front decode to the payloads, whatever follows. -/
theorem BadStream.greedy_frames (c : Binary) :
    greedyFour maxFrame (b.frames ++ c) = (greedyFour maxFrame c).prepend b.payloads :=
  Frame.greedy_encodeAll_append (by decide) b.fits c

theorem BadStream.greedy_header :
    greedyFour maxFrame (be 4 b.length) = ⟨[], .tooLarge b.length⟩ := by
  have hfield : ofBe ((be 4 b.length).take 4) = b.length := by
    rw [List.take_of_length_le (by simp), ofBe_be_of_lt b.field]
  have h : greedyFour maxFrame (be 4 b.length) =
      ⟨[], .tooLarge (ofBe ((be 4 b.length).take 4))⟩ :=
    Frame.greedy_tooLarge (by simp) (by rw [hfield]; exact b.large)
  rwa [hfield] at h

theorem BadStream.greedy_bytes :
    greedyFour maxFrame b.bytes = ⟨b.payloads, .tooLarge b.length⟩ := by
  rw [BadStream.bytes, b.greedy_frames, b.greedy_header]
  simp [Frame.Decoded.prepend]

/-- A prefix of the stream that contains the frames decodes to the payloads, as
long as decoding does not stop in it. -/
theorem BadStream.packets_of_isPrefix {x rest : Binary} {ps : List Binary} (hx : x <+: b.bytes)
    (hframes : b.frames.length ≤ x.length) (hd : greedyFour maxFrame x = ⟨ps, .pending rest⟩) :
    ps = b.payloads ∧ x.length < b.frames.length + 4 := by
  have hin : b.frames <+: x :=
    List.prefix_of_prefix_length_le (List.prefix_append _ _) hx hframes
  obtain ⟨y, rfl⟩ := hin
  have hy : y <+: be 4 b.length := (List.prefix_append_right_inj _).mp hx
  have hshort : y.length < 4 := by
    by_contra hlong
    -- the whole header is there, so decoding stops at it
    have hall : y = be 4 b.length := hy.eq_of_length (by
      have hle := hy.length_le
      rw [length_be] at hle ⊢
      omega)
    rw [b.greedy_frames, hall, b.greedy_header] at hd
    cases hd
  rw [b.greedy_frames, greedyFour, Frame.greedy_short hshort] at hd
  have hps := congrArg Frame.Decoded.packets hd
  rw [Frame.prepend_packets, List.append_nil] at hps
  exact ⟨hps.symm, by rw [List.length_append]; omega⟩

/-- Decoding stops at the header, and not before all of the stream is there. -/
theorem BadStream.stop_of_isPrefix {x : Binary} {ps : List Binary} {length : ℕ}
    (hx : x <+: b.bytes) (hd : greedyFour maxFrame x = ⟨ps, .tooLarge length⟩) :
    length = b.length ∧ b.frames.length + 4 ≤ x.length := by
  obtain ⟨more, hmore⟩ := hx
  have hbytes := b.greedy_bytes
  rw [← hmore, greedyFour, Frame.greedy_append_of_tooLarge _ hd] at hbytes
  obtain ⟨rfl, hstop⟩ := Frame.Decoded.mk.inj hbytes
  obtain ⟨rest, hsplit, -, hleaves⟩ := greedyFour_reads maxFrame x
  rw [hd] at hsplit hleaves
  refine ⟨Frame.Stop.tooLarge.inj hstop, ?_⟩
  rw [hsplit, List.length_append]
  exact Nat.add_le_add_left hleaves.1 _

/-- **All frames are delivered exactly if the stream is cut at the header.** -/
theorem BadStream.deliversAll_iff {chunks : List Binary} (hc : chunks.flatten = b.bytes) :
    b.DeliversAll chunks ↔ b.CutAtHeader chunks := by
  rcases inputLoop_spec (parserNew_valid maxFrame) trivial chunks with
    ⟨rest, -, hall⟩ | ⟨pre, data, post, length, rfl, ⟨rest, hpending⟩, hlarge, hexit⟩
  · -- the stream ends with a header that is too large, so decoding stops
    rw [held_parserNew, List.nil_append, hc, b.greedy_bytes] at hall
    exact absurd (Frame.Decoded.mk.inj hall).2 (by simp)
  · rw [held_parserNew, List.nil_append] at hpending hlarge
    have hpre : pre.flatten <+: b.bytes := by
      rw [← hc, List.flatten_append]
      exact List.prefix_append _ _
    have hdata : pre.flatten ++ data <+: b.bytes := by
      rw [← hc, List.flatten_append, List.flatten_cons, ← List.append_assoc]
      exact List.prefix_append _ _
    have hstop : greedyFour maxFrame (pre.flatten ++ data) =
        ⟨(greedyFour maxFrame (pre.flatten ++ data)).packets, .tooLarge length⟩ := by
      rw [← hlarge]
    obtain ⟨hlength, hwhole⟩ := b.stop_of_isPrefix hdata hstop
    constructor
    · rintro ⟨hhanded, -⟩
      rw [hhanded] at hpending
      -- the chunks before the last one hold the frames of the payloads
      have hframes : b.frames.length ≤ pre.flatten.length := by
        obtain ⟨left, hsplit, -, -⟩ := greedyFour_reads maxFrame pre.flatten
        rw [hpending] at hsplit
        rw [hsplit, List.length_append]
        exact Nat.le_add_right _ _
      refine ⟨pre.length, by simp, ?_⟩
      rw [List.take_left]
      exact ⟨hframes, (b.packets_of_isPrefix hpre hframes hpending).2⟩
    · rintro ⟨n, -, hframes, hbefore⟩
      refine ⟨?_, hlength ▸ hexit⟩
      have hle : n ≤ pre.length := by
        by_contra hgt
        -- the chunk the loop exits in would be among the first `n`
        obtain ⟨k, rfl⟩ := Nat.exists_eq_add_of_lt (Nat.not_le.mp hgt)
        rw [Nat.add_assoc, List.take_length_add_append, List.take_succ_cons, List.flatten_append,
          List.flatten_cons, ← List.append_assoc, List.length_append] at hbefore
        omega
      rw [List.take_append_of_le_length hle] at hframes
      have hpart : (pre.take n).flatten.length ≤ pre.flatten.length := by
        conv_rhs => rw [← List.take_append_drop n pre, List.flatten_append, List.length_append]
        exact Nat.le_add_right _ _
      exact (b.packets_of_isPrefix hpre (hframes.trans hpart) hpending).1

end BadStream

/-- **Delivery before a framing error.**  Two ways of cutting the same stream
both deliver every packet exactly if both cut it at the header. -/
theorem delivered_before_error_iff {maxFrame : ℕ} (b : BadStream maxFrame)
    {chunks chunks' : List Binary} (hc : chunks.flatten = b.bytes)
    (hc' : chunks'.flatten = b.bytes) :
    (b.DeliversAll chunks ∧ b.DeliversAll chunks') ↔
      (b.CutAtHeader chunks ∧ b.CutAtHeader chunks') := by
  rw [b.deliversAll_iff hc, b.deliversAll_iff hc']

/-- A frame with one byte, and a header that announces nine with a limit of eight. -/
def sampleBad : BadStream 8 where
  payloads := [[7]]
  length := 9
  fits := by decide
  large := by decide
  field := by decide

/-- Cut right after the frame and inside the header, the stream delivers it. -/
theorem delivered_before_error_sample :
    sampleBad.DeliversAll [[0, 0, 0, 1, 7], [0, 0, 0, 9]] ∧
      sampleBad.DeliversAll [[0, 0], [0, 1, 7, 0, 0], [0, 9]] :=
  (delivered_before_error_iff sampleBad (by decide) (by decide)).mpr (by decide)

/-- The same bytes in one chunk: the loop exits and the frame is lost. -/
theorem frame_lost_in_one_chunk :
    [[0, 0, 0, 1, 7, 0, 0, 0, 9]].flatten = sampleBad.bytes ∧
      inputChunks 8 parserNew [[0, 0, 0, 1, 7, 0, 0, 0, 9]] =
        ⟨[], [], some (.frameTooLarge 9)⟩ ∧
      ¬ (sampleBad.DeliversAll [[0, 0, 0, 1, 7], [0, 0, 0, 9]] ∧
        sampleBad.DeliversAll [[0, 0, 0, 1, 7, 0, 0, 0, 9]]) := by
  have hone : ofBe [0, 0, 0, 1] = 1 := by decide
  have hnine : ofBe [0, 0, 0, 9] = 9 := by decide
  refine ⟨by decide, ?_, ?_⟩
  · apply inputChunks_cons_error
    simp [parserFeed, parserFeedLoop, parserNew, consChunk, hone, hnine]
  · rintro ⟨-, hlost⟩
    have hcut := (sampleBad.deliversAll_iff (by decide)).mp hlost
    exact absurd hcut (by decide)

end IrohBeam
