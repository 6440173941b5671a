/-
IrohBeam/PacketFour.lean

The packet-four decoder of the distribution controller:
`parser_new/0` and `parser_feed/3` of `src/iroh_dist_controller.erl`.

The parser keeps either the bytes of an incomplete header or the announced
length with the body chunks received so far, newest first.  Two facts about
its states are carried by the constructors, since the source computes with
them unchecked: an incomplete header is shorter than four bytes (`Need` is
positive), and never more body is kept than was announced (`Remaining` is
not negative).

The specification is `Frame.greedy` with four-byte length fields.
`parserFeed_spec` says that one feed decodes the bytes the parser holds back
followed by the new data, and `feedChunks_spec` extends it to any way of
cutting a byte string into chunks; `parser_decodes_greedily` spells out what
this says of the verdict, the packets and the final state.
-/
import IrohBeam.Frame

namespace IrohBeam

open Bytes

/-! ### The parser -/

/-- `{header, Header}` or `{body, Length, Chunks, Size}`. -/
inductive Parser where
  | header (bytes : Binary) (incomplete : bytes.length < 4)
  | body (length : ℕ) (chunks : List Binary) (size : ℕ) (within : size ≤ length)

/-- `{error, {frame_too_large, Length}}`. -/
inductive ParserError where
  | frameTooLarge (length : ℕ)
  deriving DecidableEq, Repr

/-- `parser_new/0`. -/
def parserNew : Parser := .header [] (by decide)

/-- Prepend a chunk unless it is empty. -/
def consChunk (data : Binary) (chunks : List Binary) : List Binary :=
  match data with
  | [] => chunks
  | _ => data :: chunks

/-- `parser_feed/4`: the packets decoded so far are accumulated newest first. -/
def parserFeedLoop (maxFrame : ℕ) :
    Parser → Binary → List (List Binary) → Except ParserError (List (List Binary) × Parser)
  | .header header incomplete, data, packets =>
      let need := 4 - header.length
      if h : data.length < need then
        .ok (packets.reverse, .header (header ++ data) (by rw [List.length_append]; omega))
      else
        let length := ofBe (header ++ data.take need)
        if length ≤ maxFrame then
          parserFeedLoop maxFrame (.body length [] 0 (Nat.zero_le _)) (data.drop need) packets
        else
          .error (.frameTooLarge length)
  | .body length chunks size within, data, packets =>
      let remaining := length - size
      if h : data.length < remaining then
        .ok (packets.reverse,
          .body length (consChunk data chunks) (size + data.length) (by omega))
      else
        let packet := (consChunk (data.take remaining) chunks).reverse
        parserFeedLoop maxFrame parserNew (data.drop remaining) (packet :: packets)
termination_by p data => 2 * data.length + match p with | .header .. => 0 | .body .. => 1
decreasing_by
  all_goals simp only [List.length_drop, parserNew]; omega

/-- `parser_feed/3`. -/
def parserFeed (p : Parser) (data : Binary) (maxFrame : ℕ) :
    Except ParserError (List (List Binary) × Parser) :=
  parserFeedLoop maxFrame p data []

/-- Fold `parser_feed` over the chunks a stream delivers, collecting the
packets in order. -/
def feedChunks (maxFrame : ℕ) :
    Parser → List Binary → Except ParserError (List (List Binary) × Parser)
  | p, [] => .ok ([], p)
  | p, data :: rest =>
      match parserFeed p data maxFrame with
      | .error e => .error e
      | .ok (packets, p') =>
          match feedChunks maxFrame p' rest with
          | .error e => .error e
          | .ok (packets', p'') => .ok (packets ++ packets', p'')

/-! ### What a parser state holds back -/

/-- The bytes of the incomplete frame a parser has consumed. -/
def Parser.held : Parser → Binary
  | .header bytes _ => bytes
  | .body length chunks _ _ => be 4 length ++ chunks.reverse.flatten

/-- The states that occur between two packets and inside one: the body's
size field counts its chunks, no chunk is empty, and the announced length is
one a header can carry and the limit admits. -/
def Parser.Valid (maxFrame : ℕ) : Parser → Prop
  | .header _ _ => True
  | .body length chunks size _ =>
      size = (chunks.map List.length).sum ∧ length ≤ maxFrame ∧ length < 256 ^ 4 ∧ [] ∉ chunks

/-- The states a feed returns: a complete body is never kept. -/
def Parser.Settled : Parser → Prop
  | .header _ _ => True
  | .body length _ size _ => size < length

theorem parserNew_valid (maxFrame : ℕ) : parserNew.Valid maxFrame := trivial

@[simp] theorem held_parserNew : parserNew.held = [] := rfl

@[simp] theorem flatten_reverse_consChunk (data : Binary) (chunks : List Binary) :
    (consChunk data chunks).reverse.flatten = chunks.reverse.flatten ++ data := by
  cases data <;> simp [consChunk]

@[simp] theorem sum_consChunk (data : Binary) (chunks : List Binary) :
    ((consChunk data chunks).map List.length).sum =
      data.length + (chunks.map List.length).sum := by
  cases data <;> simp [consChunk]

theorem nil_not_mem_consChunk {chunks : List Binary} (h : [] ∉ chunks) (data : Binary) :
    [] ∉ consChunk data chunks := by
  cases data with
  | nil => exact h
  | cons x data => simp [consChunk, h]

theorem length_flatten_reverse (chunks : List Binary) :
    chunks.reverse.flatten.length = (chunks.map List.length).sum := by
  rw [List.length_flatten, List.map_reverse, List.sum_reverse]

/-! ### The parser decodes greedily -/

/-- Greedy decoding with four-byte length fields. -/
def greedyFour (maxFrame : ℕ) (b : Binary) : Frame.Decoded :=
  Frame.greedy 4 (by decide) maxFrame b

theorem greedyFour_reads (maxFrame : ℕ) (b : Binary) :
    (greedyFour maxFrame b).Reads 4 maxFrame b :=
  Frame.greedy_reads b

/-- A feed's result agrees with a decoding: the same verdict, the same
packets once flattened, and the pending rest held back. -/
def Agrees (maxFrame : ℕ) (d : Frame.Decoded) :
    Except ParserError (List (List Binary) × Parser) → Prop
  | .error (.frameTooLarge length) => d.stop = .tooLarge length
  | .ok (packets, p) =>
      packets.map List.flatten = d.packets ∧ d.stop = .pending p.held ∧
        p.Valid maxFrame ∧ p.Settled

/-- The header bytes of a body state carry its length. -/
theorem ofBe_take_held {length : ℕ} (hfit : length < 256 ^ 4) (chunks : List Binary)
    (size : ℕ) (within : size ≤ length) (data : Binary) :
    ofBe (((Parser.body length chunks size within).held ++ data).take 4) = length := by
  rw [Parser.held, List.append_assoc, List.take_append_of_le_length (by simp),
    List.take_of_length_le (by simp), ofBe_be_of_lt hfit]

/-- An incomplete body stays pending. -/
theorem greedyFour_body_short {maxFrame length size : ℕ} {chunks : List Binary}
    {within : size ≤ length} (hp : (Parser.body length chunks size within).Valid maxFrame)
    {data : Binary} (h : data.length < length - size) :
    greedyFour maxFrame ((Parser.body length chunks size within).held ++ data) =
      ⟨[], .pending ((Parser.body length chunks size within).held ++ data)⟩ := by
  obtain ⟨hsize, hmax, hfit, -⟩ := hp
  have hlen := ofBe_take_held hfit chunks size within data
  apply Frame.greedy_cut
  · simp [Parser.held]
  · rwa [hlen]
  · rw [hlen]
    simp only [Parser.held, List.length_append, length_be, length_flatten_reverse, ← hsize]
    omega

/-- A completed body is one packet, followed by whatever is left. -/
theorem greedyFour_body_full {maxFrame length size : ℕ} {chunks : List Binary}
    {within : size ≤ length} (hp : (Parser.body length chunks size within).Valid maxFrame)
    {data : Binary} (h : length - size ≤ data.length) :
    greedyFour maxFrame ((Parser.body length chunks size within).held ++ data) =
      (greedyFour maxFrame (data.drop (length - size))).prepend
        [chunks.reverse.flatten ++ data.take (length - size)] := by
  obtain ⟨hsize, hmax, hfit, -⟩ := hp
  have hlen : (chunks.reverse.flatten ++ data.take (length - size)).length = length := by
    rw [List.length_append, length_flatten_reverse, ← hsize, List.length_take]
    omega
  have hsplit : (Parser.body length chunks size within).held ++ data =
      Frame.encode 4 (chunks.reverse.flatten ++ data.take (length - size)) ++
        data.drop (length - size) := by
    rw [Frame.encode, hlen, Parser.held]
    simp only [List.append_assoc, List.take_append_drop]
  rw [hsplit]
  exact Frame.greedy_encode_append (hlen.trans_le hmax) (hlen.trans_lt hfit) _

theorem parserFeedLoop_spec (maxFrame : ℕ) (p : Parser) (data : Binary)
    (packets : List (List Binary)) (hp : p.Valid maxFrame) :
    Agrees maxFrame
      ((greedyFour maxFrame (p.held ++ data)).prepend (packets.reverse.map List.flatten))
      (parserFeedLoop maxFrame p data packets) := by
  fun_induction parserFeedLoop maxFrame p data packets with
  | case1 header incomplete data packets need h =>
      -- the header stays incomplete
      have hshort : (header ++ data).length < 4 := by rw [List.length_append]; omega
      rw [greedyFour, Parser.held, Frame.greedy_short hshort]
      exact ⟨by simp, rfl, trivial, trivial⟩
  | case2 header incomplete data packets need h length hle ih =>
      -- the header is complete: its bytes are those of the body state's length
      have hfour : (header ++ data.take need).length = 4 := by
        rw [List.length_append, List.length_take]; omega
      have hfit : length < 256 ^ 4 := hfour ▸ ofBe_lt (header ++ data.take need)
      have hheld : (Parser.body length [] 0 (Nat.zero_le _)).held ++ data.drop need =
          header ++ data := by
        have hbe : be 4 length = header ++ data.take need := by
          rw [← hfour]; exact be_ofBe _
        simp [Parser.held, hbe]
      rw [hheld] at ih
      exact ih ⟨rfl, hle, hfit, by simp⟩
  | case3 header incomplete data packets need h length hgt =>
      -- the announced length is too large
      have hfour : (header ++ data).take 4 = header ++ data.take need := by
        rw [List.take_append, List.take_of_length_le incomplete.le]
      have hlarge : maxFrame < ofBe ((header ++ data).take 4) := by
        rw [hfour]; exact Nat.not_le.mp hgt
      have hlong : 4 ≤ (header ++ data).length := by rw [List.length_append]; omega
      rw [greedyFour, Parser.held, Frame.greedy_tooLarge hlong hlarge, hfour]
      exact rfl
  | case4 length chunks size within data packets remaining h =>
      obtain ⟨hsize, hmax, hfit, hne⟩ := hp
      rw [greedyFour_body_short ⟨hsize, hmax, hfit, hne⟩ h]
      refine ⟨by simp, ?_, ⟨?_, hmax, hfit, nil_not_mem_consChunk hne data⟩, ?_⟩
      · simp [Parser.held]
      · rw [sum_consChunk, hsize, Nat.add_comm]
      · show size + data.length < length
        omega
  | case5 length chunks size within data packets remaining h packet ih =>
      rw [greedyFour_body_full hp (Nat.not_lt.mp h), Frame.prepend_prepend]
      have hpacket : packet.flatten = chunks.reverse.flatten ++ data.take remaining :=
        flatten_reverse_consChunk _ _
      simpa [hpacket] using ih trivial

/-- **One feed** decodes the bytes held back followed by the new data. -/
theorem parserFeed_spec {maxFrame : ℕ} {p : Parser} (hp : p.Valid maxFrame) (data : Binary) :
    Agrees maxFrame (greedyFour maxFrame (p.held ++ data)) (parserFeed p data maxFrame) := by
  have h := parserFeedLoop_spec maxFrame p data [] hp
  rwa [List.reverse_nil, List.map_nil, Frame.prepend_nil] at h

/-- Between feeds, what is held back is no complete frame. -/
theorem greedyFour_held {maxFrame : ℕ} {p : Parser} (hp : p.Valid maxFrame) (hs : p.Settled) :
    greedyFour maxFrame p.held = ⟨[], .pending p.held⟩ := by
  cases p with
  | header bytes incomplete => exact Frame.greedy_short incomplete
  | body length chunks size within =>
      have h := greedyFour_body_short hp (show ([] : Binary).length < length - size from
        Nat.sub_pos_of_lt hs)
      rwa [List.append_nil] at h

/-- Putting the packets of an earlier feed in front keeps the agreement. -/
theorem Agrees.prepend {maxFrame : ℕ} {d : Frame.Decoded}
    {packets : List (List Binary)} {p : Parser} (h : Agrees maxFrame d (.ok (packets, p)))
    (earlier : List (List Binary)) :
    Agrees maxFrame (d.prepend (earlier.map List.flatten)) (.ok (earlier ++ packets, p)) := by
  obtain ⟨hpackets, hstop, hrest⟩ := h
  exact ⟨by rw [List.map_append, hpackets]; rfl, hstop, hrest⟩

/-- **Any chunking** of a byte string decodes as the byte string does. -/
theorem feedChunks_spec {maxFrame : ℕ} {p : Parser} (hp : p.Valid maxFrame) (hs : p.Settled)
    (chunks : List Binary) :
    Agrees maxFrame (greedyFour maxFrame (p.held ++ chunks.flatten))
      (feedChunks maxFrame p chunks) := by
  induction chunks generalizing p with
  | nil =>
      rw [List.flatten_nil, List.append_nil, greedyFour_held hp hs]
      exact ⟨rfl, rfl, hp, hs⟩
  | cons data rest ih =>
      have hfeed := parserFeed_spec hp data
      rw [List.flatten_cons, ← List.append_assoc, feedChunks]
      rcases hd : greedyFour maxFrame (p.held ++ data) with ⟨ps, stop⟩
      rw [hd] at hfeed
      rcases hr : parserFeed p data maxFrame with ⟨⟨length⟩⟩ | ⟨packets, p'⟩
      · -- too large: no later byte changes the verdict
        rw [hr] at hfeed
        obtain rfl : stop = .tooLarge length := hfeed
        rw [greedyFour, Frame.greedy_append_of_tooLarge _ hd]
        exact rfl
      · rw [hr] at hfeed
        obtain ⟨rfl, rfl, hp', hs'⟩ := hfeed
        have hnext := ih hp' hs'
        rw [greedyFour, Frame.greedy_append_of_pending _ hd]
        rcases hrest : feedChunks maxFrame p' rest with ⟨⟨length⟩⟩ | ⟨packets', p''⟩
        · rw [hrest] at hnext
          simp only [hrest]
          exact hnext
        · rw [hrest] at hnext
          simp only [hrest]
          exact hnext.prepend packets

/-! ### The final state -/

/-- A parser keeps `tail`: the bytes of an incomplete header, or the announced
length with the part of the body received so far. -/
def Parser.Keeps (tail : Binary) : Parser → Prop
  | .header bytes _ => bytes = tail
  | .body length chunks size _ =>
      tail = be 4 length ++ chunks.reverse.flatten ∧ size = chunks.reverse.flatten.length ∧
        size < length ∧ length < 256 ^ 4

/-- Two states that differ at most in how the body received so far is cut. -/
def Parser.Regroups : Parser → Parser → Prop
  | .header bytes _, .header bytes' _ => bytes = bytes'
  | .body length chunks size _, .body length' chunks' size' _ =>
      length = length' ∧ size = size' ∧ chunks.reverse.flatten = chunks'.reverse.flatten
  | _, _ => False

/-- Two folds with the same verdict, the same packets and the same final state,
up to how iodata is cut. -/
def SameFeed : Except ParserError (List (List Binary) × Parser) →
    Except ParserError (List (List Binary) × Parser) → Prop
  | .error e, .error e' => e = e'
  | .ok (packets, p), .ok (packets', p') =>
      packets.map List.flatten = packets'.map List.flatten ∧ p.Regroups p'
  | _, _ => False

theorem keeps_held {maxFrame : ℕ} {p : Parser} (hp : p.Valid maxFrame) (hs : p.Settled) :
    p.Keeps p.held := by
  cases p with
  | header bytes incomplete => rfl
  | body length chunks size within =>
      obtain ⟨hsize, -, hfit, -⟩ := hp
      exact ⟨rfl, by rw [length_flatten_reverse, hsize], hs, hfit⟩

theorem keeps_unique {p : Parser} {tail tail' : Binary} (h : p.Keeps tail)
    (h' : p.Keeps tail') : tail = tail' := by
  cases p with
  | header bytes incomplete => exact h.symm.trans h'
  | body length chunks size within => exact h.1.trans h'.1.symm

/-- The kept bytes determine the state: a header is shorter than four bytes, and
a body starts with the four bytes of its length. -/
theorem regroups_of_keeps {tail : Binary} {p p' : Parser} (h : p.Keeps tail)
    (h' : p'.Keeps tail) : p.Regroups p' := by
  cases p with
  | header bytes incomplete =>
      obtain rfl : bytes = tail := h
      cases p' with
      | header bytes' incomplete' => exact h'.symm
      | body length chunks size within =>
          have hlen := congrArg List.length h'.1
          rw [List.length_append, length_be] at hlen
          omega
  | body length chunks size within =>
      obtain ⟨rfl, hsize, -, hfit⟩ := h
      cases p' with
      | header bytes incomplete =>
          have hlen := congrArg List.length h'
          rw [List.length_append, length_be] at hlen
          omega
      | body length' chunks' size' within' =>
          obtain ⟨htail, hsize', -, hfit'⟩ := h'
          obtain ⟨hfield, hbody⟩ := List.append_inj htail (by simp)
          have hlength : length = length' := by
            rw [← ofBe_be_of_lt hfit, hfield, ofBe_be_of_lt hfit']
          exact ⟨hlength, by rw [hsize, hsize', hbody], hbody⟩

/-- Folds that agree with one decoding are the same. -/
theorem Agrees.same {maxFrame : ℕ} {d : Frame.Decoded}
    {r r' : Except ParserError (List (List Binary) × Parser)} (h : Agrees maxFrame d r)
    (h' : Agrees maxFrame d r') : SameFeed r r' := by
  rcases r with ⟨⟨length⟩⟩ | ⟨packets, p⟩ <;> rcases r' with ⟨⟨length'⟩⟩ | ⟨packets', p'⟩
  · have hstop : Frame.Stop.tooLarge length = .tooLarge length' := h.symm.trans h'
    cases hstop
    rfl
  · cases h.symm.trans h'.2.1
  · cases h.2.1.symm.trans h'
  · obtain ⟨hpackets, hstop, hp, hs⟩ := h
    obtain ⟨hpackets', hstop', hp', hs'⟩ := h'
    have hheld : p'.held = p.held := by
      rw [hstop] at hstop'
      exact (Frame.Stop.pending.inj hstop').symm
    refine ⟨hpackets.trans hpackets'.symm, regroups_of_keeps (keeps_held hp hs) ?_⟩
    rw [← hheld]
    exact keeps_held hp' hs'

/-- **The parser meets its specification on every chunking.**  The fold is
refused with a length exactly when the greedy decoding of the bytes stops at
that length; otherwise it returns the complete frames and keeps the unconsumed
tail; and another chunking of the same bytes makes no difference. -/
theorem parser_decodes_greedily (maxFrame : ℕ) (chunks : List Binary) :
    (greedyFour maxFrame chunks.flatten).Reads 4 maxFrame chunks.flatten ∧
      (∀ length, feedChunks maxFrame parserNew chunks = .error (.frameTooLarge length) ↔
        (greedyFour maxFrame chunks.flatten).stop = .tooLarge length) ∧
      (∀ tail, (greedyFour maxFrame chunks.flatten).stop = .pending tail ↔
        ∃ packets p, feedChunks maxFrame parserNew chunks = .ok (packets, p) ∧
          packets.map List.flatten = (greedyFour maxFrame chunks.flatten).packets ∧
          p.Keeps tail) ∧
      ∀ chunks' : List Binary, chunks'.flatten = chunks.flatten →
        SameFeed (feedChunks maxFrame parserNew chunks) (feedChunks maxFrame parserNew chunks') := by
  have hspec : ∀ chunks : List Binary, Agrees maxFrame (greedyFour maxFrame chunks.flatten)
      (feedChunks maxFrame parserNew chunks) := by
    intro chunks
    have h := feedChunks_spec (parserNew_valid maxFrame) trivial chunks
    rwa [held_parserNew, List.nil_append] at h
  have hfold := hspec chunks
  refine ⟨greedyFour_reads _ _, ?_, ?_, ?_⟩
  · intro length
    rcases hr : feedChunks maxFrame parserNew chunks with ⟨⟨length'⟩⟩ | ⟨packets, p⟩
    · rw [hr] at hfold
      rw [show (greedyFour maxFrame chunks.flatten).stop = .tooLarge length' from hfold]
      simp
    · rw [hr] at hfold
      rw [hfold.2.1]
      simp
  · intro tail
    rcases hr : feedChunks maxFrame parserNew chunks with ⟨⟨length⟩⟩ | ⟨packets, p⟩
    · rw [hr] at hfold
      rw [show (greedyFour maxFrame chunks.flatten).stop = .tooLarge length from hfold]
      simp
    · rw [hr] at hfold
      obtain ⟨hpackets, hstop, hp, hs⟩ := hfold
      rw [hstop]
      constructor
      · intro htail
        obtain rfl := Frame.Stop.pending.inj htail
        exact ⟨packets, p, rfl, hpackets, keeps_held hp hs⟩
      · rintro ⟨packets', p', hok, -, hkeeps⟩
        cases hok
        rw [keeps_unique (keeps_held hp hs) hkeeps]
  · intro chunks' hsame
    have hfold' := hspec chunks'
    rw [hsame] at hfold'
    exact hfold.same hfold'

/-! ### Encoded payloads -/

/-- From a new parser, any chunking of a prefix of encoded payloads yields a
prefix of the payloads. -/
theorem feedChunks_prefix {maxFrame : ℕ} {payloads : List Binary}
    (hfit : ∀ p ∈ payloads, p.length ≤ maxFrame ∧ p.length < 256 ^ 4) {chunks : List Binary}
    (hpre : chunks.flatten <+: Frame.encodeAll 4 payloads) :
    ∃ packets p, feedChunks maxFrame parserNew chunks = .ok (packets, p) ∧
      packets.map List.flatten <+: payloads := by
  have hspec := feedChunks_spec (parserNew_valid maxFrame) trivial chunks
  rw [held_parserNew, List.nil_append] at hspec
  obtain ⟨qs, rest, hq, hqs⟩ := Frame.greedy_of_prefix (by decide : 0 < 4) hfit hpre
  rw [greedyFour, hq] at hspec
  rcases hr : feedChunks maxFrame parserNew chunks with ⟨⟨length⟩⟩ | ⟨packets, p⟩
  · rw [hr] at hspec
    cases hspec
  · rw [hr] at hspec
    obtain ⟨rfl, -, -, -⟩ := hspec
    exact ⟨packets, p, rfl, hqs⟩

/-- Payloads whose encoding has arrived whole have been decoded. -/
theorem feedChunks_complete {maxFrame : ℕ} {payloads : List Binary}
    (hfit : ∀ p ∈ payloads, p.length ≤ maxFrame ∧ p.length < 256 ^ 4) {chunks : List Binary}
    (hpre : Frame.encodeAll 4 payloads <+: chunks.flatten) {packets : List (List Binary)}
    {p : Parser} (h : feedChunks maxFrame parserNew chunks = .ok (packets, p)) :
    payloads <+: packets.map List.flatten := by
  have hspec := feedChunks_spec (parserNew_valid maxFrame) trivial chunks
  rw [held_parserNew, List.nil_append, h] at hspec
  obtain ⟨hpackets, -, -, -⟩ := hspec
  obtain ⟨rest, hrest⟩ := hpre
  rw [hpackets, ← hrest, greedyFour, Frame.greedy_encodeAll_append (by decide) hfit]
  exact List.prefix_append _ _

end IrohBeam
