/-
IrohBeam/ParserBounds.lean

What the packet-four decoder of `src/iroh_dist_controller.erl` retains:
`parser_new/0` and `parser_feed/3` once more, one call of `parser_feed/4` at a
time and without the facts that the states of `IrohBeam/PacketFour.lean` carry.

Here a parser is any tuple of the two shapes, `Need` and `Remaining` are
integers, and a binary match that does not fit ends in `badmatch`.  That they
are never negative and every match fits is the invariant `Feed.Inv`, of which
`parserFeedCall_inv` is the step lemma.  `call_parserFeedLoop` connects the two
models: the calls end, and with what `parserFeedLoop` returns.
-/
import IrohBeam.PacketFour
import IrohBeam.Run

namespace IrohBeam

open Bytes Transition

/-! ### Single calls -/

/-- `{header, Header}` or `{body, Length, Chunks, Size}`. -/
inductive ParserTerm where
  | header (bytes : Binary)
  | body (length : ℕ) (chunks : List Binary) (size : ℕ)
  deriving DecidableEq, Repr

/-- `<<Part:Count/binary, Rest/binary>> = Data`. -/
def splitBinary (count : ℤ) (data : Binary) : Option (Binary × Binary) :=
  if 0 ≤ count ∧ count ≤ data.length then
    some (data.take count.toNat, data.drop count.toNat)
  else none

/-- `<<Length:32>> = Bytes`. -/
def matchUint32 (bytes : Binary) : Option ℕ :=
  if bytes.length = 4 then some (ofBe bytes) else none

/-- Where a parser is: between two feeds, with the packets of the last one; at a
call of `parser_feed/4`; or at an end. -/
inductive Feed where
  | ready (packets : List (List Binary)) (p : ParserTerm)
  | call (p : ParserTerm) (data : Binary) (packets : List (List Binary))
  | failed (e : ParserError)
  | badmatch
  deriving DecidableEq, Repr

/-- One call of `parser_feed/4`, up to its result or the next one. -/
def parserFeedCall (maxFrame : ℕ) : ParserTerm → Binary → List (List Binary) → Feed
  | .header header, data, packets =>
      let need : ℤ := 4 - header.length
      if data.length < need then .ready packets.reverse (.header (header ++ data))
      else
        match splitBinary need data with
        | none => .badmatch
        | some (headerPart, rest) =>
            match matchUint32 (header ++ headerPart) with
            | none => .badmatch
            | some length =>
                if length ≤ maxFrame then .call (.body length [] 0) rest packets
                else .failed (.frameTooLarge length)
  | .body length chunks size, data, packets =>
      let remaining : ℤ := length - size
      if data.length < remaining then
        .ready packets.reverse (.body length (consChunk data chunks) (size + data.length))
      else
        match splitBinary remaining data with
        | none => .badmatch
        | some (last, rest) => .call (.header []) rest ((consChunk last chunks).reverse :: packets)

inductive FeedAction where
  | feed (data : Binary)
  | call
  deriving DecidableEq, Repr

/-- `parser_feed/3` on the next chunk, or one call of `parser_feed/4`. -/
def feedStep (maxFrame : ℕ) : Feed → FeedAction → Option Feed
  | .ready _ p, .feed data => some (.call p data [])
  | .call p data packets, .call => some (parserFeedCall maxFrame p data packets)
  | _, _ => none

/-! ### The invariant -/

/-- `Need`, or `Remaining`. -/
def ParserTerm.wanted : ParserTerm → ℤ
  | .header bytes => 4 - bytes.length
  | .body length _ size => length - size

/-- The bytes of an incomplete frame that the parser keeps. -/
def ParserTerm.retained : ParserTerm → ℕ
  | .header bytes => bytes.length
  | .body _ chunks _ => (chunks.map List.length).sum

/-- A parser within a feed: the body may be complete. -/
def ParserTerm.Within (maxFrame : ℕ) : ParserTerm → Prop
  | .header bytes => bytes.length < 4
  | .body length chunks size =>
      length ≤ maxFrame ∧ size = (chunks.map List.length).sum ∧ size ≤ length ∧ [] ∉ chunks

/-- A parser between two feeds. -/
def ParserTerm.Bounded (maxFrame : ℕ) : ParserTerm → Prop
  | .header bytes => bytes.length < 4
  | .body length chunks size =>
      0 < length ∧ length ≤ maxFrame ∧ size = (chunks.map List.length).sum ∧ size < length ∧
        [] ∉ chunks

def Feed.Inv (maxFrame : ℕ) : Feed → Prop
  | .ready _ p => p.Bounded maxFrame
  | .call p _ _ => p.Within maxFrame
  | .failed (.frameTooLarge length) => maxFrame < length
  | .badmatch => False

section Call

variable {maxFrame : ℕ} {p p' : ParserTerm} {data data' : Binary}
  {packets packets' : List (List Binary)}

theorem ParserTerm.Bounded.within (h : p.Bounded maxFrame) : p.Within maxFrame := by
  cases p with
  | header header => exact h
  | body length chunks size =>
      obtain ⟨-, hmax, hsize, hlt, hne⟩ := h
      exact ⟨hmax, hsize, hlt.le, hne⟩

theorem ParserTerm.Bounded.retained_le (h : p.Bounded maxFrame) :
    p.retained ≤ max 3 (maxFrame - 1) := by
  cases p with
  | header header => exact (Nat.le_of_lt_succ h).trans (le_max_left _ _)
  | body length chunks size =>
      obtain ⟨-, hmax, hsize, hlt, -⟩ := h
      rw [ParserTerm.retained, ← hsize]
      omega

theorem ParserTerm.Within.wanted_nonneg (h : p.Within maxFrame) : 0 ≤ p.wanted := by
  cases p with
  | header header =>
      have hlt : header.length < 4 := h
      rw [ParserTerm.wanted]
      omega
  | body length chunks size =>
      obtain ⟨-, -, hle, -⟩ := h
      rw [ParserTerm.wanted]
      omega

/-- A count that is not negative and fits is taken off the front. -/
theorem splitBinary_of_le {count : ℕ} (h : count ≤ data.length) :
    splitBinary count data = some (data.take count, data.drop count) := by
  have hfits : 0 ≤ (count : ℤ) ∧ (count : ℤ) ≤ data.length :=
    ⟨Int.natCast_nonneg count, Int.ofNat_le.mpr h⟩
  rw [splitBinary, if_pos hfits, Int.toNat_natCast]

/-- What a call does with an incomplete header. -/
theorem parserFeedCall_header {header : Binary} (h : header.length < 4) :
    parserFeedCall maxFrame (.header header) data packets =
      if data.length < 4 - header.length then .ready packets.reverse (.header (header ++ data))
      else if ofBe (header ++ data.take (4 - header.length)) ≤ maxFrame then
        .call (.body (ofBe (header ++ data.take (4 - header.length))) [] 0)
          (data.drop (4 - header.length)) packets
      else .failed (.frameTooLarge (ofBe (header ++ data.take (4 - header.length)))) := by
  -- `Need` is not negative, so it compares as a natural number does
  have hneed : (4 : ℤ) - header.length = (4 - header.length : ℕ) := by omega
  simp only [parserFeedCall, hneed, Int.ofNat_lt]
  by_cases hshort : data.length < 4 - header.length
  · rw [if_pos hshort, if_pos hshort]
  · have hfour : (header ++ data.take (4 - header.length)).length = 4 := by
      rw [List.length_append, List.length_take]
      omega
    rw [if_neg hshort, if_neg hshort, splitBinary_of_le (Nat.le_of_not_lt hshort)]
    simp only [matchUint32, if_pos hfour]

/-- What a call does with a body that is not longer than announced. -/
theorem parserFeedCall_body {length size : ℕ} {chunks : List Binary} (h : size ≤ length) :
    parserFeedCall maxFrame (.body length chunks size) data packets =
      if data.length < length - size then
        .ready packets.reverse (.body length (consChunk data chunks) (size + data.length))
      else .call (.header []) (data.drop (length - size))
        ((consChunk (data.take (length - size)) chunks).reverse :: packets) := by
  have hremaining : (length : ℤ) - size = (length - size : ℕ) := by omega
  simp only [parserFeedCall, hremaining, Int.ofNat_lt]
  by_cases hshort : data.length < length - size
  · rw [if_pos hshort, if_pos hshort]
  · rw [if_neg hshort, if_neg hshort, splitBinary_of_le (Nat.le_of_not_lt hshort)]

/-- **Step lemma.**  No match of a call fails, and it keeps the bounds. -/
theorem parserFeedCall_inv (h : p.Within maxFrame) :
    (parserFeedCall maxFrame p data packets).Inv maxFrame := by
  cases p with
  | header header =>
      have hheader : header.length < 4 := h
      rw [parserFeedCall_header hheader]
      split
      · next hshort =>
          show (header ++ data).length < 4
          rw [List.length_append]
          omega
      · split
        · next hmax => exact ⟨hmax, rfl, Nat.zero_le _, by simp⟩
        · next hlarge => exact Nat.lt_of_not_le hlarge
  | body length chunks size =>
      obtain ⟨hmax, hsize, hle, hne⟩ := h
      rw [parserFeedCall_body hle]
      split
      · next hshort =>
          refine ⟨by omega, hmax, ?_, by omega, nil_not_mem_consChunk hne data⟩
          rw [sum_consChunk, hsize, Nat.add_comm]
      · -- the packet is whole and the parser starts anew
        exact Nat.zero_lt_succ 3

/-- **Progress.**  A call that calls again has consumed input or completed a
frame. -/
theorem parserFeedCall_progress (h : p.Within maxFrame)
    (hcall : parserFeedCall maxFrame p data packets = .call p' data' packets') :
    data'.length < data.length ∨ packets'.length = packets.length + 1 := by
  cases p with
  | header header =>
      have hheader : header.length < 4 := h
      rw [parserFeedCall_header hheader] at hcall
      split at hcall
      · cases hcall
      · next hlong =>
          split at hcall
          · cases hcall
            -- an incomplete header lacks at least one byte
            left
            rw [List.length_drop]
            omega
          · cases hcall
  | body length chunks size =>
      rw [parserFeedCall_body h.2.2.1] at hcall
      split at hcall
      · cases hcall
      · cases hcall
        -- a body of no bytes consumes none, but it is a packet
        exact Or.inr rfl

end Call

/-! ### The calls of a feed -/

/-- The tuple of a state. -/
def Parser.term : Parser → ParserTerm
  | .header bytes _ => .header bytes
  | .body length chunks size _ => .body length chunks size

/-- What `parser_feed/3` returns. -/
def Feed.ofResult : Except ParserError (List (List Binary) × Parser) → Feed
  | .error e => .failed e
  | .ok (packets, p) => .ready packets p.term

/-- The most calls a feed takes: two for each byte and one for the parser. -/
def Parser.maxCalls (data : Binary) : Parser → ℕ
  | .header _ _ => 2 * data.length + 1
  | .body _ _ _ _ => 2 * data.length + 2

/-- A call that calls again, and the calls after it. -/
theorem run_call {maxFrame n : ℕ} {p p' : ParserTerm} {data data' : Binary}
    {packets packets' : List (List Binary)} {s : Feed}
    (hcall : parserFeedCall maxFrame p data packets = .call p' data' packets')
    (hrun : run (feedStep maxFrame) (.call p' data' packets') (List.replicate n .call) = some s) :
    run (feedStep maxFrame) (.call p data packets) (List.replicate (n + 1) .call) = some s := by
  have hstep : feedStep maxFrame (.call p data packets) .call = some (.call p' data' packets') :=
    congrArg some hcall
  rw [List.replicate_succ, run_cons_of_step _ hstep, hrun]

/-- **The recursion ends**, with the result of `parserFeedLoop`. -/
theorem call_parserFeedLoop (maxFrame : ℕ) (p : Parser) (data : Binary)
    (packets : List (List Binary)) :
    ∃ n ≤ p.maxCalls data, run (feedStep maxFrame) (.call p.term data packets)
      (List.replicate n .call) = some (.ofResult (parserFeedLoop maxFrame p data packets)) := by
  -- each case is one call; the bound pays for a header and a body with each byte
  fun_induction parserFeedLoop maxFrame p data packets with
  | case1 header incomplete data packets need h =>
      refine ⟨1, Nat.le_add_left _ _, ?_⟩
      show some (parserFeedCall maxFrame (.header header) data packets) = _
      rw [parserFeedCall_header incomplete, if_pos h]
      rfl
  | case2 header incomplete data packets need h length hle ih =>
      obtain ⟨n, hn, hrun⟩ := ih
      refine ⟨n + 1, ?_, run_call ?_ hrun⟩
      · -- at least one byte completes the header
        rw [Parser.maxCalls, List.length_drop] at hn
        rw [Parser.maxCalls]
        omega
      · show parserFeedCall maxFrame (.header header) data packets = _
        rw [parserFeedCall_header incomplete, if_neg h, if_pos hle]
        rfl
  | case3 header incomplete data packets need h length hgt =>
      refine ⟨1, Nat.le_add_left _ _, ?_⟩
      show some (parserFeedCall maxFrame (.header header) data packets) = _
      rw [parserFeedCall_header incomplete, if_neg h, if_neg hgt]
      rfl
  | case4 length chunks size within data packets remaining h =>
      refine ⟨1, by rw [Parser.maxCalls]; omega, ?_⟩
      show some (parserFeedCall maxFrame (.body length chunks size) data packets) = _
      rw [parserFeedCall_body within, if_pos h]
      rfl
  | case5 length chunks size within data packets remaining h packet ih =>
      obtain ⟨n, hn, hrun⟩ := ih
      refine ⟨n + 1, ?_, run_call ?_ hrun⟩
      · rw [parserNew, Parser.maxCalls, List.length_drop] at hn
        rw [Parser.maxCalls]
        omega
      · show parserFeedCall maxFrame (.body length chunks size) data packets = _
        rw [parserFeedCall_body within, if_neg h]
        rfl

/-- A parser within the bounds is a state of `IrohBeam/PacketFour.lean`. -/
theorem ParserTerm.Within.exists_term {maxFrame : ℕ} {p : ParserTerm} (h : p.Within maxFrame) :
    ∃ q : Parser, q.term = p := by
  cases p with
  | header bytes => exact ⟨.header bytes h, rfl⟩
  | body length chunks size => exact ⟨.body length chunks size h.2.2.1, rfl⟩

/-! ### Bounded retention -/

/-- What holds of a parser wherever it is. -/
structure Feed.Safe (maxFrame : ℕ) (s : Feed) : Prop where
  /-- Between two feeds at most three bytes of a header or all but one of a body
  are kept. -/
  bounded : ∀ packets p, s = .ready packets p →
    p.Bounded maxFrame ∧ p.retained ≤ max 3 (maxFrame - 1)
  /-- `Need` and `Remaining` are not negative. -/
  wanted : ∀ p data packets, s = .call p data packets → 0 ≤ p.wanted
  /-- No body is begun of a length above the limit: such a length is refused. -/
  limited : ∀ length chunks size data packets, s = .call (.body length chunks size) data packets →
    length ≤ maxFrame
  refused : ∀ length, s = .failed (.frameTooLarge length) → maxFrame < length
  fits : s ≠ .badmatch
  /-- A call that calls again has consumed input or completed a frame. -/
  progress : ∀ p data packets p' data' packets', s = .call p data packets →
    feedStep maxFrame s .call = some (.call p' data' packets') →
    data'.length < data.length ∨ packets'.length = packets.length + 1
  /-- The calls end, with a result of `parser_feed/3`. -/
  ends : ∀ p data packets, s = .call p data packets → ∃ n ≤ 2 * data.length + 2, ∃ r,
    run (feedStep maxFrame) s (List.replicate n .call) = some (.ofResult r)

theorem Feed.Inv.step {maxFrame : ℕ} {s s' : Feed} {a : FeedAction} (h : s.Inv maxFrame)
    (hstep : feedStep maxFrame s a = some s') : s'.Inv maxFrame := by
  unfold feedStep at hstep
  split at hstep
  · obtain rfl := Option.some.inj hstep
    exact ParserTerm.Bounded.within h
  · obtain rfl := Option.some.inj hstep
    exact parserFeedCall_inv h
  · cases hstep

/-- **Retention is bounded.**  Whatever chunks arrive, from a new parser no
binary match fails, the calls of a feed end, and the bytes that are kept between
two feeds are bounded by the limit on frames. -/
theorem parser_retention_bounded {maxFrame : ℕ} {as : List FeedAction} {s : Feed}
    (h : run (feedStep maxFrame) (.ready [] (.header [])) as = some s) : s.Safe maxFrame := by
  have hinv : s.Inv maxFrame := by
    apply run_invariant (P := Feed.Inv maxFrame) ?_ h
    · exact Nat.zero_lt_succ 3
    · intro t a t' ht hstep
      exact ht.step hstep
  refine ⟨?_, ?_, ?_, ?_, ?_, ?_, ?_⟩
  · rintro packets p rfl
    exact ⟨hinv, ParserTerm.Bounded.retained_le hinv⟩
  · rintro p data packets rfl
    exact ParserTerm.Within.wanted_nonneg hinv
  · rintro length chunks size data packets rfl
    exact hinv.1
  · rintro length rfl
    exact hinv
  · rintro rfl
    exact hinv
  · rintro p data packets p' data' packets' rfl hcall
    exact parserFeedCall_progress hinv (Option.some.inj hcall)
  · rintro p data packets rfl
    -- within the bounds the term is a parser, whose recursion is known to end
    obtain ⟨q, rfl⟩ := ParserTerm.Within.exists_term hinv
    obtain ⟨n, hn, hrun⟩ := call_parserFeedLoop maxFrame q data packets
    refine ⟨n, ?_, _, hrun⟩
    cases q with
    | header bytes incomplete => exact hn.trans (Nat.le_succ _)
    | body length chunks size within => exact hn

/-- Three bytes of a header are kept, and then the first of a body of two. -/
theorem parser_retention_bounded_sample :
    run (feedStep 2) (.ready [] (.header [])) [.feed [0, 0, 0], .call, .feed [2, 7], .call,
        .call] = some (.ready [] (.body 2 [[7]] 1)) ∧
      Feed.Safe 2 (.ready [] (.body 2 [[7]] 1)) := by
  have hrun : run (feedStep 2) (.ready [] (.header [])) [.feed [0, 0, 0], .call, .feed [2, 7],
      .call, .call] = some (.ready [] (.body 2 [[7]] 1)) := by decide
  exact ⟨hrun, parser_retention_bounded hrun⟩

end IrohBeam
