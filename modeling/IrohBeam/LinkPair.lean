/-
IrohBeam/LinkPair.lean

Both ends of a link.  Each node has a controller, an input process and a server
(`IrohBeam/LinkSystem.lean`, with what it sends in `IrohBeam/Sent.lean`), and the
two are joined by a stream in each direction.  All that is asked of the stream is
that what has been read of it is the front of what has been written to it, which
is what `IrohBeam/ByteStream.lean` proves of the native layer.

In every interleaving of the two nodes a link is a first-in, first-out channel of
packets, in both directions (`link_fifo`):

    handed  <+:  sent ++ failed

`failed` is the packet whose send has failed, if there is one: the controller has
left its loop then, and the packet is handed on only if all of its frame is on the
stream.  If the frame limit of the reader is not below that of the sender, its
parser refuses nothing, and once it has read all there is, everything that was sent
has been handed on.
-/
import IrohBeam.Sent

namespace IrohBeam

open Transition Bytes

/-! ### Two nodes -/

/-- One end of a link, with what its input process has read of the stream. -/
structure LinkEnd where
  run : SentRun
  read : Binary

def LinkEnd.start : LinkEnd := ⟨.start, []⟩

/-- What has been handed to `dist_ctrl_put_data/2`. -/
def LinkEnd.handed (e : LinkEnd) : List Binary := e.run.link.handed.map List.flatten

/-- One step of an end; `written` is what the other end has written. -/
def linkEndStep (p : LinkNames) (written : Binary) (e : LinkEnd) : LinkAction → Option LinkEnd
  | .input (.recv data) =>
      if e.read ++ data <+: written then
        (sentStep p e.run (.input (.recv data))).map fun run => ⟨run, e.read ++ data⟩
      else none
  | a => (sentStep p e.run a).map fun run => { e with run }

/-- What a step reads. -/
def LinkAction.reads : LinkAction → Binary
  | .input (.recv data) => data
  | _ => []

theorem linkEndStep_cases {p : LinkNames} {written : Binary} {e e' : LinkEnd} {a : LinkAction}
    (h : linkEndStep p written e a = some e') :
    sentStep p e.run a = some e'.run ∧ e'.read = e.read ++ a.reads ∧
      (e.read <+: written → e'.read <+: written) := by
  have hquiet : ∀ {x : Option SentRun}, (x.map fun run => { e with run }) = some e' →
      x = some e'.run ∧ e'.read = e.read ++ [] ∧ (e.read <+: written → e'.read <+: written) := by
    intro x hx
    obtain ⟨run, rfl, rfl⟩ := Option.map_eq_some_iff.mp hx
    exact ⟨rfl, (List.append_nil _).symm, id⟩
  cases a with
  | input a =>
      cases a with
      | recv data =>
          simp only [linkEndStep] at h
          split at h
          · next hprefix =>
              obtain ⟨run, hrun, rfl⟩ := Option.map_eq_some_iff.mp h
              exact ⟨hrun, rfl, fun _ => hprefix⟩
          · cases h
      | _ => exact hquiet h
  | _ => exact hquiet h

structure LinkPair where
  near : LinkEnd
  far : LinkEnd

inductive PairAction where
  | near (action : LinkAction)
  | far (action : LinkAction)

def LinkPair.start : LinkPair := ⟨.start, .start⟩

/-- One step of either node. -/
def pairStep (p q : LinkNames) (s : LinkPair) : PairAction → Option LinkPair
  | .near a => (linkEndStep p s.far.run.written s.near a).map fun near => { s with near }
  | .far a => (linkEndStep q s.near.run.written s.far a).map fun far => { s with far }

/-! ### The reader -/

/-- What has been handed on and what is about to be are the packets in what has
been read, and the parser holds the rest. -/
def InputStage.Decodes (maxFrame : ℕ) (read : Binary) (handed : List (List Binary)) :
    InputStage → Prop
  | .absent | .unstarted => read = [] ∧ handed = []
  | .receiving parser =>
      parser.Valid maxFrame ∧ parser.Settled ∧
        greedyFour maxFrame read = ⟨handed.map List.flatten, .pending parser.held⟩
  | .putting parser _ todo =>
      parser.Valid maxFrame ∧ parser.Settled ∧
        greedyFour maxFrame read = ⟨(handed ++ todo).map List.flatten, .pending parser.held⟩
  | .ended => handed.map List.flatten <+: (greedyFour maxFrame read).packets

/-- An input process that ends has handed on packets that it has read. -/
theorem decodes_end {maxFrame : ℕ} {read : Binary} {handed : List (List Binary)}
    {input : InputStage} (h : input.Decodes maxFrame read handed) :
    handed.map List.flatten <+: (greedyFour maxFrame read).packets := by
  cases input with
  | absent =>
      obtain ⟨rfl, rfl⟩ := h
      exact List.nil_prefix
  | unstarted =>
      obtain ⟨rfl, rfl⟩ := h
      exact List.nil_prefix
  | receiving parser =>
      rw [h.2.2]
  | putting parser done todo =>
      rw [h.2.2, List.map_append]
      exact List.prefix_append _ _
  | ended => exact h

/-- A read goes on where the one before has ended. -/
theorem decodes_recv {maxFrame : ℕ} {read : Binary} {handed : List (List Binary)}
    {parser : Parser} (h : (InputStage.receiving parser).Decodes maxFrame read handed)
    (data : Binary) :
    match parserFeed parser data maxFrame with
    | .ok (packets, parser') =>
        (InputStage.putting parser' [] packets).Decodes maxFrame (read ++ data) handed
    | .error _ => InputStage.ended.Decodes maxFrame (read ++ data) handed := by
  obtain ⟨hvalid, hsettled, hread⟩ := h
  have hfeed := parserFeed_spec hvalid data
  have happend : greedyFour maxFrame (read ++ data) =
      (greedyFour maxFrame (parser.held ++ data)).prepend (handed.map List.flatten) :=
    Frame.greedy_append_of_pending data hread
  rcases hr : parserFeed parser data maxFrame with ⟨⟨length⟩⟩ | ⟨packets, parser'⟩
  · show handed.map List.flatten <+: _
    rw [happend]
    exact List.prefix_append _ _
  · rw [hr] at hfeed
    obtain ⟨hpackets, hstop, hvalid', hsettled'⟩ := hfeed
    refine ⟨hvalid', hsettled', ?_⟩
    rw [happend, Frame.Decoded.prepend, ← hpackets, hstop, List.map_append]

/-- **The step lemma** of the reader. -/
theorem linkRunStep_decodes {p : LinkNames} {s s' : LinkRun} {a : LinkAction} (hs : s.Inv p)
    (h : linkRunStep p s a = some s') {read : Binary}
    (hread : s.input.Decodes p.session.maxFrame read s.handed) :
    s'.input.Decodes p.session.maxFrame (read ++ a.reads) s'.handed := by
  cases linkRunStep_move h with
  | control hstep =>
      have hchange := controlStep_change hstep
      show InputStage.Decodes _ (read ++ []) _ _
      rw [List.append_nil, hchange.handed]
      rcases hchange.input with ⟨hholds, hinput⟩ | hinput
      · rw [hs.input hholds] at hread
        rw [hinput]
        exact hread
      · rwa [hinput]
  | input hmove =>
      cases hmove with
      | begin hinput _ =>
          rw [hinput] at hread
          obtain ⟨rfl, hhanded⟩ := hread
          show InputStage.Decodes _ [] s.handed _
          rw [hhanded]
          exact ⟨parserNew_valid _, trivial, greedyFour_held (parserNew_valid _) trivial⟩
      | @recv data _ _ _ hinput hfeed =>
          rw [hinput] at hread
          have hnext := decodes_recv hread data
          rw [hfeed] at hnext
          exact hnext
      | @refuse data _ _ hinput hfeed =>
          rw [hinput] at hread
          have hnext := decodes_recv hread data
          rw [hfeed] at hnext
          exact hnext
      | put hinput =>
          rw [hinput] at hread
          show InputStage.Decodes _ (read ++ []) _ _
          rw [List.append_nil]
          obtain ⟨hvalid, hsettled, hdecoded⟩ := hread
          refine ⟨hvalid, hsettled, ?_⟩
          rw [hdecoded, List.append_cons]
      | report hinput =>
          rw [hinput] at hread
          show InputStage.Decodes _ (read ++ []) _ _
          rw [List.append_nil]
          obtain ⟨hvalid, hsettled, hdecoded⟩ := hread
          refine ⟨hvalid, hsettled, ?_⟩
          rw [hdecoded, List.append_nil]
      | fail _ _ =>
          show InputStage.Decodes _ (read ++ []) _ _
          rw [List.append_nil]
          exact decodes_end hread
  | _ =>
      show InputStage.Decodes _ (read ++ []) _ _
      rw [List.append_nil]
      exact hread

/-! ### The writer -/

/-- A send leaves what was written before. -/
theorem sentStep_grows {p : LinkNames} {s s' : SentRun} {a : LinkAction}
    (h : sentStep p s a = some s') : s.written <+: s'.written := by
  cases a with
  | control a =>
      obtain ⟨link, -, rfl⟩ := Option.map_eq_some_iff.mp h
      cases a.packet p with
      | none => exact List.prefix_rfl
      | some send =>
          show s.written <+: (s.send p link send.1 send.2).written
          unfold SentRun.send
          split
          · exact List.prefix_append _ _
          · exact List.prefix_append _ _
  | _ =>
      obtain ⟨link, -, rfl⟩ := Option.map_eq_some_iff.mp h
      exact List.prefix_rfl

/-! ### The pair -/

/-- What holds of an end, given what the other end has written. -/
structure LinkEnd.Inv (p : LinkNames) (written : Binary) (e : LinkEnd) : Prop where
  link : e.run.link.Inv p
  sends : ∃ c : Controller, c.Inv p.session ∧ e.run.Mirrors c
  read : e.read <+: written
  decodes : e.run.link.input.Decodes p.session.maxFrame e.read e.run.link.handed

theorem linkEndStart_inv (p : LinkNames) : LinkEnd.start.Inv p [] where
  link := linkStart_inv p
  sends := ⟨.start, Controller.start_inv _, sentStart_mirrors⟩
  read := List.prefix_rfl
  decodes := ⟨rfl, rfl⟩

/-- The other end writes more. -/
theorem LinkEnd.Inv.mono {p : LinkNames} {written written' : Binary} {e : LinkEnd}
    (he : e.Inv p written) (h : written <+: written') : e.Inv p written' :=
  { he with read := he.read.trans h }

theorem linkEndStep_inv {p : LinkNames} (hp : p.session.Sound) {written : Binary} {e e' : LinkEnd}
    {a : LinkAction} (he : e.Inv p written) (h : linkEndStep p written e a = some e') :
    e'.Inv p written ∧ e.run.written <+: e'.run.written := by
  obtain ⟨hrun, hread, hfront⟩ := linkEndStep_cases h
  have hlink : linkRunStep p e.run.link a = some e'.run.link := by
    rw [← sentStep_link, hrun]
    rfl
  refine ⟨?_, sentStep_grows hrun⟩
  obtain ⟨c, hc, hmirrors⟩ := he.sends
  exact
    { link := linkRunStep_inv p e.run.link a e'.run.link he.link hlink
      sends := ⟨_, controllerFold_inv hp hc a.event.toList, sentStep_mirrors hmirrors hrun⟩
      read := hfront he.read
      decodes := hread ▸ linkRunStep_decodes he.link hlink he.decodes }

structure LinkPair.Inv (p q : LinkNames) (s : LinkPair) : Prop where
  near : s.near.Inv p s.far.run.written
  far : s.far.Inv q s.near.run.written

/-- **The step lemma**: a step at one end only adds to what the other can read. -/
theorem pairStep_inv {p q : LinkNames} (hp : p.session.Sound) (hq : q.session.Sound)
    (s : LinkPair) (a : PairAction) (s' : LinkPair) (hs : s.Inv p q)
    (h : pairStep p q s a = some s') : s'.Inv p q := by
  cases a with
  | near a =>
      obtain ⟨near, hstep, rfl⟩ := Option.map_eq_some_iff.mp h
      obtain ⟨hnear, hgrows⟩ := linkEndStep_inv hp hs.near hstep
      exact ⟨hnear, hs.far.mono hgrows⟩
  | far a =>
      obtain ⟨far, hstep, rfl⟩ := Option.map_eq_some_iff.mp h
      obtain ⟨hfar, hgrows⟩ := linkEndStep_inv hq hs.far hstep
      exact ⟨hs.near.mono hgrows, hfar⟩

/-- A channel of packets from one end to the other. -/
structure Carries (p q : LinkNames) (sender receiver : LinkEnd) : Prop where
  /-- In order, each once, and nothing that was not sent; at the end there may be
  the packet whose send has failed. -/
  order : receiver.handed <+: sender.run.sent ++ sender.run.failed.toList
  /-- Behind that packet nothing is sent. -/
  last : sender.run.failed ≠ none → sender.run.link.stage.left = true
  /-- It is handed on only if the stream has all of its frame. -/
  framed : sender.run.sent.length < receiver.handed.length →
    sender.run.written = Frame.encodeAll 4 (sender.run.sent ++ sender.run.failed.toList)
  /-- Nothing is refused by a reader with at least this frame limit. -/
  taken : p.session.maxFrame ≤ q.session.maxFrame → ∀ parser data,
    receiver.run.link.input = .receiving parser → receiver.read ++ data <+: sender.run.written →
    ∃ packets parser', parserFeed parser data q.session.maxFrame = .ok (packets, parser')
  /-- Nothing is left behind once all there is has been read. -/
  whole : p.session.maxFrame ≤ q.session.maxFrame → ∀ parser,
    receiver.run.link.input = .receiving parser → receiver.read = sender.run.written →
    sender.run.sent <+: receiver.handed

/-- A reader that has handed on more than was sent whole has read all of it. -/
theorem written_of_handed {maxFrame : ℕ} {sent failed handed : List Binary}
    {read written : Binary} (hfailed : failed.length ≤ 1)
    (hstream : written <+: Frame.encodeAll 4 (sent ++ failed)) (hread : read <+: written)
    (hhanded : handed <+: (greedyFour maxFrame read).packets)
    (hpackets : (greedyFour maxFrame read).packets <+: sent ++ failed)
    (hmore : sent.length < handed.length) : written = Frame.encodeAll 4 (sent ++ failed) := by
  have hall : (greedyFour maxFrame read).packets = sent ++ failed := by
    refine hpackets.eq_of_length_le ?_
    have hle := hhanded.length_le
    rw [List.length_append]
    omega
  obtain ⟨rest, hrest, -⟩ := greedyFour_reads maxFrame read
  rw [hall] at hrest
  have hfront : Frame.encodeAll 4 (sent ++ failed) <+: written :=
    (hrest ▸ List.prefix_append _ rest).trans hread
  exact hstream.eq_of_length_le hfront.length_le

theorem carries_of_inv {p q : LinkNames} (hp : p.session.Sound) {sender receiver : LinkEnd}
    {written : Binary} (hs : sender.Inv p written) (hr : receiver.Inv q sender.run.written) :
    Carries p q sender receiver := by
  obtain ⟨c, hc, hmirrors⟩ := hs.sends
  obtain ⟨hfits, hleft, part, hpart, hwritten⟩ := hmirrors.stream hc
  have hfront : Frame.encodeAll 4 sender.run.sent <+: sender.run.written :=
    hwritten ▸ List.prefix_append _ part
  have hstream : sender.run.written <+:
      Frame.encodeAll 4 (sender.run.sent ++ sender.run.failed.toList) := by
    rw [hwritten, Frame.encodeAll_append]
    exact (List.prefix_append_right_inj _).mpr hpart
  -- four bytes are enough for the length of a packet within the limit
  have hshort : ∀ packet ∈ sender.run.sent ++ sender.run.failed.toList,
      packet.length < 256 ^ 4 := fun packet hmem =>
    lt_of_le_of_lt ((hfits packet hmem).trans hp.2) (by decide)
  have hhanded := decodes_end hr.decodes
  have hpackets : (greedyFour q.session.maxFrame receiver.read).packets <+:
      sender.run.sent ++ sender.run.failed.toList :=
    Frame.greedy_packets_of_prefix (by decide) hshort (hr.read.trans hstream)
  refine ⟨hhanded.trans hpackets, hleft,
    written_of_handed sender.run.failed.length_toList_le hstream hr.read hhanded hpackets,
    ?_, ?_⟩
  · intro hlimit parser data hinput hread
    have hdecodes := hr.decodes
    rw [hinput] at hdecodes
    obtain ⟨qs, rest, hgreedy, -⟩ := Frame.greedy_of_prefix (by decide : 0 < 4)
      (fun packet hmem => ⟨(hfits packet hmem).trans hlimit, hshort packet hmem⟩)
      (hread.trans hstream)
    have hfeed := parserFeed_spec hdecodes.1 data
    have happend := Frame.greedy_append_of_pending data hdecodes.2.2
    rcases hresult : parserFeed parser data q.session.maxFrame with ⟨⟨length⟩⟩ | ⟨packets, parser'⟩
    · -- a length that is too large would be one of the stream
      rw [hresult] at hfeed
      have hstop : (greedyFour q.session.maxFrame (parser.held ++ data)).stop =
          .tooLarge length := hfeed
      rw [hgreedy] at happend
      have hpending := congrArg Frame.Decoded.stop happend
      rw [Frame.prepend_stop] at hpending
      rw [greedyFour, ← hpending] at hstop
      cases hstop
    · exact ⟨packets, parser', rfl⟩
  · intro hlimit parser hinput hread
    have hdecodes := hr.decodes
    rw [hinput] at hdecodes
    obtain ⟨rest, hrest⟩ := hfront
    have hall := Frame.greedy_encodeAll_append (by decide : 0 < 4)
      (fun packet hmem =>
        ⟨(hfits packet (List.mem_append_left _ hmem)).trans hlimit,
          hshort packet (List.mem_append_left _ hmem)⟩) rest
    have hhanded := congrArg Frame.Decoded.packets hdecodes.2.2
    rw [hread, ← hrest, greedyFour, hall, Frame.prepend_packets] at hhanded
    exact ⟨_, hhanded⟩

/-- **A link is a channel of packets in both directions**, in every run of the two
nodes that it joins. -/
theorem link_fifo {p q : LinkNames} (hp : p.session.Sound) (hq : q.session.Sound)
    {as : List PairAction} {s : LinkPair} (h : run (pairStep p q) .start as = some s) :
    Carries p q s.near s.far ∧ Carries q p s.far s.near := by
  have hs : s.Inv p q := run_invariant (pairStep_inv hp hq) h
    ⟨linkEndStart_inv p, linkEndStart_inv q⟩
  exact ⟨carries_of_inv hp hs.near hs.far, carries_of_inv hq hs.far hs.near⟩

/-- The near end sends a packet of two bytes and fails with the next one; the far
end is ready to read. -/
def sampleExchange : List PairAction :=
  sendTwo.map .near ++ (setUp ++ [LinkAction.input .begin]).map .far

/-- The far end reads the first packet and hands it on. -/
theorem link_fifo_sample :
    ∃ s, run (pairStep sampleNames sampleNames) .start
        (sampleExchange ++ [.far (.input (.recv [0, 0, 0, 2, 1, 2])), .far (.input .put)]) = some s ∧
      Carries sampleNames sampleNames s.near s.far ∧ s.near.run.sent = [[1, 2]] ∧
      s.near.run.failed = some [3] ∧ s.far.handed = [[1, 2]] := by
  obtain ⟨s, hrun, hfar, hwritten, hsent, hfailed⟩ :
      ∃ s, run (pairStep sampleNames sampleNames) .start sampleExchange = some s ∧
        s.far = ⟨⟨racing, [], [], none⟩, []⟩ ∧
        s.near.run.written = [0, 0, 0, 2, 1, 2, 0, 0, 0, 1, 3] ∧ s.near.run.sent = [[1, 2]] ∧
        s.near.run.failed = some [3] :=
    ⟨_, rfl, rfl, rfl, rfl, rfl⟩
  have hrecv : pairStep sampleNames sampleNames s (.far (.input (.recv [0, 0, 0, 2, 1, 2]))) =
      some { s with
        far := ⟨⟨{ racing with input := .putting parserNew [] [[[1, 2]]] }, [], [], none⟩,
          [0, 0, 0, 2, 1, 2]⟩ } := by
    have hprefix : ([0, 0, 0, 2, 1, 2] : Binary) <+: [0, 0, 0, 2, 1, 2, 0, 0, 0, 1, 3] := by decide
    simp only [pairStep, linkEndStep, hfar, hwritten, List.nil_append, if_pos hprefix, sentStep,
      recv_packet, Option.map_some]
  have hall : run (pairStep sampleNames sampleNames) .start
      (sampleExchange ++ [.far (.input (.recv [0, 0, 0, 2, 1, 2])), .far (.input .put)]) =
      some { s with
        far := ⟨⟨{ racing with
          input := .putting parserNew [[[1, 2]]] []
          handed := [[[1, 2]]] }, [], [], none⟩, [0, 0, 0, 2, 1, 2]⟩ } := by
    rw [run_append, hrun, Option.bind_some, run_cons_of_step _ hrecv]
    rfl
  have hsound : sampleNames.session.Sound := ⟨by decide, by decide⟩
  exact ⟨_, hall, (link_fifo hsound hsound hall).1, hsent, hfailed, rfl⟩

end IrohBeam
