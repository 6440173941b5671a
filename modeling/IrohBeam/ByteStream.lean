/-
IrohBeam/ByteStream.lean

A stream from end to end: the sends on the send half at one node
(`IrohBeam/Senders.lean`), and the receives on the receive half at the other
(`stream_recv_start` and `RecvLease` in `native/iroh_beam_nif/src/stream.rs`).

Any number of calls work on either half, each of them under the lease protocol.
In between, the QUIC stream gives the bytes it has accepted in the order in
which it has accepted them, and its end once everything has been read of a stream
that was finished.  A send half is finished by `stream_finish`, and by a drop of its
handle as it is: so ends a stream that was closed or reset while a send had the
handle and was just about to be over.

`received_in_order` puts the two ends together: the bytes that the receives
have taken, in the order in which they have taken the handle, are the front of
the bytes that the sends have written, in the order in which they have taken
theirs:

    got j₁ ++ … ++ got jₘ  <+:  sent i₁ ++ … ++ sent iₙ

and a receive is told of the end of the stream only when the two are the same
and will stay so.
-/
import IrohBeam.Senders
import IrohBeam.StreamRecv

namespace IrohBeam

open Bytes Transition

/-! ### The receives -/

/-- The largest `max_bytes` of a receive. -/
def maxReceive : ℕ := 16 * 1024 * 1024

/-- A receive half with what `read_chunk` has given each receive, and all that
has been read. -/
structure Receivers where
  half : TurnHalf
  results : ℕ → Option ReadResult
  taken : Binary

def Receivers.init : Receivers := { half := .init, results := fun _ => none, taken := [] }

/-- The bytes of what a receive has read. -/
def gotBytes : Option ReadResult → Binary
  | some (.data bytes) => bytes
  | _ => []

inductive ReceiversAction where
  | half (a : HalfAction)
  | read (i k : ℕ)
  | eof (i : ℕ)
  deriving DecidableEq, Repr

/-- The steps on the half that a receive takes without a read.  One with a bad
limit does not begin; its `select!` takes the notification only if the read is
not ready, and ends with the read, with its error, or with the task. -/
def Receivers.allows (limits : ℕ → ℕ) (s : Receivers) : HalfAction → Bool
  | .operation i .begin => 1 ≤ limits i && limits i ≤ maxReceive
  | .operation i .notified => (s.results i).isNone
  | _ => true

/-- The read of receive `i` is not ready yet. -/
def Receivers.waits (s : Receivers) (i : ℕ) : Bool :=
  s.half.state.operations i = .select && (s.results i).isNone

/-- One step of any party, on a stream that has accepted `wire` and was finished
or not. -/
def receiversStep (limits : ℕ → ℕ) (wire : Binary) (finished : Bool) (s : Receivers) :
    ReceiversAction → Option Receivers
  | .half a =>
      if s.allows limits a then (turnStep .recv s.half a).map fun half => { s with half }
      else none
  | .read i k =>
      if s.waits i ∧ 1 ≤ k ∧ k ≤ limits i ∧ k ≤ (wire.drop s.taken.length).length then
        let bytes := (wire.drop s.taken.length).take k
        some { s with
          results := Function.update s.results i (some (.data bytes))
          taken := s.taken ++ bytes }
      else none
  | .eof i =>
      if s.waits i ∧ finished ∧ wire.drop s.taken.length = [] then
        some { s with results := Function.update s.results i (some .eof) }
      else none

/-- Every step of the receives. -/
inductive ReceiversMove (limits : ℕ → ℕ) (wire : Binary) (finished : Bool) (s : Receivers) :
    Receivers → Prop
  | half {a half} : turnStep .recv s.half a = some half →
      ReceiversMove limits wire finished s { s with half }
  | read {i bytes} : s.half.state.operations i = .select → s.results i = none → bytes ≠ [] →
      bytes.length ≤ limits i → bytes <+: wire.drop s.taken.length →
      ReceiversMove limits wire finished s
        { s with
          results := Function.update s.results i (some (.data bytes))
          taken := s.taken ++ bytes }
  | eof {i} : s.half.state.operations i = .select → s.results i = none → finished = true →
      wire.drop s.taken.length = [] →
      ReceiversMove limits wire finished s
        { s with results := Function.update s.results i (some .eof) }

section Receive

variable {limits : ℕ → ℕ} {wire : Binary} {finished : Bool} {s s' : Receivers}
  {a : ReceiversAction}

theorem Receivers.waits_iff {i : ℕ} :
    s.waits i = true ↔ s.half.state.operations i = .select ∧ s.results i = none := by
  rw [Receivers.waits, Bool.and_eq_true, decide_eq_true_eq, Option.isNone_iff_eq_none]

theorem receiversStep_move (h : receiversStep limits wire finished s a = some s') :
    ReceiversMove limits wire finished s s' := by
  cases a with
  | half a =>
      simp only [receiversStep] at h
      split at h
      · obtain ⟨half, hturn, rfl⟩ := Option.map_eq_some_iff.mp h
        exact .half hturn
      · cases h
  | read i k =>
      simp only [receiversStep] at h
      split at h
      · next hread =>
          obtain ⟨hwaits, hpos, hlimit, hthere⟩ := hread
          obtain ⟨hselect, hnone⟩ := Receivers.waits_iff.mp hwaits
          obtain rfl := Option.some.inj h
          have hlength : ((wire.drop s.taken.length).take k).length = k := by
            rw [List.length_take, min_eq_left hthere]
          refine .read hselect hnone ?_ (hlength.trans_le hlimit) (List.take_prefix _ _)
          apply List.ne_nil_of_length_pos
          rw [hlength]
          exact hpos
      · cases h
  | eof i =>
      simp only [receiversStep] at h
      split at h
      · next heof =>
          obtain ⟨hwaits, hfinished, hnil⟩ := heof
          obtain ⟨hselect, hnone⟩ := Receivers.waits_iff.mp hwaits
          obtain rfl := Option.some.inj h
          exact .eof hselect hnone hfinished hnil
      · cases h

/-- What the receives have come to, with what the stream has accepted. -/
structure Receivers.Inv (limits : ℕ → ℕ) (wire : Binary) (finished : Bool) (s : Receivers) :
    Prop where
  half : s.half.Inv
  record : Turns.Record s.half.order (gotBytes ∘ s.results) s.taken
  taken : s.taken <+: wire
  limit : ∀ i bytes, s.results i = some (.data bytes) → bytes ≠ [] ∧ bytes.length ≤ limits i
  eof : ∀ i, s.results i = some .eof → finished = true ∧ s.taken = wire

theorem receivers_init_inv (limits : ℕ → ℕ) (wire : Binary) (finished : Bool) :
    Receivers.init.Inv limits wire finished where
  half := turnHalf_init_inv
  record := .init fun _ => rfl
  taken := List.nil_prefix
  limit i bytes h := by cases h
  eof i h := by cases h

/-- What has been read is the front of the stream, so a read goes on from there. -/
theorem prefix_of_drop {read taken wire : Binary} (htaken : taken <+: wire)
    (hread : read <+: wire.drop taken.length) : taken ++ read <+: wire := by
  obtain ⟨rest, rfl⟩ := htaken
  rw [List.drop_left] at hread
  exact (List.prefix_append_right_inj taken).mpr hread

/-- Every step of the receives keeps it. -/
theorem Receivers.Inv.step (hs : s.Inv limits wire finished)
    (h : receiversStep limits wire finished s a = some s') : s'.Inv limits wire finished := by
  cases receiversStep_move h with
  | @half a half hturn =>
      refine ⟨turnStep_inv s.half a half hs.half hturn, ?_, hs.taken, hs.limit, hs.eof⟩
      show Turns.Record half.order (gotBytes ∘ s.results) s.taken
      rcases turnStep_order hs.half hturn with horder | ⟨i, hi, horder⟩
      · rw [horder]
        exact hs.record
      · rw [horder]
        exact hs.record.begin hi
  | @read i bytes hselect hnone hne hlimit hbytes =>
      have hlast := hs.half.select hselect
      refine ⟨hs.half, ?_, prefix_of_drop hs.taken hbytes, ?_, ?_⟩
      · show Turns.Record s.half.order (gotBytes ∘ Function.update s.results i _) _
        have hold : (gotBytes ∘ s.results) i ++ bytes = gotBytes (some (.data bytes)) := by
          rw [Function.comp_apply, hnone]
          rfl
        rw [Function.comp_update, ← hold]
        exact hs.record.extend hlast bytes
      · apply (Function.forall_update_iff s.results fun j result =>
          ∀ b, result = some (.data b) → b ≠ [] ∧ b.length ≤ limits j).mpr
        refine ⟨?_, fun j _ => hs.limit j⟩
        intro b hb
        obtain rfl := ReadResult.data.inj (Option.some.inj hb)
        exact ⟨hne, hlimit⟩
      · -- after the end of the stream there is nothing to read
        have hopen : ∀ j, s.results j ≠ some .eof := by
          intro j hj
          rw [← (hs.eof j hj).2, List.drop_length] at hbytes
          exact hne (List.prefix_nil.mp hbytes)
        apply (Function.forall_update_iff s.results fun j result =>
          result = some .eof → finished = true ∧ _).mpr
        exact ⟨fun h => (by cases h), fun j _ hj => absurd hj (hopen j)⟩
  | @eof i hselect hnone hfinished hnil =>
      have hall : s.taken = wire := by
        apply hs.taken.eq_of_length_le
        exact List.drop_eq_nil_iff.mp hnil
      refine ⟨hs.half, ?_, hs.taken, ?_, fun _ _ => ⟨hfinished, hall⟩⟩
      · show Turns.Record s.half.order (gotBytes ∘ Function.update s.results i _) _
        have hold : gotBytes (some .eof) = (gotBytes ∘ s.results) i := by
          rw [Function.comp_apply, hnone]
          rfl
        rw [Function.comp_update, hold, Function.update_eq_self]
        exact hs.record
      · apply (Function.forall_update_iff s.results fun j result =>
          ∀ b, result = some (.data b) → b ≠ [] ∧ b.length ≤ limits j).mpr
        exact ⟨fun b h => (by cases h), fun j _ => hs.limit j⟩

/-- A receive keeps its result. -/
theorem ReceiversMove.result (hmove : ReceiversMove limits wire finished s s') {j : ℕ}
    {result : ReadResult} (hj : s.results j = some result) : s'.results j = some result := by
  have hother : ∀ {i}, s.results i = none → j ≠ i := by
    rintro i hnone rfl
    rw [hnone] at hj
    cases hj
  cases hmove with
  | half _ => exact hj
  | read _ hnone _ _ _ => exact (Function.update_of_ne (hother hnone) _ _).trans hj
  | eof _ hnone _ _ => exact (Function.update_of_ne (hother hnone) _ _).trans hj

/-- The receives see more of the stream, or its end. -/
theorem Receivers.Inv.more (hs : s.Inv limits wire finished) {wire' : Binary} {finished' : Bool}
    (hwire : wire <+: wire') (hfinished : finished = true → finished' = true ∧ wire' = wire) :
    s.Inv limits wire' finished' := by
  refine ⟨hs.half, hs.record, hs.taken.trans hwire, hs.limit, ?_⟩
  intro i hi
  obtain ⟨hend, htaken⟩ := hs.eof i hi
  obtain ⟨hend', rfl⟩ := hfinished hend
  exact ⟨hend', htaken⟩

end Receive

/-! ### Both ends -/

/-- The send half was finished, or its handle dropped: there will be an end of the
stream. -/
def Senders.finished (s : Senders) : Bool := s.half.state.half.fate.isEnd

structure ByteStream where
  senders : Senders
  receivers : Receivers

def ByteStream.init (calls : ℕ → SendCall) : ByteStream :=
  { senders := .init calls, receivers := .init }

inductive ByteStreamAction where
  | send (a : SendersAction)
  | recv (a : ReceiversAction)
  deriving DecidableEq, Repr

/-- One step at either end. -/
def byteStreamStep (calls : ℕ → SendCall) (limits : ℕ → ℕ) (s : ByteStream) :
    ByteStreamAction → Option ByteStream
  | .send a => (sendersStep calls s.senders a).map fun senders => { s with senders }
  | .recv a =>
      (receiversStep limits s.senders.wire s.senders.finished s.receivers a).map fun receivers =>
        { s with receivers }

/-- What the two ends have come to. -/
structure ByteStream.Inv (calls : ℕ → SendCall) (limits : ℕ → ℕ) (s : ByteStream) : Prop where
  senders : s.senders.Inv calls
  receivers : s.receivers.Inv limits s.senders.wire s.senders.finished

section Ends

variable {calls : ℕ → SendCall} {limits : ℕ → ℕ}

/-- A stream that was finished stays so, and nothing more is written to it. -/
theorem Senders.Inv.finished {s s' : Senders} {a : SendersAction} (hs : s.Inv calls)
    (h : sendersStep calls s a = some s') (hfinished : s.finished = true) :
    s'.finished = true ∧ s'.wire = s.wire := by
  obtain ⟨-, -, hwire, hfate⟩ :=
    sendersStep_gone s a s' ⟨hs, hs.half.ended hfinished, rfl, rfl⟩ h
  refine ⟨?_, hwire⟩
  rw [Senders.finished, hfate]
  exact hfinished

theorem byteStream_init_inv : (ByteStream.init calls).Inv calls limits :=
  ⟨senders_init_inv calls, receivers_init_inv limits _ _⟩

theorem byteStreamStep_inv (s : ByteStream) (a : ByteStreamAction) (s' : ByteStream)
    (hs : s.Inv calls limits) (h : byteStreamStep calls limits s a = some s') :
    s'.Inv calls limits := by
  cases a with
  | send a =>
      obtain ⟨senders, hstep, rfl⟩ := Option.map_eq_some_iff.mp h
      refine ⟨sendersStep_inv s.senders a senders hs.senders hstep, ?_⟩
      apply hs.receivers.more
      · exact sendersStep_wire s.senders a senders List.prefix_rfl hstep
      · exact hs.senders.finished hstep
  | recv a =>
      obtain ⟨receivers, hstep, rfl⟩ := Option.map_eq_some_iff.mp h
      exact ⟨hs.senders, hs.receivers.step hstep⟩

/-- Once a receive has been told of the end, the stream stays as it is. -/
theorem byteStreamStep_eof {wire : Binary} {j : ℕ} (s : ByteStream) (a : ByteStreamAction)
    (s' : ByteStream) (hs : s.Inv calls limits ∧ s.receivers.results j = some .eof ∧
      s.senders.wire = wire) (h : byteStreamStep calls limits s a = some s') :
    s'.Inv calls limits ∧ s'.receivers.results j = some .eof ∧ s'.senders.wire = wire := by
  obtain ⟨hinv, hj, hwire⟩ := hs
  refine ⟨byteStreamStep_inv s a s' hinv h, ?_⟩
  cases a with
  | send a =>
      obtain ⟨senders, hstep, rfl⟩ := Option.map_eq_some_iff.mp h
      have hfinished := (hinv.receivers.eof j hj).1
      exact ⟨hj, (hinv.senders.finished hstep hfinished).2.trans hwire⟩
  | recv a =>
      obtain ⟨receivers, hstep, rfl⟩ := Option.map_eq_some_iff.mp h
      exact ⟨(receiversStep_move hstep).result hj, hwire⟩

end Ends

/-- The receives have got what the sends have sent. -/
structure ByteStream.InOrder (calls : ℕ → SendCall) (limits : ℕ → ℕ) (s : ByteStream) : Prop where
  once : s.receivers.half.order.Nodup
  sent : s.senders.wire = s.senders.half.order.flatMap fun i => (s.senders.sends i).sent
  taken : s.receivers.taken =
    s.receivers.half.order.flatMap fun j => gotBytes (s.receivers.results j)
  front : s.receivers.taken <+: s.senders.wire
  limit : ∀ j bytes, s.receivers.results j = some (.data bytes) →
    bytes ≠ [] ∧ bytes.length ≤ limits j
  /-- What a receive has got follows on what those before it have got. -/
  place : ∀ j bytes, s.receivers.results j = some (.data bytes) →
    ∃ before after, s.receivers.half.order = before ++ j :: after ∧
      (before.flatMap fun k => gotBytes (s.receivers.results k)) ++ bytes <+: s.senders.wire
  /-- The end of the stream is the end of what was sent, and there is one only after
  a finish or a drop of the send handle. -/
  eof : ∀ j, s.receivers.results j = some .eof →
    s.senders.finished = true ∧ s.receivers.taken = s.senders.wire
  /-- If the sends say that they have written all of their data, the receives
  have got all of it. -/
  whole : ∀ j, s.receivers.results j = some .eof →
    (∀ i ∈ s.senders.half.order, (calls i).all = true ∧ (s.senders.sends i).stage.isOk = true) →
    s.receivers.taken = s.senders.half.order.flatMap fun i => (calls i).data

theorem ByteStream.Inv.inOrder {calls : ℕ → SendCall} {limits : ℕ → ℕ} {s : ByteStream}
    (hs : s.Inv calls limits) : s.InOrder calls limits where
  once := hs.receivers.record.nodup
  sent := hs.senders.record.log
  taken := hs.receivers.record.log
  front := hs.receivers.taken
  limit := hs.receivers.limit
  place j bytes hj := by
    have hmem : j ∈ s.receivers.half.order := by
      by_contra hnot
      have hnil := hs.receivers.record.outside j hnot
      rw [Function.comp_apply, hj] at hnil
      exact (hs.receivers.limit j bytes hj).1 hnil
    obtain ⟨before, after, horder, hsplit⟩ := hs.receivers.record.split hmem
    refine ⟨before, after, horder, List.IsPrefix.trans ?_ hs.receivers.taken⟩
    rw [hsplit, Function.comp_apply, hj]
    exact List.prefix_append _ _
  eof := hs.receivers.eof
  whole j hj hdone := by
    rw [(hs.receivers.eof j hj).2, hs.senders.record.log]
    apply List.flatMap_congr
    intro i hi
    obtain ⟨hall, hok⟩ := hdone i hi
    obtain ⟨n, hn⟩ := SendStage.isOk_iff.mp hok
    exact ((hs.senders.sound i).result n hn).2 hall

/-- **A stream delivers in order.**  Whatever sends, receives, resets, stops and
finishes do at its two ends: the receives have taken the front of what the sends
have written, each what follows on the one before and no more than its limit;
and the end of the stream is told only when it was finished, or its handle dropped,
and all of it has been taken, and then it is all that will ever be written. -/
theorem received_in_order {calls : ℕ → SendCall} {limits : ℕ → ℕ} {as : List ByteStreamAction}
    {s : ByteStream} (h : run (byteStreamStep calls limits) (.init calls) as = some s) :
    s.InOrder calls limits ∧
      ∀ j, s.receivers.results j = some .eof →
        ∀ bs t, run (byteStreamStep calls limits) s bs = some t →
          t.senders.wire = s.senders.wire ∧ t.receivers.taken = s.receivers.taken := by
  have hs : s.Inv calls limits := run_invariant byteStreamStep_inv h byteStream_init_inv
  refine ⟨hs.inOrder, ?_⟩
  intro j hj bs t ht
  obtain ⟨ht, htj, hwire⟩ := run_invariant byteStreamStep_eof ht ⟨hs, hj, rfl⟩
  refine ⟨hwire, ?_⟩
  rw [(ht.receivers.eof j htj).2, (hs.receivers.eof j hj).2, hwire]

/-- Send 0 writes three bytes in two writes, and the half is finished; receive 0
takes one of them, receive 1 the other two, and receive 2 comes to the end. -/
def sampleByteStream : List ByteStreamAction :=
  [.send (.half (.operation 0 .begin)), .send (.half (.operation 0 .claim)),
    .send (.half (.operation 0 .take)), .send (.complete 0),
    .recv (.half (.operation 0 .begin)), .recv (.half (.operation 0 .claim)),
    .recv (.half (.operation 0 .take)), .recv (.read 0 1), .send (.complete 0),
    .recv (.half (.operation 0 .ended)), .recv (.half (.operation 0 .dropBusy)),
    .recv (.half (.operation 0 .loadClosed)), .recv (.half (.operation 0 .store)),
    .send (.half (.operation 0 .ended)), .send (.half (.operation 0 .dropBusy)),
    .send (.half (.operation 0 .loadClosed)), .send (.half (.operation 0 .store)),
    .send (.half (.finish 0 .loadBusy)), .send (.half (.finish 0 .storeClosed)),
    .send (.half (.finish 0 .take)),
    .recv (.half (.operation 1 .begin)), .recv (.half (.operation 1 .claim)),
    .recv (.half (.operation 1 .take)), .recv (.read 1 2),
    .recv (.half (.operation 1 .ended)), .recv (.half (.operation 1 .dropBusy)),
    .recv (.half (.operation 1 .loadClosed)), .recv (.half (.operation 1 .store)),
    .recv (.half (.operation 2 .begin)), .recv (.half (.operation 2 .claim)),
    .recv (.half (.operation 2 .take)), .recv (.eof 2)]

/-- Send 0 has written its three bytes as the half is reset, and drops the handle. -/
def droppedSend : List SendersAction :=
  takeHandle.map SendersAction.half ++ [SendersAction.complete 0, SendersAction.complete 0] ++
    (endedRun.drop takeHandle.length).map SendersAction.half

/-- Receive 0 takes the bytes, and receive 1 comes to the end. -/
def droppedByteStream : List ByteStreamAction :=
  droppedSend.map ByteStreamAction.send ++
  [.recv (.half (.operation 0 .begin)), .recv (.half (.operation 0 .claim)),
    .recv (.half (.operation 0 .take)), .recv (.read 0 3),
    .recv (.half (.operation 0 .ended)), .recv (.half (.operation 0 .dropBusy)),
    .recv (.half (.operation 0 .loadClosed)), .recv (.half (.operation 0 .store)),
    .recv (.half (.operation 1 .begin)), .recv (.half (.operation 1 .claim)),
    .recv (.half (.operation 1 .take)), .recv (.eof 1)]

theorem received_in_order_sample :
    (∃ s, run (byteStreamStep sampleCalls fun _ => 2) (.init sampleCalls) sampleByteStream =
        some s ∧
      s.InOrder sampleCalls (fun _ => 2) ∧ s.receivers.taken = [1, 2, 3] ∧
      s.receivers.results 2 = some .eof) ∧
    ∃ s, run (byteStreamStep sampleCalls fun _ => 3) (.init sampleCalls) droppedByteStream =
        some s ∧
      s.InOrder sampleCalls (fun _ => 3) ∧ s.receivers.taken = [1, 2, 3] ∧
      s.senders.half.state.half.fate = .dropped ∧ s.receivers.results 1 = some .eof := by
  obtain ⟨s, hrun, htaken, heof⟩ :
      ∃ s, run (byteStreamStep sampleCalls fun _ => 2) (.init sampleCalls) sampleByteStream = some s ∧
        s.receivers.taken = [1, 2, 3] ∧ s.receivers.results 2 = some .eof := ⟨_, rfl, rfl, rfl⟩
  obtain ⟨t, ht, htaken', hfate, heof'⟩ :
      ∃ s, run (byteStreamStep sampleCalls fun _ => 3) (.init sampleCalls) droppedByteStream = some s ∧
        s.receivers.taken = [1, 2, 3] ∧ s.senders.half.state.half.fate = .dropped ∧
        s.receivers.results 1 = some .eof := ⟨_, rfl, rfl, rfl, rfl⟩
  exact ⟨⟨s, hrun, (received_in_order hrun).1, htaken, heof⟩,
    t, ht, (received_in_order ht).1, htaken', hfate, heof'⟩

end IrohBeam
