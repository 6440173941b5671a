/-
IrohBeam/Senders.lean

Concurrent sends on one send half (`start_stream_send` and `SendLease` in
`native/iroh_beam_nif/src/stream.rs`), with the bytes they write.

Any number of sends, resets and finishes take the steps of
`IrohBeam/StreamReset.lean` on the half.  A send that has the handle runs the
loop of `IrohBeam/SendAll.lean`, or writes once, and what the stream accepts of
it goes to the end of the stream.  `wire` is all the stream has accepted.

The handle is in one lease at a time, so the sends take turns at the stream
(`IrohBeam/Turns.lean`), in the order in which they have taken the handle from
the slot:

    wire  =  sent i₁ ++ sent i₂ ++ … ++ sent iₙ

`turnStep` adds that order to the half, for the send half and the receive half
alike.  `sends_take_turns` is the result for all runs: no send is split by
another, a send whose result says so has written all of its data, and after the
handle is gone the stream is what it is.
-/
import IrohBeam.NeverBusy
import IrohBeam.SendAll
import IrohBeam.Turns

namespace IrohBeam

open Bytes Transition

/-! ### Whose turn it is -/

/-- A half with the operations that have taken its handle, in that order.  The
code does not keep the order. -/
structure TurnHalf where
  state : HalfState
  order : List ℕ

def TurnHalf.init : TurnHalf := { state := .init, order := [] }

/-- The operation that takes the handle in a step, if one does. -/
def HalfState.taker (s : HalfState) : HalfAction → List ℕ
  | .operation i .take => if s.half.place = .slot then [i] else []
  | _ => []

/-- One step of any party on the half. -/
def turnStep (kind : HalfKind) (s : TurnHalf) (a : HalfAction) : Option TurnHalf :=
  (halfStep kind s.state a).map fun state => { state, order := s.order ++ s.state.taker a }

/-- The operation has not had the handle: it has not come to the slot, or has
found it empty, or was refused before. -/
def LeaseStage.Untaken : LeaseStage → Prop
  | .idle | .claim | .take | .clearBusy | .over (some _) => True
  | _ => False

/-- The stream ends with this handle: it was finished, or dropped as it was, and then
the QUIC library finishes it. -/
def Fate.isEnd : Fate → Bool
  | .finished _ | .dropped => true
  | _ => false

/-- The operation that has the handle was the last to take it. -/
structure TurnHalf.Inv (s : TurnHalf) : Prop where
  leased : s.state.Leased
  nodup : s.order.Nodup
  last : ∀ i, s.state.half.place = .lease i → s.order.getLast? = some i
  untaken : ∀ i, (s.state.operations i).Untaken → i ∉ s.order
  /-- A handle that was finished or dropped is gone. -/
  ended : s.state.half.fate.isEnd = true → s.state.half.place = .gone

theorem turnHalf_init_inv : TurnHalf.init.Inv where
  leased := leased_init
  nodup := List.nodup_nil
  last i h := by cases h
  untaken _ _ := List.not_mem_nil
  ended h := by cases h

section Turn

variable {kind : HalfKind} {s s' : TurnHalf} {a : HalfAction}

theorem turnStep_move (h : turnStep kind s a = some s') :
    HalfMove kind s.state a s'.state ∧ s'.order = s.order ++ s.state.taker a := by
  obtain ⟨state, hstate, rfl⟩ := Option.map_eq_some_iff.mp h
  exact ⟨halfStep_move hstate, rfl⟩

/-- Only the take of an operation changes the order, and then it is at its end. -/
theorem HalfState.taker_cases (s : HalfState) (a : HalfAction) :
    s.taker a = [] ∨ ∃ i, a = .operation i .take ∧ s.half.place = .slot ∧ s.taker a = [i] := by
  unfold HalfState.taker
  split
  · next i =>
      by_cases hslot : s.half.place = .slot
      · exact .inr ⟨i, rfl, hslot, if_pos hslot⟩
      · exact .inl (if_neg hslot)
  · exact .inl rfl

/-- An operation that takes the handle has it after the step, and had not
before. -/
theorem LeaseMove.takes {h h' : StreamHalf} {i : ℕ} {stage stage' : LeaseStage}
    (hmove : LeaseMove kind h i .take stage h' stage') (hslot : h.place = .slot) :
    stage.Untaken ∧ h'.place = .lease i ∧ h'.fate = h.fate ∧ stage' = .select := by
  cases hmove with
  | take _ => exact ⟨trivial, rfl, rfl, rfl⟩
  | miss hmiss => exact absurd hslot hmiss

/-- Any other step gives the handle to nobody and does not bring it back,
leaves the operations that have not had it among those, and ends the stream only
when it takes the handle out for good. -/
structure KeepsTurn (s s' : HalfState) : Prop where
  place : ∀ i, s'.half.place = .lease i → s.half.place = .lease i
  gone : s.half.place = .gone → s'.half.place = .gone ∧ s'.half.fate = s.half.fate
  ended : s'.half.fate.isEnd = true → s.half.fate.isEnd = true ∨ s'.half.place = .gone
  untaken : ∀ i, (s'.operations i).Untaken → (s.operations i).Untaken

theorem LeaseMove.keepsTurn {h h' : StreamHalf} {i : ℕ} {a : LeaseAction}
    {stage stage' : LeaseStage} (hmove : LeaseMove kind h i a stage h' stage')
    (hholds : stage.Holds ↔ h.place = .lease i) (htake : a = .take → h.place ≠ .slot) :
    (∀ j, h'.place = .lease j → h.place = .lease j) ∧
      (h.place = .gone → h'.place = .gone ∧ h'.fate = h.fate) ∧
      (h'.fate.isEnd = true → h.fate.isEnd = true ∨ h'.place = .gone) ∧
      (stage'.Untaken → stage.Untaken) := by
  have hlease : stage.Holds → h.place ≠ .gone := by
    intro h' hgone
    rw [hholds.mp h'] at hgone
    cases hgone
  cases hmove with
  | take hslot => exact absurd hslot (htake rfl)
  | reset _ =>
      exact ⟨fun _ => id, fun hgone => absurd hgone (hlease trivial), fun h => (by cases h), id⟩
  | store =>
      exact ⟨fun j h => (by cases h), fun hgone => absurd hgone (hlease trivial), .inl, id⟩
  | discard =>
      exact ⟨fun j h => (by cases h), fun hgone => absurd hgone (hlease trivial),
        fun _ => .inr rfl, id⟩
  | refuse _ => exact ⟨fun _ => id, fun hgone => ⟨hgone, rfl⟩, .inl, fun _ => trivial⟩
  | begin _ => exact ⟨fun _ => id, fun hgone => ⟨hgone, rfl⟩, .inl, fun _ => trivial⟩
  | busy _ => exact ⟨fun _ => id, fun hgone => ⟨hgone, rfl⟩, .inl, fun _ => trivial⟩
  | claim _ => exact ⟨fun _ => id, fun hgone => ⟨hgone, rfl⟩, .inl, fun _ => trivial⟩
  | miss _ => exact ⟨fun _ => id, fun hgone => ⟨hgone, rfl⟩, .inl, fun _ => trivial⟩
  | clearBusy => exact ⟨fun _ => id, fun hgone => ⟨hgone, rfl⟩, .inl, fun _ => trivial⟩
  | _ => exact ⟨fun _ => id, fun hgone => ⟨hgone, rfl⟩, .inl, id⟩

theorem RequestMove.keepsTurn {h h' : StreamHalf} {a : RequestAction} {stage stage' : RequestStage}
    (hmove : RequestMove h a stage h' stage') :
    (∀ j, h'.place = .lease j → h.place = .lease j) ∧
      (h.place = .gone → h'.place = .gone ∧ h'.fate = h.fate) ∧
      (h'.fate.isEnd = true → h.fate.isEnd = true ∨ h'.place = .gone) := by
  cases hmove with
  | take hslot =>
      refine ⟨fun j h => (by cases h), fun hgone => ?_, fun _ => .inr rfl⟩
      rw [hgone] at hslot
      cases hslot
  | _ => exact ⟨fun _ => id, fun hgone => ⟨hgone, rfl⟩, .inl⟩

theorem FinishMove.keepsTurn {h h' : StreamHalf} {a : FinishAction} {accepted : Bool}
    {stage stage' : FinishStage} (hmove : FinishMove h a accepted stage h' stage') :
    (∀ j, h'.place = .lease j → h.place = .lease j) ∧
      (h.place = .gone → h'.place = .gone ∧ h'.fate = h.fate) ∧
      (h'.fate.isEnd = true → h.fate.isEnd = true ∨ h'.place = .gone) := by
  have htakes : h.place = .slot → h.place ≠ .gone := by
    intro hslot hgone
    rw [hgone] at hslot
    cases hslot
  cases hmove with
  | finished hslot =>
      exact ⟨fun j h => (by cases h), fun hgone => absurd hgone (htakes hslot), fun _ => .inr rfl⟩
  | rejected hslot =>
      exact ⟨fun j h => (by cases h), fun hgone => absurd hgone (htakes hslot), fun _ => .inr rfl⟩
  | _ => exact ⟨fun _ => id, fun hgone => ⟨hgone, rfl⟩, .inl⟩

theorem HalfMove.keepsTurn {s s' : HalfState} (hs : s.Leased) (hmove : HalfMove kind s a s')
    (htaker : ∀ i, a = .operation i .take → s.half.place ≠ .slot) : KeepsTurn s s' := by
  cases hmove with
  | @operation i a h stage hmove =>
      obtain ⟨hplace, hgone, hended, huntaken⟩ :=
        hmove.keepsTurn (hs.holds i) fun ha => htaker i (by rw [ha])
      refine ⟨hplace, hgone, hended, ?_⟩
      intro j hj
      by_cases hji : j = i
      · subst hji
        simp only [Function.update_self] at hj
        exact huntaken hj
      · simpa only [Function.update_of_ne hji] using hj
  | request hr =>
      obtain ⟨hplace, hgone, hended⟩ := (requestStep_move hr).keepsTurn
      exact ⟨hplace, hgone, hended, fun _ => id⟩
  | finish hr =>
      obtain ⟨hplace, hgone, hended⟩ := (finishStep_move (fun _ _ _ => rfl) hr).keepsTurn
      exact ⟨hplace, hgone, hended, fun _ => id⟩

/-- A step in which nobody takes the handle. -/
theorem turnStep_keepsTurn (hs : s.Inv) (h : turnStep kind s a = some s')
    (htaker : s.state.taker a = []) : KeepsTurn s.state s'.state ∧ s'.order = s.order := by
  obtain ⟨hmove, horder⟩ := turnStep_move h
  rw [htaker, List.append_nil] at horder
  refine ⟨hmove.keepsTurn hs.leased ?_, horder⟩
  rintro i rfl hslot
  rw [HalfState.taker, if_pos hslot] at htaker
  cases htaker

/-- Every step keeps the order of the turns. -/
theorem turnStep_inv (s : TurnHalf) (a : HalfAction) (s' : TurnHalf) (hs : s.Inv)
    (h : turnStep kind s a = some s') : s'.Inv := by
  obtain ⟨hmove, horder⟩ := turnStep_move h
  have hleased := hmove.leased hs.leased
  rcases s.state.taker_cases a with htaker | ⟨i, rfl, hslot, htaker⟩
  · obtain ⟨hkeeps, horder⟩ := turnStep_keepsTurn hs h htaker
    refine ⟨hleased, horder ▸ hs.nodup, ?_, ?_, ?_⟩
    · intro i hplace
      rw [horder]
      exact hs.last i (hkeeps.place i hplace)
    · intro i huntaken
      rw [horder]
      exact hs.untaken i (hkeeps.untaken i huntaken)
    · intro hend
      rcases hkeeps.ended hend with hold | hgone
      · exact (hkeeps.gone (hs.ended hold)).1
      · exact hgone
  · -- the handle comes from the slot, where nobody has it
    rw [htaker] at horder
    generalize hstate : s'.state = state at hmove
    cases hmove with
    | @operation _ _ half stage hmove =>
        obtain ⟨huntaken, hplace, hfate, hstage⟩ := hmove.takes hslot
        have hi : i ∉ s.order := hs.untaken i huntaken
        refine ⟨hleased, ?_, ?_, ?_, ?_⟩
        · rw [horder, ← List.concat_eq_append]
          exact hs.nodup.concat hi
        · intro j hj
          rw [hstate] at hj
          obtain rfl := Place.lease.inj (hplace.symm.trans hj)
          rw [horder, List.getLast?_concat]
        · intro j hj
          rw [hstate] at hj
          rw [horder, List.mem_append, List.mem_singleton, not_or]
          have hji : j ≠ i := by
            rintro rfl
            simp only [Function.update_self, hstage] at hj
            exact hj
          refine ⟨hs.untaken j ?_, hji⟩
          simpa only [Function.update_of_ne hji] using hj
        · intro hend
          rw [hstate, hfate] at hend
          have hgone := hs.ended hend
          rw [hslot] at hgone
          cases hgone

/-- A step begins a turn of an operation that has not had one, or none. -/
theorem turnStep_order (hs : s.Inv) (h : turnStep kind s a = some s') :
    s'.order = s.order ∨ ∃ i, i ∉ s.order ∧ s'.order = s.order ++ [i] := by
  obtain ⟨hmove, horder⟩ := turnStep_move h
  rcases s.state.taker_cases a with htaker | ⟨i, rfl, hslot, htaker⟩
  · rw [htaker, List.append_nil] at horder
    exact .inl horder
  · rw [htaker] at horder
    refine .inr ⟨i, ?_, horder⟩
    generalize s'.state = state at hmove
    cases hmove with
    | operation hmove => exact hs.untaken i (hmove.takes hslot).1

/-- An operation leaves its first stage when it begins. -/
theorem turnStep_begin (h : turnStep kind s a = some s') {i : ℕ}
    (hidle : s.state.operations i = .idle) (hi : s'.state.operations i ≠ .idle) :
    a = .operation i .begin := by
  have hmove := (turnStep_move h).1
  generalize s'.state = state at hmove hi
  cases hmove with
  | @operation j a half stage hmove =>
      by_cases hji : i = j
      · subst hji
        rw [hidle] at hmove
        cases hmove <;> rfl
      · simp only [Function.update_of_ne hji] at hi
        exact absurd hidle hi
  | request _ => exact absurd hidle hi
  | finish _ => exact absurd hidle hi

/-- An operation at its `select!` has the last turn. -/
theorem TurnHalf.Inv.select (hs : s.Inv) {i : ℕ} (hi : s.state.operations i = .select) :
    s.order.getLast? = some i :=
  hs.last i ((hs.leased.holds i).mp (by rw [hi]; trivial))

/-- A handle that is gone stays so, with what has become of it. -/
theorem turnStep_gone (hs : s.Inv) (h : turnStep kind s a = some s')
    (hgone : s.state.half.place = .gone) :
    s'.state.half.place = .gone ∧ s'.state.half.fate = s.state.half.fate := by
  rcases s.state.taker_cases a with htaker | ⟨i, -, hslot, -⟩
  · exact (turnStep_keepsTurn hs h htaker).1.gone hgone
  · rw [hgone] at hslot
    cases hslot

end Turn

/-! ### The future of a send -/

/-- The arguments of a `start_stream_send`.  A `Vec` is no longer than
`isize::MAX`. -/
structure SendCall where
  data : Binary
  chunkSize : UInt64
  all : Bool
  fits : data.length < 2 ^ 63

/-- What `start_stream_send` checks before it goes to the half. -/
def SendCall.valid (call : SendCall) : Bool := call.data ≠ [] && call.chunkSize ≠ 0

/-- A write is ready, or ends in another way.  `wrote` is the one `write` of a
send that is not for all of the data: it takes what fits. -/
inductive WriteAction where
  | complete
  | wrote (n : ℕ)
  | interrupt (accepted : ℕ) (how : SendInterrupt)
  deriving DecidableEq, Repr

/-- One end of a write, with what the stream has accepted of it. -/
def writeStep (call : SendCall) (s : SendAll) : WriteAction → Option (SendAll × Binary)
  | .complete =>
      match s.stage with
      | .writing last slice =>
          if call.all then
            some (.head call.data call.chunkSize last (s.slices ++ [slice]), slice)
          else none
      | _ => none
  | .wrote n =>
      match s.stage with
      | .writing _ slice =>
          if !call.all && n ≤ slice.length then
            some ({ s with accepted := slice.take n, stage := .over (.ok (UInt64.ofNat n)) },
              slice.take n)
          else none
      | _ => none
  | .interrupt accepted how =>
      match s.stage with
      | .writing _ slice =>
          some ({ s with accepted := slice.take accepted, stage := how.stage },
            slice.take accepted)
      | _ => none

/-- Every end of a write. -/
inductive WriteMove (call : SendCall) (s : SendAll) : WriteAction → SendAll → Binary → Prop
  | complete {last slice} : s.stage = .writing last slice → call.all = true →
      WriteMove call s .complete (.head call.data call.chunkSize last (s.slices ++ [slice])) slice
  | wrote {last slice n} : s.stage = .writing last slice → call.all = false → n ≤ slice.length →
      WriteMove call s (.wrote n)
        { s with accepted := slice.take n, stage := .over (.ok (UInt64.ofNat n)) } (slice.take n)
  | interrupt {last slice accepted how} : s.stage = .writing last slice →
      WriteMove call s (.interrupt accepted how)
        { s with accepted := slice.take accepted, stage := how.stage } (slice.take accepted)

/-- What holds of the future of a send: where it can write, it is where the loop
has it; what it has sent is the front of its data, and as much as it says. -/
structure SendAll.Sound (call : SendCall) (s : SendAll) : Prop where
  writing : ∀ last slice, s.stage = .writing last slice →
    s.Inv call.data call.chunkSize.toNat ∧ s.accepted = []
  one : call.all = false → s.slices = []
  sent : s.sent <+: call.data
  result : ∀ n, s.stage = .over (.ok n) →
    n.toNat = s.sent.length ∧ (call.all = true → s.sent = call.data)

section Write

variable {call : SendCall} {s s' : SendAll} {a : WriteAction} {bytes : Binary}

theorem writeStep_move (h : writeStep call s a = some (s', bytes)) :
    WriteMove call s a s' bytes := by
  unfold writeStep at h
  split at h
  · split at h
    · next hstage =>
        split at h
        · next hall =>
            obtain ⟨rfl, rfl⟩ := Prod.mk.inj (Option.some.inj h)
            exact .complete hstage hall
        · cases h
    · cases h
  · split at h
    · next hstage =>
        split at h
        · next hone =>
            rw [Bool.and_eq_true, Bool.not_eq_true', decide_eq_true_eq] at hone
            obtain ⟨rfl, rfl⟩ := Prod.mk.inj (Option.some.inj h)
            exact .wrote hstage hone.1 hone.2
        · cases h
    · cases h
  · split at h
    · next hstage =>
        obtain ⟨rfl, rfl⟩ := Prod.mk.inj (Option.some.inj h)
        exact .interrupt hstage
    · cases h

/-- What the stream accepts in a step is what the future has sent in it. -/
theorem WriteMove.sent (hs : s.Sound call) (h : WriteMove call s a s' bytes) :
    s'.sent = s.sent ++ bytes := by
  cases h with
  | complete hstage _ =>
      rw [SendAll.sent, SendAll.sent, (hs.writing _ _ hstage).2]
      show (s.slices ++ [_]).flatten ++ [] = _
      rw [List.flatten_append, List.flatten_singleton, List.append_nil, List.append_nil]
  | wrote hstage _ _ => rw [SendAll.sent, SendAll.sent, (hs.writing _ _ hstage).2, List.append_nil]
  | interrupt hstage => rw [SendAll.sent, SendAll.sent, (hs.writing _ _ hstage).2, List.append_nil]

/-- The slice being written comes next in the data. -/
theorem SendAll.Inv.next {data : Binary} {size : ℕ} (hs : s.Inv data size) {last : UInt64}
    {slice : Binary} (hstage : s.stage = .writing last slice) :
    s.slices.flatten ++ slice <+: data := by
  obtain ⟨-, -, -, hslice⟩ := hs.writing hstage
  rw [hs.flatten, hslice, ← List.take_add]
  exact List.take_prefix _ _

theorem SendAll.Sound.part (hs : s.Sound call) {last : UInt64} {slice : Binary}
    (hstage : s.stage = .writing last slice) (n : ℕ) :
    s.slices.flatten ++ slice.take n <+: call.data := by
  refine List.IsPrefix.trans ?_ ((hs.writing _ _ hstage).1.next hstage)
  exact (List.prefix_append_right_inj _).mpr (List.take_prefix _ _)

theorem sendAll_start_sound (call : SendCall) :
    (SendAll.start call.data call.chunkSize).Sound call := by
  have hinv : (SendAll.start call.data call.chunkSize).Inv call.data call.chunkSize.toNat :=
    sendAll_start_inv call.fits
  refine ⟨fun last slice _ => ⟨hinv, rfl⟩, fun _ => rfl, List.nil_prefix, ?_⟩
  intro n hstage
  have hover := hinv.stage
  rw [hstage] at hover
  obtain ⟨hn, hle⟩ := hover
  -- the loop that is over at once has nothing to send
  have hnil : call.data = [] := by
    apply List.eq_nil_of_length_eq_zero
    have hzero : (SendAll.start call.data call.chunkSize).slices.length = 0 := rfl
    rw [hzero, Nat.zero_mul] at hle
    exact Nat.le_zero.mp hle
  refine ⟨?_, fun _ => hnil.symm⟩
  rw [hn, hnil]
  rfl

/-- Every end of a write keeps the future sound. -/
theorem WriteMove.sound (hvalid : call.valid = true) (hs : s.Sound call)
    (h : WriteMove call s a s' bytes) : s'.Sound call := by
  have hchunk : 0 < call.chunkSize.toNat := by
    rw [SendCall.valid, Bool.and_eq_true, decide_eq_true_eq, decide_eq_true_eq] at hvalid
    apply Nat.pos_of_ne_zero
    intro hzero
    exact hvalid.2 (UInt64.toNat_inj.mp hzero)
  cases h with
  | @complete last _ hstage hall =>
      have hinv : (SendAll.head call.data call.chunkSize last (s.slices ++ [bytes])).Inv call.data
          call.chunkSize.toNat := by
        apply sendAllStep_inv call.fits hchunk s .complete _ (hs.writing _ _ hstage).1
        simp only [sendAllStep, hstage]
      have hsent : (SendAll.head call.data call.chunkSize last (s.slices ++ [bytes])).sent =
          (SendAll.head call.data call.chunkSize last (s.slices ++ [bytes])).slices.flatten :=
        List.append_nil _
      refine ⟨fun _ _ _ => ⟨hinv, rfl⟩, fun h => ?_, ?_, ?_⟩
      · rw [hall] at h
        cases h
      · rw [hsent, hinv.flatten]
        exact List.take_prefix _ _
      · intro n hover
        obtain ⟨hn, hwhole, -⟩ := hinv.over hchunk hover
        rw [hsent, hwhole]
        exact ⟨hn, fun _ => rfl⟩
  | @wrote last slice n hstage hall hn =>
      refine ⟨fun _ _ h => (by cases h), hs.one, hs.part hstage n, ?_⟩
      intro m hover
      obtain rfl := Except.ok.inj (SendStage.over.inj hover)
      refine ⟨?_, fun h => absurd (hall.symm.trans h) (by decide)⟩
      -- the slice is the front of the data, whose length a `usize` can hold
      have hslice : slice.length ≤ call.data.length := by
        have hpart := hs.part hstage slice.length
        rw [hs.one hall, List.take_length] at hpart
        exact hpart.length_le
      have hfits := call.fits
      rw [UInt64.toNat_ofNat_of_lt' (show n < UInt64.size by
        rw [UInt64.size]
        omega)]
      show n = (s.slices.flatten ++ slice.take n).length
      rw [hs.one hall, List.flatten_nil, List.nil_append, List.length_take, min_eq_left hn]
  | @interrupt last slice accepted how hstage =>
      refine ⟨?_, hs.one, hs.part hstage accepted, ?_⟩
      · intro _ _ hover
        cases how <;> cases hover
      · intro _ hover
        cases how <;> cases hover

end Write

/-! ### All sends -/

/-- A send half with the futures of its sends and all its stream has accepted. -/
structure Senders where
  half : TurnHalf
  sends : ℕ → SendAll
  wire : Binary

def Senders.init (calls : ℕ → SendCall) : Senders :=
  { half := .init, sends := fun i => .start (calls i).data (calls i).chunkSize, wire := [] }

/-- The `select!` has ended with the result of the write. -/
def SendStage.isOk : SendStage → Bool
  | .over (.ok _) => true
  | _ => false

/-- The steps on the half that a send takes without a write.  A send that is
refused for its arguments does not begin; a `select!` ends by itself when the
future is over. -/
def Senders.allows (calls : ℕ → SendCall) (s : Senders) : HalfAction → Bool
  | .operation i .begin => (calls i).valid
  | .operation i .ended => (s.sends i).stage.isOk
  | .operation _ .notified => false
  | _ => true

/-- How the `select!` ends when a write is interrupted: by the branch of the
write, by that of the notification, or with its task. -/
def SendInterrupt.lease : SendInterrupt → LeaseAction
  | .failed | .dropped => .ended
  | .reset => .notified

inductive SendersAction where
  | half (a : HalfAction)
  | complete (i : ℕ)
  | wrote (i n : ℕ)
  | interrupt (i accepted : ℕ) (how : SendInterrupt)
  deriving DecidableEq, Repr

/-- The end of a write of send `i`. -/
def Senders.write (calls : ℕ → SendCall) (s : Senders) (i : ℕ) (a : WriteAction) :
    Option Senders :=
  if s.half.state.operations i = .select then
    (writeStep (calls i) (s.sends i) a).map fun r =>
      { s with sends := Function.update s.sends i r.1, wire := s.wire ++ r.2 }
  else none

/-- One step of any party. -/
def sendersStep (calls : ℕ → SendCall) (s : Senders) : SendersAction → Option Senders
  | .half a =>
      if s.allows calls a then (turnStep .send s.half a).map fun half => { s with half }
      else none
  | .complete i => s.write calls i .complete
  | .wrote i n => s.write calls i (.wrote n)
  | .interrupt i accepted how =>
      (s.write calls i (.interrupt accepted how)).bind fun s =>
        (turnStep .send s.half (.operation i how.lease)).map fun half => { s with half }

/-- Every step: one on the half, or one of the writer, or both. -/
theorem sendersStep_keeps {calls : ℕ → SendCall} {P : Senders → Prop}
    (hhalf : ∀ s a half, P s → (∀ i, a = .operation i .begin → (calls i).valid = true) →
      turnStep .send s.half a = some half → P { s with half })
    (hwrite : ∀ s i a s', P s → Senders.write calls s i a = some s' → P s')
    (s : Senders) (a : SendersAction) (s' : Senders) (hs : P s)
    (h : sendersStep calls s a = some s') : P s' := by
  cases a with
  | half a =>
      simp only [sendersStep] at h
      split at h
      · next hallows =>
          obtain ⟨half, hturn, rfl⟩ := Option.map_eq_some_iff.mp h
          refine hhalf s a half hs ?_ hturn
          rintro i rfl
          exact hallows
      · cases h
  | complete i => exact hwrite s i _ s' hs h
  | wrote i n => exact hwrite s i _ s' hs h
  | interrupt i _ how =>
      obtain ⟨t, ht, h⟩ := Option.bind_eq_some_iff.mp h
      obtain ⟨half, hturn, rfl⟩ := Option.map_eq_some_iff.mp h
      refine hhalf t _ half (hwrite s i _ t hs ht) ?_ hturn
      intro j hj
      cases how <;> cases hj

/-- What the sends have come to. -/
structure Senders.Inv (calls : ℕ → SendCall) (s : Senders) : Prop where
  half : s.half.Inv
  /-- A send that has begun was not refused for its arguments. -/
  valid : ∀ i, s.half.state.operations i ≠ .idle → (calls i).valid = true
  sound : ∀ i, (s.sends i).Sound (calls i)
  record : Turns.Record s.half.order (SendAll.sent ∘ s.sends) s.wire

section System

variable {calls : ℕ → SendCall}

theorem senders_init_inv (calls : ℕ → SendCall) : (Senders.init calls).Inv calls where
  half := turnHalf_init_inv
  valid _ h := absurd rfl h
  sound i := sendAll_start_sound (calls i)
  record := .init fun _ => rfl

/-- A step of the half gives a turn, or nothing changes. -/
theorem Senders.Inv.turn {s : Senders} (hs : s.Inv calls) {a : HalfAction} {half : TurnHalf}
    (hbegin : ∀ i, a = .operation i .begin → (calls i).valid = true)
    (hturn : turnStep .send s.half a = some half) : { s with half }.Inv calls := by
  refine ⟨turnStep_inv s.half a half hs.half hturn, ?_, hs.sound, ?_⟩
  · intro i hi
    by_cases hidle : s.half.state.operations i = .idle
    · exact hbegin i (turnStep_begin hturn hidle hi)
    · exact hs.valid i hidle
  · show Turns.Record half.order (SendAll.sent ∘ s.sends) s.wire
    rcases turnStep_order hs.half hturn with horder | ⟨i, hi, horder⟩
    · rw [horder]
      exact hs.record
    · rw [horder]
      exact hs.record.begin hi

/-- The end of a write adds to the last turn. -/
theorem Senders.Inv.write {s s' : Senders} (hs : s.Inv calls) {i : ℕ} {a : WriteAction}
    (h : s.write calls i a = some s') : s'.Inv calls := by
  unfold Senders.write at h
  split at h
  · next hselect =>
      obtain ⟨⟨send, bytes⟩, hwrite, rfl⟩ := Option.map_eq_some_iff.mp h
      have hmove := writeStep_move hwrite
      have hvalid := hs.valid i (by simp [hselect])
      refine ⟨hs.half, hs.valid, ?_, ?_⟩
      · apply (Function.forall_update_iff s.sends fun j send => send.Sound (calls j)).mpr
        exact ⟨hmove.sound hvalid (hs.sound i), fun j _ => hs.sound j⟩
      · show Turns.Record s.half.order (SendAll.sent ∘ Function.update s.sends i send) _
        rw [Function.comp_update, hmove.sent (hs.sound i)]
        exact hs.record.extend (hs.half.select hselect) bytes
  · cases h

theorem sendersStep_inv (s : Senders) (a : SendersAction) (s' : Senders) (hs : s.Inv calls)
    (h : sendersStep calls s a = some s') : s'.Inv calls :=
  sendersStep_keeps (fun _ _ _ hs hbegin hturn => hs.turn hbegin hturn)
    (fun _ _ _ _ hs hwrite => hs.write hwrite) s a s' hs h

/-- Nothing that was written is taken back. -/
theorem sendersStep_wire {wire : Binary} (s : Senders) (a : SendersAction) (s' : Senders)
    (hs : wire <+: s.wire) (h : sendersStep calls s a = some s') : wire <+: s'.wire := by
  refine sendersStep_keeps (P := fun s => wire <+: s.wire) (fun _ _ _ h _ _ => h) ?_ s a s' hs h
  intro s i a s' hs hwrite
  unfold Senders.write at hwrite
  split at hwrite
  · obtain ⟨r, -, rfl⟩ := Option.map_eq_some_iff.mp hwrite
    exact hs.trans (List.prefix_append _ _)
  · cases hwrite

/-- Once the handle is gone, nothing more is written. -/
theorem sendersStep_gone {wire : Binary} {fate : Fate} (s : Senders) (a : SendersAction)
    (s' : Senders) (hs : s.Inv calls ∧ s.half.state.half.place = .gone ∧ s.wire = wire ∧
      s.half.state.half.fate = fate)
    (h : sendersStep calls s a = some s') :
    s'.Inv calls ∧ s'.half.state.half.place = .gone ∧ s'.wire = wire ∧
      s'.half.state.half.fate = fate := by
  refine sendersStep_keeps (P := fun s => s.Inv calls ∧ s.half.state.half.place = .gone ∧
    s.wire = wire ∧ s.half.state.half.fate = fate) ?_ ?_ s a s' hs h
  · rintro s a half ⟨hs, hgone, hwire, hfate⟩ hbegin hturn
    obtain ⟨hgone', hfate'⟩ := turnStep_gone hs.half hturn hgone
    exact ⟨hs.turn hbegin hturn, hgone', hwire, hfate'.trans hfate⟩
  · rintro s i a s' ⟨hs, hgone, -⟩ hwrite
    exfalso
    unfold Senders.write at hwrite
    split at hwrite
    · next hselect =>
        have hlease := (hs.half.leased.holds i).mp (by rw [hselect]; trivial)
        rw [hgone] at hlease
        cases hlease
    · cases hwrite

end System

/-- The sends have taken turns at the stream. -/
structure Senders.Serial (calls : ℕ → SendCall) (s : Senders) : Prop where
  once : s.half.order.Nodup
  wire : s.wire = s.half.order.flatMap fun i => (s.sends i).sent
  /-- Only the last that has taken the handle may still write. -/
  last : ∀ i, s.half.state.operations i = .select → s.half.order.getLast? = some i
  sent : ∀ i, (s.sends i).sent <+: (calls i).data
  refused : ∀ i e, s.half.state.operations i = .over (some e) → (s.sends i).sent = []
  result : ∀ i n, (s.sends i).stage = .over (.ok n) →
    n.toNat = (s.sends i).sent.length ∧ ((calls i).all = true → (s.sends i).sent = (calls i).data)
  /-- If all but the last have written all of their data, so has the stream. -/
  whole : ∀ i, s.half.order.getLast? = some i →
    (∀ j ∈ s.half.order.dropLast, (calls j).all = true ∧ (s.sends j).stage.isOk = true) →
    s.wire = (s.half.order.dropLast.flatMap fun j => (calls j).data) ++ (s.sends i).sent

theorem SendStage.isOk_iff {stage : SendStage} :
    stage.isOk = true ↔ ∃ n, stage = .over (.ok n) := by
  unfold SendStage.isOk
  split
  · next n => exact ⟨fun _ => ⟨n, rfl⟩, fun _ => rfl⟩
  · next hnot => exact ⟨fun h => (by cases h), fun ⟨n, h⟩ => absurd h (hnot n)⟩

theorem Senders.Inv.serial {calls : ℕ → SendCall} {s : Senders} (hs : s.Inv calls) :
    s.Serial calls where
  once := hs.record.nodup
  wire := hs.record.log
  last _ hi := hs.half.select hi
  sent i := (hs.sound i).sent
  refused i e hi := hs.record.outside i (hs.half.untaken i (by rw [hi]; trivial))
  result i n hn := (hs.sound i).result n hn
  whole i hlast hdone := by
    refine hs.record.log_of_done ?_ hlast
    intro j hj
    obtain ⟨hall, hok⟩ := hdone j hj
    obtain ⟨n, hn⟩ := SendStage.isOk_iff.mp hok
    exact ((hs.sound j).result n hn).2 hall

/-- **Concurrent sends take turns.**  Whatever sends, resets and finishes do on a
send half, and however their writes end: the stream has the bytes of one send
after those of another, in the order in which they have taken the handle; each
has written the front of its data and as much as its result says, one that was
refused nothing; and once the handle is gone the stream stays as it is. -/
theorem sends_take_turns {calls : ℕ → SendCall} {as : List SendersAction} {s : Senders}
    (h : run (sendersStep calls) (.init calls) as = some s) :
    s.Serial calls ∧
      (s.half.state.half.place = .gone →
        ∀ bs t, run (sendersStep calls) s bs = some t → t.wire = s.wire) := by
  have hs : s.Inv calls := run_invariant sendersStep_inv h (senders_init_inv calls)
  refine ⟨hs.serial, ?_⟩
  intro hgone bs t ht
  exact (run_invariant sendersStep_gone ht ⟨hs, hgone, rfl, rfl⟩).2.2.1

/-- Three bytes and one. -/
def sampleCalls (i : ℕ) : SendCall :=
  if i = 0 then ⟨[1, 2, 3], 2, true, by decide⟩ else ⟨[9], 2, true, by decide⟩

/-- Send 0 has written two of its three bytes when send 1 is refused; its second
write is interrupted after none. -/
def sampleSends : List SendersAction :=
  [.half (.operation 0 .begin), .half (.operation 0 .claim), .half (.operation 0 .take),
    .complete 0, .half (.operation 1 .begin), .half (.operation 1 .claim),
    .interrupt 0 0 .dropped, .half (.operation 0 .dropBusy), .half (.operation 0 .loadClosed),
    .half (.operation 0 .store), .half (.operation 2 .begin), .half (.operation 2 .claim),
    .half (.operation 2 .take), .complete 2, .half (.operation 2 .ended)]

theorem sends_take_turns_sample :
    ∃ s, run (sendersStep sampleCalls) (.init sampleCalls) sampleSends = some s ∧
      s.Serial sampleCalls ∧ s.half.order = [0, 2] ∧ s.wire = [1, 2, 9] := by
  obtain ⟨s, hrun, horder, hwire⟩ :
      ∃ s, run (sendersStep sampleCalls) (.init sampleCalls) sampleSends = some s ∧
        s.half.order = [0, 2] ∧ s.wire = [1, 2, 9] := ⟨_, rfl, rfl, rfl⟩
  exact ⟨s, hrun, (sends_take_turns hrun).1, horder, hwire⟩

end IrohBeam
