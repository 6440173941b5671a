/-
IrohBeam/StreamInfo.lean

What `stream_info` says of the direction of a stream
(`native/iroh_beam_nif/src/stream.rs`).

The direction is not stored.  `stream_info` takes a half for present if its slot
is full or its busy flag is set, and calls a stream bidirectional if both halves
are.  It looks at the two slots and the flags one after the other, each behind
its own lock, while operations, finishes and requests go on
(`IrohBeam/StreamReset.lean`).

Of a half that is not there nothing is ever found, so a stream made with one
half is called unidirectional.  Of a stream made with both, a half is missed by
the load of its flag: because it has been closed, or because its handle is on
its way back to the slot.  `stream_direction_iff` says that there is no other
way.
-/
import IrohBeam.NeverBusy

namespace IrohBeam

open Transition

/-! ### A stream -/

inductive StreamDirection where
  | uni | bi
  deriving DecidableEq, Repr

/-- What `stream_info` returns. -/
structure StreamInfo where
  id : ℕ
  direction : StreamDirection
  send : Bool
  recv : Bool
  sendClosed : Bool
  recvClosed : Bool
  deriving DecidableEq, Repr

/-- Where a `stream_info` is: what it looks at next, with what it has seen. -/
inductive InfoStage where
  | send
  | sendBusy
  | recv (hasSend : Bool)
  | recvBusy (hasSend : Bool)
  | sendClosed (hasSend hasRecv : Bool)
  | recvClosed (hasSend hasRecv sendClosed : Bool)
  | over (info : StreamInfo)
  deriving DecidableEq, Repr

/-- A stream with what goes on around it.  `created` records the halves it was
made with. -/
structure WrappedStream where
  id : ℕ
  created : HalfKind → Bool
  halves : HalfKind → HalfState
  infos : ℕ → InfoStage

/-- The slot of a half the stream does not have. -/
def HalfState.absent : HalfState :=
  { HalfState.init with half := { StreamHalf.init with place := .gone } }

/-- The halves a stream is made with. -/
def createdWith (send recv : Option ℕ) : HalfKind → Bool
  | .send => send.isSome
  | .recv => recv.isSome

/-- `wrap_stream`, from the identifiers of the halves. -/
def wrapStream (operation : OperationName) (send recv : Option ℕ) :
    Except Error WrappedStream :=
  match send.or recv with
  | some id =>
      .ok
        { id
          created := createdWith send recv
          halves := fun kind => if createdWith send recv kind then .init else .absent
          infos := fun _ => .send }
  | none => .error ⟨.internal, operation, "stream has no halves"⟩

/-- One access of a `stream_info`. -/
def infoStep (s : WrappedStream) : InfoStage → Option InfoStage
  | .send =>
      if (s.halves .send).half.place = .slot then some (.recv true) else some .sendBusy
  | .sendBusy => some (.recv (s.halves .send).half.busy)
  | .recv hasSend =>
      if (s.halves .recv).half.place = .slot then some (.sendClosed hasSend true)
      else some (.recvBusy hasSend)
  | .recvBusy hasSend => some (.sendClosed hasSend (s.halves .recv).half.busy)
  | .sendClosed hasSend hasRecv =>
      some (.recvClosed hasSend hasRecv (s.halves .send).half.closed)
  | .recvClosed hasSend hasRecv sendClosed =>
      some (.over
        { id := s.id
          direction := if hasSend && hasRecv then .bi else .uni
          send := hasSend
          recv := hasRecv
          sendClosed
          recvClosed := (s.halves .recv).half.closed })
  | .over _ => none

inductive WrappedAction where
  | half (kind : HalfKind) (a : HalfAction)
  | info (n : ℕ)
  deriving DecidableEq, Repr

/-- An abort makes its requests on both halves; everything else is for a half
that is there, which `send?` and `recv?` in `IrohBeam.Stream` see to. -/
def HalfAction.isRequest : HalfAction → Bool
  | .request _ _ => true
  | _ => false

/-- One step of any party. -/
def wrappedStep (s : WrappedStream) : WrappedAction → Option WrappedStream
  | .half kind a =>
      if s.created kind || a.isRequest then
        (halfStep kind (s.halves kind) a).map fun half =>
          { s with halves := Function.update s.halves kind half }
      else none
  | .info n => (infoStep s (s.infos n)).map fun stage =>
      { s with infos := Function.update s.infos n stage }

/-- The stream was made with both halves. -/
def WrappedStream.Both (s : WrappedStream) : Prop := ∀ kind, s.created kind = true

/-- The side condition.  A `stream_info` of a stream with both halves that has
found a slot empty finds the flag set. -/
def FindsFlag (s : WrappedStream) : WrappedAction → Prop
  | .half _ _ => True
  | .info n => s.Both →
      (s.infos n = .sendBusy → (s.halves .send).half.busy = true) ∧
        ∀ hasSend, s.infos n = .recvBusy hasSend → (s.halves .recv).half.busy = true

/-! ### What has been seen -/

/-- A `stream_info` sees no half that the stream was not made with. -/
def InfoStage.Sees (created : HalfKind → Bool) (id : ℕ) : InfoStage → Prop
  | .send | .sendBusy => True
  | .recv hasSend | .recvBusy hasSend => hasSend = true → created .send = true
  | .sendClosed hasSend hasRecv | .recvClosed hasSend hasRecv _ =>
      (hasSend = true → created .send = true) ∧ (hasRecv = true → created .recv = true)
  | .over info =>
      info.id = id ∧ (info.direction = .bi ↔ info.send = true ∧ info.recv = true) ∧
        (info.send = true → created .send = true) ∧ (info.recv = true → created .recv = true)

/-- A `stream_info` has missed a half. -/
def InfoStage.Misses : InfoStage → Prop
  | .send | .sendBusy => False
  | .recv hasSend | .recvBusy hasSend => hasSend = false
  | .sendClosed hasSend hasRecv | .recvClosed hasSend hasRecv _ =>
      hasSend = false ∨ hasRecv = false
  | .over info => info.send = false ∨ info.recv = false

/-- A half the stream was not made with is not there and nobody takes it. -/
structure WrappedStream.Inv (id : ℕ) (created : HalfKind → Bool) (s : WrappedStream) : Prop where
  same : s.id = id ∧ s.created = created
  leased : ∀ kind, (s.halves kind).Leased
  absent : ∀ kind, created kind = false →
    (s.halves kind).half.place = .gone ∧ (s.halves kind).half.busy = false
  infos : ∀ n, (s.infos n).Sees created id

section Step

variable {id : ℕ} {created : HalfKind → Bool} {s s' : WrappedStream} {a : WrappedAction}
  {stage stage' : InfoStage}

/-- A request on a half that is not there finds nothing to take. -/
theorem RequestMove.absent {h h' : StreamHalf} {a : RequestAction} {stage stage' : RequestStage}
    (hmove : RequestMove h a stage h' stage') (hgone : h.place = .gone) :
    h'.place = .gone ∧ h'.busy = h.busy := by
  cases hmove with
  | take hslot =>
      rw [hgone] at hslot
      cases hslot
  | _ => exact ⟨hgone, rfl⟩

theorem absent_leased : HalfState.absent.Leased where
  busy := .clear fun _ h => h
  holds _ := ⟨fun h => h.elim, fun h => by cases h⟩

/-- What an access sees is there. -/
theorem WrappedStream.Inv.seen (h : s.Inv id created) {kind : HalfKind}
    (hseen : (s.halves kind).half.place = .slot ∨ (s.halves kind).half.busy = true) :
    created kind = true := by
  by_contra hnot
  obtain ⟨hplace, hbusy⟩ := h.absent kind (Bool.not_eq_true _ ▸ hnot)
  rcases hseen with hslot | hset
  · rw [hplace] at hslot
    cases hslot
  · rw [hbusy] at hset
    cases hset

theorem WrappedStream.Inv.infoStep (h : s.Inv id created) (hstage : stage.Sees created id)
    (hstep : infoStep s stage = some stage') : stage'.Sees created id := by
  cases stage with
  | send =>
      simp only [IrohBeam.infoStep] at hstep
      split at hstep
      · next hslot =>
          obtain rfl := Option.some.inj hstep
          exact fun _ => h.seen (.inl hslot)
      · obtain rfl := Option.some.inj hstep
        exact trivial
  | sendBusy =>
      obtain rfl := Option.some.inj hstep
      exact fun hset => h.seen (.inr hset)
  | recv hasSend =>
      simp only [IrohBeam.infoStep] at hstep
      split at hstep
      · next hslot =>
          obtain rfl := Option.some.inj hstep
          exact ⟨hstage, fun _ => h.seen (.inl hslot)⟩
      · obtain rfl := Option.some.inj hstep
        exact hstage
  | recvBusy hasSend =>
      obtain rfl := Option.some.inj hstep
      exact ⟨hstage, fun hset => h.seen (.inr hset)⟩
  | sendClosed hasSend hasRecv =>
      obtain rfl := Option.some.inj hstep
      exact hstage
  | recvClosed hasSend hasRecv sendClosed =>
      obtain rfl := Option.some.inj hstep
      refine ⟨h.same.1, ?_, hstage⟩
      cases hasSend <;> cases hasRecv <;> simp
  | _ => cases hstep

/-- A look at a half misses it exactly by the load of a clear flag. -/
theorem infoStep_misses_iff (hstep : infoStep s stage = some stage') :
    stage'.Misses ↔ stage.Misses ∨
      (stage = .sendBusy ∧ (s.halves .send).half.busy = false) ∨
        (∃ hasSend, stage = .recvBusy hasSend) ∧ (s.halves .recv).half.busy = false := by
  cases stage with
  | send =>
      simp only [infoStep] at hstep
      split at hstep <;> obtain rfl := Option.some.inj hstep <;> simp [InfoStage.Misses]
  | sendBusy =>
      obtain rfl := Option.some.inj hstep
      simp [InfoStage.Misses]
  | recv hasSend =>
      simp only [infoStep] at hstep
      split at hstep <;> obtain rfl := Option.some.inj hstep <;> simp [InfoStage.Misses]
  | recvBusy hasSend =>
      obtain rfl := Option.some.inj hstep
      simp [InfoStage.Misses]
  | sendClosed hasSend hasRecv =>
      obtain rfl := Option.some.inj hstep
      simp [InfoStage.Misses]
  | recvClosed hasSend hasRecv sendClosed =>
      obtain rfl := Option.some.inj hstep
      simp [InfoStage.Misses]
  | _ => cases hstep

theorem WrappedStream.Inv.half (h : s.Inv id created) {kind : HalfKind} {act : HalfAction}
    {half : HalfState} (hallowed : (s.created kind || act.isRequest) = true)
    (hstep : halfStep kind (s.halves kind) act = some half) :
    WrappedStream.Inv id created { s with halves := Function.update s.halves kind half } := by
  have hmove : HalfMove kind (s.halves kind) act half := halfStep_move hstep
  refine ⟨h.same, ?_, ?_, h.infos⟩
  · intro k
    by_cases hk : k = kind
    · subst hk
      simp only [Function.update_self]
      exact hmove.leased (h.leased k)
    · simp only [Function.update_of_ne hk]
      exact h.leased k
  · intro k hcreated
    by_cases hk : k = kind
    · subst hk
      obtain ⟨hplace, hbusy⟩ := h.absent k hcreated
      rw [h.same.2, hcreated, Bool.false_or] at hallowed
      simp only [Function.update_self]
      -- only the requests of an abort reach a half the stream was not made with
      cases hmove with
      | request hr =>
          obtain ⟨hplace', hbusy'⟩ := (requestStep_move hr).absent hplace
          exact ⟨hplace', hbusy'.trans hbusy⟩
      | operation _ => cases hallowed
      | finish _ => cases hallowed
    · simp only [Function.update_of_ne hk]
      exact h.absent k hcreated

theorem wrappedStep_inv (s : WrappedStream) (a : WrappedAction) (s' : WrappedStream)
    (h : s.Inv id created) (hstep : wrappedStep s a = some s') : s'.Inv id created := by
  cases a with
  | half kind act =>
      simp only [wrappedStep] at hstep
      split at hstep
      · next hallowed =>
          obtain ⟨half, hhalf, rfl⟩ := Option.map_eq_some_iff.mp hstep
          exact h.half hallowed hhalf
      · cases hstep
  | info n =>
      obtain ⟨stage, hstage, rfl⟩ := Option.map_eq_some_iff.mp hstep
      refine ⟨h.same, h.leased, h.absent, ?_⟩
      intro m
      by_cases hm : m = n
      · subst hm
        simp only [Function.update_self]
        exact h.infoStep (h.infos m) hstage
      · simp only [Function.update_of_ne hm]
        exact h.infos m

/-- No `stream_info` of a stream with both halves has missed one. -/
def WrappedStream.NoneMissed (s : WrappedStream) : Prop := s.Both → ∀ n, ¬ (s.infos n).Misses

theorem wrappedStep_missed_iff (s : WrappedStream) (a : WrappedAction) (s' : WrappedStream)
    (_ : s.Inv id created) (hstep : wrappedStep s a = some s') :
    s'.NoneMissed ↔ s.NoneMissed ∧ FindsFlag s a := by
  cases a with
  | half kind act =>
      simp only [wrappedStep] at hstep
      split at hstep
      · obtain ⟨half, -, rfl⟩ := Option.map_eq_some_iff.mp hstep
        -- no `stream_info` has moved
        exact (and_iff_left trivial).symm
      · cases hstep
  | info n =>
      obtain ⟨stage, hstage, rfl⟩ := Option.map_eq_some_iff.mp hstep
      have hmisses := infoStep_misses_iff hstage
      constructor
      · intro hnone
        refine ⟨?_, ?_⟩
        · intro hboth m
          have hm := hnone hboth m
          by_cases heq : m = n
          · subst heq
            simp only [Function.update_self, hmisses, not_or] at hm
            exact hm.1
          · simpa only [Function.update_of_ne heq] using hm
        · intro hboth
          have hn := hnone hboth n
          simp only [Function.update_self, hmisses, not_or, not_and, Bool.not_eq_false] at hn
          exact ⟨hn.2.1, fun hasSend h => hn.2.2 ⟨hasSend, h⟩⟩
      · rintro ⟨hnone, hfinds⟩ hboth m
        by_cases heq : m = n
        · subst heq
          obtain ⟨hsend, hrecv⟩ := hfinds hboth
          simp only [Function.update_self, hmisses, not_or, not_and, Bool.not_eq_false]
          exact ⟨hnone hboth m, hsend, fun ⟨hasSend, h⟩ => hrecv hasSend h⟩
        · simpa only [Function.update_of_ne heq] using hnone hboth m

end Step

/-! ### The direction -/

/-- The report is the direction the stream was made with. -/
def StreamInfo.Right (info : StreamInfo) (send recv : Option ℕ) : Prop :=
  info.direction = .bi ↔ send.isSome = true ∧ recv.isSome = true

section Reports

variable {operation : OperationName} {send recv : Option ℕ} {s₀ s : WrappedStream}
  {as : List WrappedAction}

theorem wrapStream_inv (h : wrapStream operation send recv = .ok s₀) :
    send.or recv = some s₀.id ∧ s₀.Inv s₀.id (createdWith send recv) ∧
      ∀ n, s₀.infos n = .send := by
  unfold wrapStream at h
  split at h
  · next id hid =>
      obtain rfl := Except.ok.inj h
      refine ⟨hid, ⟨⟨rfl, rfl⟩, ?_, ?_, fun _ => trivial⟩, fun _ => rfl⟩
      · intro kind
        show HalfState.Leased (if _ then _ else _)
        split
        · exact leased_init
        · exact absent_leased
      · intro kind hcreated
        simp only [hcreated]
        exact ⟨rfl, rfl⟩
  · cases h

theorem WrappedStream.Inv.both_iff (h : s.Inv s₀.id (createdWith send recv)) :
    s.Both ↔ send.isSome = true ∧ recv.isSome = true := by
  rw [WrappedStream.Both, h.same.2]
  constructor
  · intro hboth
    exact ⟨hboth .send, hboth .recv⟩
  · rintro ⟨hsend, hrecv⟩ kind
    cases kind with
    | send => exact hsend
    | recv => exact hrecv

/-- A report is right exactly if it has missed no half of a stream with both. -/
theorem WrappedStream.Inv.right_iff (h : s.Inv s₀.id (createdWith send recv)) {n : ℕ}
    {info : StreamInfo} (hover : s.infos n = .over info) :
    info.Right send recv ↔ (s.Both → ¬ (s.infos n).Misses) := by
  have hsees := h.infos n
  rw [hover] at hsees
  obtain ⟨-, hdirection, hsend, hrecv⟩ := hsees
  rw [StreamInfo.Right, hdirection, h.both_iff, hover, InfoStage.Misses]
  constructor
  · intro hiff hboth
    obtain ⟨hs, hr⟩ := hiff.mpr hboth
    simp [hs, hr]
  · intro hnone
    constructor
    · rintro ⟨hs, hr⟩
      exact ⟨hsend hs, hrecv hr⟩
    · intro hboth
      simpa [not_or] using hnone hboth

/-- A half that is found neither in its slot nor claimed is gone, or its handle
is in a lease that is being dropped. -/
theorem HalfState.Leased.unseen {h : HalfState} (hleased : h.Leased) (hplace : h.half.place ≠ .slot)
    (hbusy : h.half.busy = false) :
    h.half.place = .gone ∨ ∃ i, h.half.place = .lease i ∧
      (h.operations i = .loadClosed ∨ h.operations i = .store ∨ h.operations i = .discard) := by
  cases hp : h.half.place with
  | slot => exact absurd hp hplace
  | gone => exact Or.inl rfl
  | lease i =>
      refine Or.inr ⟨i, rfl, ?_⟩
      have hholds := (hleased.holds i).mpr hp
      have hclear : ¬ (h.operations i).Claims := by
        intro hclaims
        have hset := hleased.busy.set i hclaims
        rw [hbusy] at hset
        cases hset
      cases hstage : h.operations i with
      | loadClosed => exact Or.inl rfl
      | store => exact Or.inr (Or.inl rfl)
      | discard => exact Or.inr (Or.inr rfl)
      | select | reset | dropBusy =>
          rw [hstage] at hclear
          exact absurd trivial hclear
      | _ =>
          rw [hstage] at hholds
          exact hholds.elim

/-- What the reports on a stream say after the steps `as`. -/
structure DirectionReports (send recv : Option ℕ) (s₀ : WrappedStream) (as : List WrappedAction)
    (s : WrappedStream) : Prop where
  /-- The identifier is always that of the stream. -/
  id : ∀ n info, s.infos n = .over info → send.or recv = some info.id
  /-- The direction is right if the side condition has been met, -/
  right : Meets wrappedStep FindsFlag s₀ as →
    ∀ n info, s.infos n = .over info → info.Right send recv
  /-- and only then. -/
  onlyIf : (∀ n, s.infos n = .send ∨ ∃ info, s.infos n = .over info) →
    (∀ n info, s.infos n = .over info → info.Right send recv) → Meets wrappedStep FindsFlag s₀ as
  /-- The side condition is missed where a half is gone or on its way back. -/
  unseen : ∀ kind, (s.halves kind).half.place ≠ .slot → (s.halves kind).half.busy = false →
    (s.halves kind).half.place = .gone ∨ ∃ i, (s.halves kind).half.place = .lease i ∧
      ((s.halves kind).operations i = .loadClosed ∨ (s.halves kind).operations i = .store ∨
        (s.halves kind).operations i = .discard)

/-- **The direction of a stream.**  However sends, receives, finishes, resets,
stops, aborts and lease drops interleave with it, `stream_info` says what the
stream was made with if and only if it misses no half of a stream with both. -/
theorem stream_direction_iff (hwrap : wrapStream operation send recv = .ok s₀)
    (h : run wrappedStep s₀ as = some s) : DirectionReports send recv s₀ as s := by
  obtain ⟨hid, hinit, hfresh⟩ := wrapStream_inv hwrap
  have hinv : s.Inv s₀.id (createdWith send recv) := run_invariant wrappedStep_inv h hinit
  have hstart : s₀.NoneMissed := by
    intro _ n
    rw [hfresh n]
    exact id
  have hiff := run_iff_meets wrappedStep_inv wrappedStep_missed_iff h hinit
  refine ⟨?_, ?_, ?_, fun kind => (hinv.leased kind).unseen⟩
  · intro n info hover
    have hsees := hinv.infos n
    rw [hover] at hsees
    rw [hid, hsees.1]
  · intro hmeets n info hover
    exact (hinv.right_iff hover).mpr fun hboth => hiff.mpr ⟨hstart, hmeets⟩ hboth n
  · intro hrest hright
    refine (hiff.mp ?_).2
    intro hboth n
    rcases hrest n with hidle | ⟨info, hover⟩
    · rw [hidle]
      exact id
    · exact (hinv.right_iff hover).mp (hright n info hover) hboth

end Reports

/-- A bidirectional stream whose halves both have the identifier 4. -/
def sampleStream : WrappedStream where
  id := 4
  created := createdWith (some 4) (some 4)
  halves kind := if createdWith (some 4) (some 4) kind then .init else .absent
  infos _ := .send

/-- Operation 0 on the send half, by its steps. -/
def sendSteps (steps : List LeaseAction) : List WrappedAction :=
  steps.map fun a => .half .send (.operation 0 a)

/-- `stream_info` number 0, by the number of its accesses. -/
def infoSteps (accesses : ℕ) : List WrappedAction := List.replicate accesses (.info 0)

/-- While a send has its handle the stream is called bidirectional. -/
theorem stream_direction_iff_sending :
    ∃ s, run wrappedStep sampleStream (sendSteps [.begin, .claim, .take] ++ infoSteps 5) = some s ∧
      s.infos 0 = .over ⟨4, .bi, true, true, false, false⟩ ∧
      DirectionReports (some 4) (some 4) sampleStream
        (sendSteps [.begin, .claim, .take] ++ infoSteps 5) s := by
  have hwrap : wrapStream .streamOpenBi (some 4) (some 4) = .ok sampleStream := rfl
  refine ⟨_, rfl, rfl, ?_⟩
  exact stream_direction_iff hwrap rfl

/-- `stream_finish` number 0 on the send half. -/
def finishSteps : List WrappedAction :=
  [.half .send (.finish 0 .loadBusy), .half .send (.finish 0 .storeClosed),
    .half .send (.finish 0 .take)]

/-- Once its send half is finished the stream is called unidirectional, and so
it is between the two stores of a lease drop, with both halves open. -/
theorem stream_direction_changes :
    wrapStream .streamOpenBi (some 4) (some 4) = .ok sampleStream ∧
      (∃ s info, run wrappedStep sampleStream (finishSteps ++ infoSteps 5) = some s ∧
        s.infos 0 = .over info ∧ info.direction = .uni ∧ ¬ info.Right (some 4) (some 4)) ∧
      ∃ s info, run wrappedStep sampleStream
          (sendSteps [.begin, .claim, .take, .ended, .dropBusy] ++ infoSteps 5) = some s ∧
        s.infos 0 = .over info ∧ info.direction = .uni ∧ ¬ info.Right (some 4) (some 4) ∧
        (s.halves .send).half.closed = false ∧ (s.halves .recv).half.closed = false := by
  refine ⟨rfl, ⟨_, _, rfl, rfl, rfl, ?_⟩, ⟨_, _, rfl, rfl, rfl, ?_, rfl, rfl⟩⟩
  · intro hright
    cases hright.mpr ⟨rfl, rfl⟩
  · intro hright
    cases hright.mpr ⟨rfl, rfl⟩

end IrohBeam
