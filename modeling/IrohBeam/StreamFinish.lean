/-
IrohBeam/StreamFinish.lean

`stream_finish` against the sends of a half
(`native/iroh_beam_nif/src/stream.rs`).

A finish loads the busy flag, sets the closed flag and takes the handle from
the slot, in three steps.  If it finds the flag set it returns `busy` and has
touched nothing.  If it finds the slot empty it returns an error as well, but it
has closed the half, and the send that has the handle will drop it.

`finish_failure_harmless_iff` says which of the two a run is: a finish that
fails leaves the half usable exactly if it did not come to an empty slot, or to
a handle that refuses to be finished.
-/
import IrohBeam.StreamLease

namespace IrohBeam

open Transition

/-! ### The system -/

/-- One step of `stream_finish`.  `accepted` is what `SendStream::finish` says
to the handle it is called on. -/
def finishWith (h : StreamHalf) (accepted : Bool) :
    FinishAction → FinishStage → Option (StreamHalf × FinishStage)
  | .take, .take =>
      if h.place = .slot ∧ accepted = false then
        some ({ h with place := .gone, fate := .dropped },
          .over (some (halfError .send .streamFinish .closed "is closed")))
      else finishStep h .take .take
  | a, stage => finishStep h a stage

inductive FinishRace where
  | operation (i : ℕ) (a : LeaseAction)
  | finish (a : FinishAction) (accepted : Bool)

/-- A step of a send, or of the one finish. -/
def finishRaceStep (s : HalfState) : FinishRace → Option HalfState
  | .operation i a => openStep .send s (i, a)
  | .finish a accepted => (finishWith s.half accepted a (s.finishes 0)).map fun r =>
      { s with half := r.1, finishes := Function.update s.finishes 0 r.2 }

theorem finishWith_move {h : StreamHalf} {accepted : Bool} {a : FinishAction} {stage : FinishStage}
    {r : StreamHalf × FinishStage} (hstep : finishWith h accepted a stage = some r) :
    FinishMove h a accepted stage r.1 r.2 := by
  unfold finishWith at hstep
  split at hstep
  · split at hstep
    · next hrejected =>
        obtain ⟨hslot, rfl⟩ := hrejected
        exact Option.some.inj hstep ▸ .rejected hslot
    · next hrejected =>
        apply finishStep_move ?_ hstep
        intro _ _ hslot
        by_contra hnot
        exact hrejected ⟨hslot, by simpa using hnot⟩
  · next hnot => exact finishStep_move (fun ha hstage _ => (hnot ha hstage).elim) hstep

/-! ### A half that is left usable -/

/-- One operation on its own, from where it is. -/
def leaseRun (kind : HalfKind) (i : ℕ) (r : StreamHalf × LeaseStage) (as : List LeaseAction) :
    Option (StreamHalf × LeaseStage) :=
  run (fun r a => leaseStep kind r.1 i a r.2) r as

/-- The half accepts a send and a finish. -/
structure StreamHalf.Accepts (h : StreamHalf) : Prop where
  send : ∀ i, (leaseRun .send i (h, .idle) [.begin, .claim, .take]).map Prod.snd = some .select
  finish : (run (fun r a => finishWith r.1 true a r.2) (h, FinishStage.idle)
    [.loadBusy, .storeClosed, .take]).map Prod.snd = some (.over none)

/-- The half is as it should be after a finish that failed: open, with the handle
in the slot or in the lease of a send, which puts it back when it ends; and once
the sends there are have ended, a send or a finish succeeds. -/
structure HalfState.Usable (s : HalfState) : Prop where
  closed : s.half.closed = false
  handle : s.half.place = .slot ∨ ∃ i, s.half.place = .lease i ∧ (s.operations i).InFlight
  returns : ∀ i a s' refusal, s.half.place = .lease i →
    finishRaceStep s (.operation i a) = some s' → s'.operations i = .over refusal →
    s'.half.place = .slot
  later : ∃ as s', run (openStep .send) s as = some s' ∧ s'.half.Accepts

/-- A run of one operation is a run of the half. -/
theorem run_lease {kind : HalfKind} (i : ℕ) (as : List LeaseAction) (s : HalfState) :
    run (openStep kind) s (as.map fun a => (i, a)) =
      (leaseRun kind i (s.half, s.operations i) as).map fun r =>
        { s with half := r.1, operations := Function.update s.operations i r.2 } := by
  induction as generalizing s with
  | nil =>
      show some s = some { s with operations := Function.update s.operations i (s.operations i) }
      rw [Function.update_eq_self]
  | cons a as ih =>
      rw [List.map_cons, leaseRun, run_cons, run_cons]
      cases hr : leaseStep kind s.half i a (s.operations i) with
      | none =>
          have hstep : openStep kind s (i, a) = none := by simp [openStep, halfStep, hr]
          rw [hstep]
          rfl
      | some r =>
          have hstep : openStep kind s (i, a) =
              some { s with half := r.1, operations := Function.update s.operations i r.2 } := by
            simp [openStep, halfStep, hr]
          rw [hstep]
          show run (openStep kind) _ _ = _
          rw [ih]
          show Option.map _ (leaseRun kind i (r.1, Function.update s.operations i r.2 i) as) =
            Option.map _ (leaseRun kind i r as)
          simp only [Function.update_self, Function.update_idem]

/-- What is left of an operation that has the flag or the handle, if it ends as
soon as it can. -/
def LeaseStage.rest : LeaseStage → List LeaseAction
  | .take => [.take, .ended, .dropBusy, .loadClosed, .store]
  | .clearBusy => [.clearBusy]
  | .select => [.ended, .dropBusy, .loadClosed, .store]
  | .dropBusy => [.dropBusy, .loadClosed, .store]
  | .loadClosed => [.loadClosed, .store]
  | .store => [.store]
  | _ => []

section Drain

variable {kind : HalfKind} {h : StreamHalf} {i : ℕ} {stage : LeaseStage} {s : HalfState}

/-- An operation that has the handle puts it back. -/
theorem leaseRun_holds (hclosed : h.closed = false) (hholds : stage.Holds)
    (hopen : ¬ stage.Closing) :
    ∃ busy, leaseRun kind i (h, stage) stage.rest =
      some ({ h with busy, place := .slot }, .over none) := by
  cases stage with
  | select => exact ⟨false, by simp [leaseRun, LeaseStage.rest, run_cons, leaseStep, hclosed]⟩
  | dropBusy => exact ⟨false, by simp [leaseRun, LeaseStage.rest, run_cons, leaseStep, hclosed]⟩
  | loadClosed => exact ⟨h.busy, by simp [leaseRun, LeaseStage.rest, run_cons, leaseStep, hclosed]⟩
  | store => exact ⟨h.busy, by simp [leaseRun, LeaseStage.rest, run_cons, leaseStep]⟩
  | reset => exact absurd trivial hopen
  | discard => exact absurd trivial hopen
  | _ => exact hholds.elim

/-- An operation that has the flag and finds the handle in the slot, or has been
refused, clears the flag and leaves the handle there. -/
theorem leaseRun_claims (hclosed : h.closed = false) (hslot : h.place = .slot)
    (hclaims : stage.Claims) (hnot : ¬ stage.Holds) :
    ∃ refusal, leaseRun kind i (h, stage) stage.rest =
      some ({ h with busy := false, place := .slot }, .over refusal) := by
  cases stage with
  | take => exact ⟨none, by simp [leaseRun, LeaseStage.rest, run_cons, leaseStep, hclosed, hslot]⟩
  | clearBusy => exact ⟨_, by simp [leaseRun, LeaseStage.rest, run_cons, leaseStep, ← hslot]; rfl⟩
  | select => exact absurd trivial hnot
  | reset => exact absurd trivial hnot
  | dropBusy => exact absurd trivial hnot
  | _ => exact hclaims.elim

/-- Running one operation on a half that stays open. -/
theorem HalfState.Open.run_rest (hs : s.Open) {r : StreamHalf × LeaseStage}
    {as : List LeaseAction} (hrun : leaseRun kind i (s.half, s.operations i) as = some r) :
    ∃ bs s', run (openStep kind) s bs = some s' ∧ s'.Open ∧ s'.half = r.1 := by
  have hall : run (openStep kind) s (as.map fun a => (i, a)) =
      some { s with half := r.1, operations := Function.update s.operations i r.2 } := by
    rw [run_lease, hrun]
    rfl
  exact ⟨_, _, hall, run_invariant openStep_open hall hs, rfl⟩

/-- The handle can come back to the slot. -/
theorem HalfState.Open.put_back (hs : s.Open) :
    ∃ as s', run (openStep kind) s as = some s' ∧ s'.Open ∧ s'.half.place = .slot := by
  cases hplace : s.half.place with
  | slot => exact ⟨[], s, rfl, hs, hplace⟩
  | gone => exact absurd hplace hs.place
  | lease i =>
      obtain ⟨busy, hrun⟩ :=
        leaseRun_holds hs.closed ((hs.leased.holds i).mpr hplace) (hs.stages i)
      obtain ⟨as, s', hall, hopen, hhalf⟩ := hs.run_rest hrun
      exact ⟨as, s', hall, hopen, by rw [hhalf]⟩

/-- **The half can come to rest**: the handle in the slot and the flag clear. -/
theorem HalfState.Open.drains (hs : s.Open) :
    ∃ as s', run (openStep kind) s as = some s' ∧ s'.Open ∧ s'.half.place = .slot ∧
      s'.half.busy = false := by
  obtain ⟨as, t, hrun, ht, hslot⟩ := hs.put_back
  cases hbusy : t.half.busy with
  | false => exact ⟨as, t, hrun, ht, hslot, hbusy⟩
  | true =>
      -- the owner of the flag does not have the handle, so it is on its way out
      obtain ⟨i, hclaims⟩ := ht.leased.busy.owner hbusy
      have hnot : ¬ (t.operations i).Holds := by
        rw [ht.leased.holds i, hslot]
        exact Place.noConfusion
      obtain ⟨refusal, hrest⟩ := leaseRun_claims ht.closed hslot hclaims hnot
      obtain ⟨bs, s', hall, hopen, hhalf⟩ := ht.run_rest hrest
      refine ⟨as ++ bs, s', ?_, hopen, by rw [hhalf], by rw [hhalf]⟩
      rw [run_append, hrun]
      exact hall

end Drain

/-- At rest, the half accepts a send and a finish. -/
theorem StreamHalf.accepts_of_rest {h : StreamHalf} (hclosed : h.closed = false)
    (hslot : h.place = .slot) (hbusy : h.busy = false) : h.Accepts where
  send i := by simp [leaseRun, run_cons, leaseStep, hclosed, hslot, hbusy]
  finish := by simp [run_cons, finishWith, finishStep, hslot, hbusy]

/-- An open half is usable. -/
theorem HalfState.Open.usable {s : HalfState} (hs : s.Open) : s.Usable where
  closed := hs.closed
  handle := by
    rcases hs.place_cases with hslot | ⟨i, hplace, hstage⟩
    · exact .inl hslot
    · right
      refine ⟨i, hplace, ?_⟩
      rcases hstage with (h | h) | h | h <;> rw [h] <;> trivial
  returns i a s' refusal hplace hstep hover := by
    obtain ⟨h, stage, hmove, rfl⟩ := openStep_move hstep
    have hholds := (hs.leased.holds i).mpr hplace
    have hopen := hs.stages i
    have hstage : stage = .over refusal := by
      simpa only [Function.update_self] using hover
    subst hstage
    generalize s.operations i = old at hmove hholds hopen
    cases hmove with
    | store => rfl
    | discard => exact absurd trivial hopen
    | _ => exact hholds.elim
  later := by
    obtain ⟨as, s', hrun, hopen, hslot, hbusy⟩ := hs.drains
    exact ⟨as, s', hrun, StreamHalf.accepts_of_rest hopen.closed hslot hbusy⟩

/-! ### When a failed finish is harmless -/

/-- The finish finds the handle in the slot, and the handle lets itself be
finished. -/
def FindsHandle (s : HalfState) : FinishRace → Prop
  | .finish .take accepted => s.half.place = .slot ∧ accepted = true
  | _ => True

/-- What holds in every run: the half is open until the finish closes it. -/
structure HalfState.Racing (s : HalfState) : Prop where
  isOpen : s.half.closed = false → s.Open
  before : s.finishes 0 = .idle ∨ s.finishes 0 = .storeClosed → s.half.closed = false
  after : s.finishes 0 = .take → s.half.closed = true

/-- If the finish has failed, the half is usable. -/
def HalfState.FailsSafely (s : HalfState) : Prop :=
  ∀ e, s.finishes 0 = .over (some e) → s.Usable

theorem racing_init : HalfState.init.Racing where
  isOpen _ := open_init
  before _ := rfl
  after h := by cases h

/-- Operations do not touch the closed flag. -/
theorem LeaseMove.closed_eq {kind : HalfKind} {h h' : StreamHalf} {i : ℕ} {a : LeaseAction}
    {stage stage' : LeaseStage} (hmove : LeaseMove kind h i a stage h' stage') :
    h'.closed = h.closed := by
  cases hmove <;> rfl

theorem HalfState.Racing.failsSafely_iff {s : HalfState} (hs : s.Racing) :
    s.FailsSafely ↔ ∀ e, s.finishes 0 = .over (some e) → s.half.closed = false :=
  ⟨fun h e he => (h e he).closed, fun h e he => (hs.isOpen (h e he)).usable⟩

/-- Every step of the race. -/
inductive RaceMove (s : HalfState) : FinishRace → HalfState → Prop
  | operation {i a h stage} : LeaseMove .send s.half i a (s.operations i) h stage →
      RaceMove s (.operation i a)
        { s with half := h, operations := Function.update s.operations i stage }
  | finish {a accepted h stage} : FinishMove s.half a accepted (s.finishes 0) h stage →
      RaceMove s (.finish a accepted)
        { s with half := h, finishes := Function.update s.finishes 0 stage }

theorem finishRaceStep_move {s s' : HalfState} {a : FinishRace}
    (hstep : finishRaceStep s a = some s') : RaceMove s a s' := by
  cases a with
  | operation i a =>
      obtain ⟨h, stage, hmove, rfl⟩ := openStep_move hstep
      exact .operation hmove
  | finish a accepted =>
      obtain ⟨r, hr, rfl⟩ := Option.map_eq_some_iff.mp hstep
      exact .finish (finishWith_move hr)

/-- Where the finish is does not matter to the half. -/
theorem HalfState.Open.setFinishes {s : HalfState} (hs : s.Open) (finishes : ℕ → FinishStage) :
    { s with finishes }.Open :=
  ⟨⟨hs.leased.busy, hs.leased.holds⟩, hs.closed, hs.permit, hs.live, hs.place, hs.stages⟩

/-- A step of the finish: it reads the flag of an open half, closes it, or looks
into the slot of a closed one. -/
theorem HalfState.Racing.finish {s : HalfState} (hs : s.Racing) {a : FinishAction} {accepted : Bool}
    {h : StreamHalf} {stage : FinishStage}
    (hmove : FinishMove s.half a accepted (s.finishes 0) h stage) :
    { s with half := h, finishes := Function.update s.finishes 0 stage }.Racing := by
  have hbefore := hs.before
  have hafter := hs.after
  have hclosed : ∀ {h : StreamHalf} {stage : FinishStage}, h.closed = true →
      (stage = .take ∨ ∃ refusal, stage = .over refusal) →
      { s with half := h, finishes := Function.update s.finishes 0 stage }.Racing := by
    intro h stage hc hstage
    refine ⟨fun hopen => absurd (hc.symm.trans hopen) (by simp), ?_, fun _ => hc⟩
    simp only [Function.update_self]
    rcases hstage with rfl | ⟨refusal, rfl⟩ <;> simp
  generalize s.finishes 0 = old at hmove hbefore hafter
  cases hmove with
  | busy _ => exact ⟨fun h => (hs.isOpen h).setFinishes _, by simp, by simp⟩
  | free _ => exact ⟨fun h => (hs.isOpen h).setFinishes _, fun _ => hbefore (.inl rfl), by simp⟩
  | close => exact hclosed rfl (.inl rfl)
  | finished _ => exact hclosed (hafter rfl) (.inr ⟨_, rfl⟩)
  | rejected _ => exact hclosed (hafter rfl) (.inr ⟨_, rfl⟩)
  | missing _ => exact hclosed (hafter rfl) (.inr ⟨_, rfl⟩)

/-- Every step keeps what holds of the race. -/
theorem finishRaceStep_racing (s : HalfState) (a : FinishRace) (s' : HalfState) (hs : s.Racing)
    (hstep : finishRaceStep s a = some s') : s'.Racing := by
  cases finishRaceStep_move hstep with
  | finish hmove => exact hs.finish hmove
  | operation hmove =>
      have hclosed := hmove.closed_eq
      refine ⟨fun h => (hs.isOpen (hclosed ▸ h)).operation hmove, ?_, ?_⟩
      · intro h
        exact hclosed.trans (hs.before h)
      · intro h
        exact hclosed.trans (hs.after h)

/-- A step makes a failed finish harmful exactly if the finish does not get the
handle. -/
theorem finishRaceStep_iff (s : HalfState) (a : FinishRace) (s' : HalfState) (hs : s.Racing)
    (hstep : finishRaceStep s a = some s') : s'.FailsSafely ↔ s.FailsSafely ∧ FindsHandle s a := by
  rw [(finishRaceStep_racing s a s' hs hstep).failsSafely_iff, hs.failsSafely_iff]
  have hbefore := hs.before
  have hafter := hs.after
  cases finishRaceStep_move hstep with
  | operation hmove =>
      show (∀ e, s.finishes 0 = .over (some e) → _) ↔ _
      rw [hmove.closed_eq]
      exact (and_iff_left trivial).symm
  | finish hmove =>
      simp only [Function.update_self]
      generalize s.finishes 0 = old at hmove hbefore hafter
      cases hmove with
      | busy _ => exact ⟨fun _ => ⟨by simp, trivial⟩, fun _ _ _ => hbefore (.inl rfl)⟩
      | free _ => simp [FindsHandle]
      | close => simp [FindsHandle]
      | finished hslot => simp [FindsHandle, hslot]
      | rejected hslot => simp [FindsHandle, hafter rfl]
      | missing hslot => simp [FindsHandle, hafter rfl, hslot]

/-- **A failed finish changes nothing**, exactly in the runs in which the finish
finds the handle in the slot when it looks for it. -/
theorem finish_failure_harmless_iff {as : List FinishRace} {s : HalfState}
    (h : run finishRaceStep HalfState.init as = some s) :
    s.FailsSafely ↔ Meets finishRaceStep FindsHandle HalfState.init as := by
  have hstart : HalfState.init.FailsSafely := fun e he => by cases he
  rw [run_iff_meets finishRaceStep_racing finishRaceStep_iff h racing_init]
  exact and_iff_right hstart

/-- A finish during a send is refused, and the half is usable. -/
theorem finish_failure_harmless_busy :
    ∃ s e, run finishRaceStep HalfState.init
        (takeLease.map (fun a => .operation a.1 a.2) ++ [.finish .loadBusy true]) = some s ∧
      s.finishes 0 = .over (some e) ∧ s.Usable := by
  obtain ⟨s, hrun, hover⟩ : ∃ s, run finishRaceStep HalfState.init
        (takeLease.map (fun a => .operation a.1 a.2) ++ [.finish .loadBusy true]) = some s ∧
      s.finishes 0 = .over (some (halfError .send .streamFinish .busy "is busy")) := ⟨_, rfl, rfl⟩
  refine ⟨s, _, hrun, hover, (finish_failure_harmless_iff hrun).mpr ?_ _ hover⟩
  exact meets_of_forall (by simp [takeLease, FindsHandle]) _

/-- A send comes between the finish's look at the flag and its look into the
slot: the finish fails, and the half is closed and its handle dropped. -/
def sendBetweenRun : List FinishRace :=
  [.finish .loadBusy true, .operation 0 .begin, .operation 0 .claim, .operation 0 .take,
    .finish .storeClosed true, .finish .take true, .operation 0 .ended, .operation 0 .dropBusy,
    .operation 0 .loadClosed, .operation 0 .discard]

theorem finish_failure_closes :
    ∃ s, run finishRaceStep HalfState.init sendBetweenRun = some s ∧
      s.finishes 0 = .over (some ⟨.closed, .streamFinish, "send half is closed"⟩) ∧
      s.half.closed = true ∧ s.half.place = .gone ∧ s.half.fate = .dropped ∧ ¬ s.FailsSafely := by
  obtain ⟨s, hrun, hover, hclosed, hplace, hfate⟩ :
      ∃ s, run finishRaceStep HalfState.init sendBetweenRun = some s ∧
        s.finishes 0 = .over (some ⟨.closed, .streamFinish, "send half is closed"⟩) ∧
        s.half.closed = true ∧ s.half.place = .gone ∧ s.half.fate = .dropped :=
    ⟨_, rfl, by decide, rfl, rfl, rfl⟩
  refine ⟨s, hrun, hover, hclosed, hplace, hfate, ?_⟩
  intro hsafe
  rw [(hsafe _ hover).closed] at hclosed
  cases hclosed

end IrohBeam
