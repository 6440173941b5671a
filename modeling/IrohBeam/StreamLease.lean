/-
IrohBeam/StreamLease.lean

The lease protocol of a stream half: `take_send`, `take_recv` and the drop of a
lease (`native/iroh_beam_nif/src/stream.rs`), on the half of
`IrohBeam/StreamReset.lean`.

The busy flag is a lock: it is set from the compare-and-swap of `take_send` to
the first store of the lease's drop, and at most one operation is between the
two (`HalfState.Leased`).  The handle is in the lease of the operation that took
it until the drop puts it back, which is after the flag has been cleared.

So on a half that nobody closes the handle is never lost, and when nothing is
in flight it is in the slot with the flag clear.  But between the two stores of
a drop the flag is clear and the slot is empty: an operation that takes its turn
there is told that the half is closed.  `open_half_refusals` says that this is
the only way to be told so, and `open_half_reported_closed` is a run in which it
happens.
-/
import IrohBeam.Lock
import IrohBeam.StreamReset

namespace IrohBeam

open Transition

/-! ### The lock -/

/-- The operation has set the busy flag and not cleared it. -/
def LeaseStage.Claims : LeaseStage → Prop
  | .take | .clearBusy | .select | .reset | .dropBusy => True
  | _ => False

/-- One operation at most has the flag, and the one that has the handle is at a
stage at which it holds a lease. -/
structure HalfState.Leased (s : HalfState) : Prop where
  busy : Lock.Owned s.half.busy fun i => (s.operations i).Claims
  holds : ∀ i, (s.operations i).Holds ↔ s.half.place = .lease i

theorem leased_init : HalfState.init.Leased where
  busy := .clear fun _ h => h
  holds _ := ⟨fun h => h.elim, fun h => by cases h⟩

/-- An operation takes and gives back the flag in its turn. -/
theorem LeaseMove.turn {kind : HalfKind} {h h' : StreamHalf} {i : ℕ} {a : LeaseAction}
    {stage stage' : LeaseStage} (hmove : LeaseMove kind h i a stage h' stage') :
    Lock.Turn h.busy h'.busy stage.Claims stage'.Claims := by
  cases hmove with
  | claim hfree => exact .acquire hfree rfl trivial
  | clearBusy => exact .release trivial rfl id
  | dropBusy => exact .release trivial rfl id
  | _ => exact .neither rfl Iff.rfl

/-- An operation moves no handle but its own: what it does to the place of the
handle, with whether it holds it. -/
theorem LeaseMove.place {kind : HalfKind} {h h' : StreamHalf} {i : ℕ} {a : LeaseAction}
    {stage stage' : LeaseStage} (hmove : LeaseMove kind h i a stage h' stage')
    (hholds : stage.Holds ↔ h.place = .lease i) :
    (stage'.Holds ↔ h'.place = .lease i) ∧
      ∀ j, j ≠ i → (h'.place = .lease j ↔ h.place = .lease j) := by
  have hfar : ∀ {place place' : Place}, (place = .slot ∨ place = .lease i ∨ place = .gone) →
      (place' = .slot ∨ place' = .lease i ∨ place' = .gone) →
      ∀ j, j ≠ i → (place' = .lease j ↔ place = .lease j) := by
    intro place place' hp hp' j hj
    rcases hp with rfl | rfl | rfl <;> rcases hp' with rfl | rfl | rfl <;> simp [Ne.symm hj]
  cases hmove with
  | take hslot => exact ⟨⟨fun _ => rfl, fun _ => trivial⟩, hfar (.inl hslot) (.inr (.inl rfl))⟩
  | store =>
      exact ⟨⟨fun h => h.elim, fun h => (by cases h)⟩,
        hfar (.inr (.inl (hholds.mp trivial))) (.inl rfl)⟩
  | discard =>
      exact ⟨⟨fun h => h.elim, fun h => (by cases h)⟩,
        hfar (.inr (.inl (hholds.mp trivial))) (.inr (.inr rfl))⟩
  | _ => exact ⟨hholds, fun _ _ => Iff.rfl⟩

/-- A step of an operation keeps the lock and the leases. -/
theorem HalfState.Leased.operation {kind : HalfKind} {s : HalfState} (hs : s.Leased) {i : ℕ}
    {a : LeaseAction} {h : StreamHalf} {stage : LeaseStage}
    (hmove : LeaseMove kind s.half i a (s.operations i) h stage) :
    { s with half := h, operations := Function.update s.operations i stage }.Leased := by
  obtain ⟨hown, hother⟩ := hmove.place (hs.holds i)
  refine ⟨hs.busy.step hmove.turn, ?_⟩
  intro j
  by_cases hj : j = i
  · subst hj
    simp only [Function.update_self]
    exact hown
  · simp only [Function.update_of_ne hj]
    exact (hs.holds j).trans (hother j hj).symm

/-! ### A half that nobody closes -/

/-- A step of an operation, nothing else happening on the half. -/
def openStep (kind : HalfKind) (s : HalfState) (a : ℕ × LeaseAction) : Option HalfState :=
  halfStep kind s (.operation a.1 a.2)

theorem openStep_move {kind : HalfKind} {s s' : HalfState} {i : ℕ} {a : LeaseAction}
    (hstep : openStep kind s (i, a) = some s') :
    ∃ h stage, LeaseMove kind s.half i a (s.operations i) h stage ∧
      s' = { s with half := h, operations := Function.update s.operations i stage } := by
  obtain ⟨r, hr, rfl⟩ := Option.map_eq_some_iff.mp hstep
  exact ⟨r.1, r.2, leaseStep_move hr, rfl⟩

/-- The stages at which an operation is notified of a request or drops its handle. -/
def LeaseStage.Closing : LeaseStage → Prop
  | .reset | .discard => True
  | _ => False

/-- The half is open, and its handle is in the slot or in a lease. -/
structure HalfState.Open (s : HalfState) : Prop where
  leased : s.Leased
  closed : s.half.closed = false
  permit : s.half.permit = false
  live : s.half.fate = .live
  place : s.half.place ≠ .gone
  stages : ∀ i, ¬ (s.operations i).Closing

theorem open_init : HalfState.init.Open where
  leased := leased_init
  closed := rfl
  permit := rfl
  live := rfl
  place := by simp [HalfState.init, StreamHalf.init]
  stages _ h := h

/-- On an open half no operation comes to close it. -/
theorem LeaseMove.keepsOpen {kind : HalfKind} {h h' : StreamHalf} {i : ℕ} {a : LeaseAction}
    {stage stage' : LeaseStage} (hmove : LeaseMove kind h i a stage h' stage')
    (hclosed : h.closed = false) (hpermit : h.permit = false) (hstage : ¬ stage.Closing) :
    h'.closed = false ∧ h'.permit = false ∧ h'.fate = h.fate ∧ (h.place ≠ .gone → h'.place ≠ .gone) ∧
      ¬ stage'.Closing := by
  cases hmove with
  | take _ => exact ⟨hclosed, hpermit, rfl, fun _ => Place.noConfusion, id⟩
  | store => exact ⟨hclosed, hpermit, rfl, fun _ => Place.noConfusion, id⟩
  | notified h => rw [hpermit] at h; cases h
  | reset _ => exact absurd trivial hstage
  | discard => exact absurd trivial hstage
  | toDiscard h => rw [hclosed] at h; cases h
  | _ => exact ⟨hclosed, hpermit, rfl, id, id⟩

theorem HalfState.Open.operation {kind : HalfKind} {s : HalfState} (hs : s.Open) {i : ℕ}
    {a : LeaseAction} {h : StreamHalf} {stage : LeaseStage}
    (hmove : LeaseMove kind s.half i a (s.operations i) h stage) :
    { s with half := h, operations := Function.update s.operations i stage }.Open := by
  obtain ⟨hclosed, hpermit, hfate, hplace, hstage⟩ :=
    hmove.keepsOpen hs.closed hs.permit (hs.stages i)
  refine ⟨hs.leased.operation hmove, hclosed, hpermit, hfate.trans hs.live, hplace hs.place, ?_⟩
  intro j
  by_cases hj : j = i
  · simp only [hj, Function.update_self]
    exact hstage
  · simp only [Function.update_of_ne hj]
    exact hs.stages j

/-- Every step keeps the half open. -/
theorem openStep_open {kind : HalfKind} (s : HalfState) (a : ℕ × LeaseAction) (s' : HalfState)
    (hs : s.Open) (hstep : openStep kind s a = some s') : s'.Open := by
  obtain ⟨h, stage, hmove, rfl⟩ := openStep_move hstep
  exact hs.operation hmove

/-- Where the handle is: in the slot, in the lease of an operation that has the
flag, or in one that is being dropped. -/
theorem HalfState.Open.place_cases {s : HalfState} (hs : s.Open) :
    s.half.place = .slot ∨ ∃ i, s.half.place = .lease i ∧
      ((s.operations i = .select ∨ s.operations i = .dropBusy) ∨
        s.operations i = .loadClosed ∨ s.operations i = .store) := by
  cases hplace : s.half.place with
  | slot => exact .inl rfl
  | gone => exact absurd hplace hs.place
  | lease i =>
      right
      have hholds := (hs.leased.holds i).mpr hplace
      have hopen := hs.stages i
      refine ⟨i, rfl, ?_⟩
      cases hstage : s.operations i <;> rw [hstage] at hholds hopen <;>
        simp_all [LeaseStage.Holds, LeaseStage.Closing]

theorem LeaseStage.Claims.inFlight {stage : LeaseStage} (h : stage.Claims) : stage.InFlight := by
  cases stage <;> simp_all [LeaseStage.Claims, LeaseStage.InFlight]

/-- When nothing is in flight, the flag is clear and the handle is in the slot. -/
theorem HalfState.Open.at_rest {s : HalfState} (hs : s.Open)
    (hidle : ∀ i, ¬ (s.operations i).InFlight) : s.half.busy = false ∧ s.half.place = .slot := by
  refine ⟨?_, ?_⟩
  · by_contra hbusy
    obtain ⟨i, hclaims⟩ := hs.leased.busy.owner (by simpa using hbusy)
    exact hidle i hclaims.inFlight
  · rcases hs.place_cases with hslot | ⟨i, -, hstage⟩
    · exact hslot
    · exfalso
      apply hidle i
      rcases hstage with (h | h) | h | h <;> rw [h] <;> trivial

/-! ### What an operation is told -/

/-- No operation looks into the slot while another has cleared the flag and not
yet put its handle back. -/
def NoDropBetween (s : HalfState) (a : ℕ × LeaseAction) : Prop :=
  a.2 = .take → ∀ j, s.operations j ≠ .loadClosed ∧ s.operations j ≠ .store

/-- The operation was told, or is about to be told, that the half is closed. -/
def LeaseStage.Refused : LeaseStage → Prop
  | .clearBusy => True
  | .over (some e) => e.category ≠ .busy
  | _ => False

theorem LeaseStage.Refused.cases {stage : LeaseStage} (h : stage.Refused) :
    stage = .clearBusy ∨ ∃ e, stage = .over (some e) ∧ e.category ≠ .busy := by
  unfold LeaseStage.Refused at h
  split at h
  · exact .inl rfl
  · next e => exact .inr ⟨e, rfl, h⟩
  · exact h.elim

/-- The slot is empty exactly while a handle is on its way back to it, when an
operation looks into it. -/
theorem HalfState.Open.slot_iff {s : HalfState} (hs : s.Open) {i : ℕ}
    (hi : s.operations i = .take) :
    s.half.place = .slot ↔ ∀ j, s.operations j ≠ .loadClosed ∧ s.operations j ≠ .store := by
  constructor
  · intro hslot j
    have hnot : ¬ (s.operations j).Holds := by
      rw [hs.leased.holds j, hslot]
      exact Place.noConfusion
    constructor <;>
    · intro hstage
      rw [hstage] at hnot
      exact hnot trivial
  · intro hnone
    rcases hs.place_cases with hslot | ⟨j, -, hstage | hstage | hstage⟩
    · exact hslot
    · -- the flag has one owner, and that is `i`
      have hj : (s.operations j).Claims := by
        rcases hstage with h | h <;> rw [h] <;> trivial
      have hij := hs.leased.busy.unique j i hj (by rw [hi]; trivial)
      rw [hij, hi] at hstage
      rcases hstage with h | h <;> cases h
    · exact absurd hstage (hnone j).1
    · exact absurd hstage (hnone j).2

/-- A step refuses an operation exactly if it looks into the slot at the wrong
time; one that has been refused stays so. -/
theorem LeaseMove.refused_iff {kind : HalfKind} {s : HalfState} (hs : s.Open) {i : ℕ}
    {a : LeaseAction} {h : StreamHalf} {stage : LeaseStage}
    (hmove : LeaseMove kind s.half i a (s.operations i) h stage) :
    ¬ stage.Refused ↔ ¬ (s.operations i).Refused ∧ NoDropBetween s (i, a) := by
  have hfree : ∀ {b : LeaseAction}, b ≠ .take → NoDropBetween s (i, b) :=
    fun hb htake => absurd htake hb
  generalize hold : s.operations i = old at hmove
  cases hmove with
  | refuse hclosed => rw [hs.closed] at hclosed; cases hclosed
  | busy _ => exact ⟨fun _ => ⟨id, hfree (by simp)⟩, fun _ h => h rfl⟩
  | take hslot => exact ⟨fun _ => ⟨id, fun _ => (hs.slot_iff hold).mp hslot⟩, fun _ => id⟩
  | miss hmiss =>
      refine ⟨fun h => absurd trivial h, ?_⟩
      rintro ⟨-, hnone⟩
      exact absurd ((hs.slot_iff hold).mpr (hnone rfl)) hmiss
  | clearBusy => exact ⟨fun h => absurd (by simp [LeaseStage.Refused, halfError]) h,
      fun h => absurd trivial h.1⟩
  | _ => exact ⟨fun _ => ⟨id, hfree (by simp)⟩, fun _ => id⟩

/-- No operation has been told that the half is closed, or is about to be. -/
def HalfState.NoneRefused (s : HalfState) : Prop := ∀ i, ¬ (s.operations i).Refused

theorem openStep_refused_iff {kind : HalfKind} (s : HalfState) (a : ℕ × LeaseAction)
    (s' : HalfState) (hs : s.Open) (hstep : openStep kind s a = some s') :
    s'.NoneRefused ↔ s.NoneRefused ∧ NoDropBetween s a := by
  obtain ⟨i, a⟩ := a
  obtain ⟨h, stage, hmove, rfl⟩ := openStep_move hstep
  have hiff := hmove.refused_iff hs
  constructor
  · intro hnone
    have hi := hnone i
    simp only [Function.update_self] at hi
    obtain ⟨hold, hgap⟩ := hiff.mp hi
    refine ⟨?_, hgap⟩
    intro j
    by_cases hj : j = i
    · rw [hj]
      exact hold
    · have hother := hnone j
      simpa only [Function.update_of_ne hj] using hother
  · rintro ⟨hnone, hgap⟩ j
    by_cases hj : j = i
    · simp only [hj, Function.update_self]
      exact hiff.mpr ⟨hnone i, hgap⟩
    · simp only [Function.update_of_ne hj]
      exact hnone j

/-- **An open half.**  Whatever the operations on a half do, as long as nobody
closes it: an operation is refused only because the half is busy in every run in
which none looks into the slot while a handle is on its way back; a run in which
one does ends with an operation told that the half is closed, once that
operation has returned; and whenever nothing is in flight the flag is clear and
the handle is in the slot. -/
theorem open_half_refusals {kind : HalfKind} {as : List (ℕ × LeaseAction)} {s : HalfState}
    (h : run (openStep kind) HalfState.init as = some s) :
    (Meets (openStep kind) NoDropBetween HalfState.init as →
        ∀ i e, s.operations i = .over (some e) → e.category = .busy) ∧
      ((∀ i, s.operations i ≠ .clearBusy) →
        (∀ i e, s.operations i = .over (some e) → e.category = .busy) →
        Meets (openStep kind) NoDropBetween HalfState.init as) ∧
      ((∀ i, ¬ (s.operations i).InFlight) → s.half.busy = false ∧ s.half.place = .slot) := by
  have hopen : s.Open := run_invariant openStep_open h open_init
  have hstart : HalfState.init.NoneRefused := fun _ h => h
  have hiff := run_iff_meets openStep_open openStep_refused_iff h open_init
  refine ⟨?_, ?_, hopen.at_rest⟩
  · intro hmeets i e hover
    have hnone := hiff.mpr ⟨hstart, hmeets⟩ i
    rw [hover] at hnone
    exact not_not.mp hnone
  · intro hreturned hbusy
    apply (hiff.mp ?_).2
    intro i hrefused
    rcases hrefused.cases with hstage | ⟨e, hstage, hcategory⟩
    · exact hreturned i hstage
    · exact hcategory (hbusy i e hstage)

/-- Operation 0 takes the handle. -/
def takeLease : List (ℕ × LeaseAction) := [(0, .begin), (0, .claim), (0, .take)]

/-- Operation 1 comes while operation 0 has the handle, and is told so. -/
def competingRun : List (ℕ × LeaseAction) := takeLease ++ [(1, .begin), (1, .claim)]

theorem open_half_refusals_competing :
    ∃ s e, run (openStep .send) HalfState.init competingRun = some s ∧
      s.operations 1 = .over (some e) ∧ e.category = .busy := by
  have hmeets : Meets (openStep .send) NoDropBetween HalfState.init competingRun := by
    refine meets_cons (fun h => by cases h) rfl (meets_cons (fun h => by cases h) rfl
      (meets_cons ?_ rfl (meets_of_forall (by simp [NoDropBetween]) _)))
    intro _ j
    by_cases hj : j = 0
    · subst hj
      decide
    · simp [HalfState.init, hj]
  obtain ⟨s, hrun, hover⟩ : ∃ s, run (openStep .send) HalfState.init competingRun = some s ∧
      s.operations 1 = .over (some (halfError .send .streamSend .busy "is busy")) := ⟨_, rfl, rfl⟩
  exact ⟨s, _, hrun, hover, (open_half_refusals hrun).1 hmeets 1 _ hover⟩

/-- Operation 1 comes between the two stores of operation 0's drop. -/
def dropGapRun : List (ℕ × LeaseAction) :=
  takeLease ++ [(0, .ended), (0, .dropBusy), (1, .begin), (1, .claim), (1, .take), (1, .clearBusy),
    (0, .loadClosed), (0, .store)]

/-- The half is open all the time, with its handle back in the slot at the end,
and operation 1 has been told that it is unavailable. -/
theorem open_half_reported_closed :
    ∃ s, run (openStep .send) HalfState.init dropGapRun = some s ∧
      s.operations 1 = .over (some ⟨.closed, .streamSend, "send half is unavailable"⟩) ∧
      s.half.closed = false ∧ s.half.place = .slot :=
  ⟨_, rfl, by decide, rfl, rfl⟩

end IrohBeam
