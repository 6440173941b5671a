/-
IrohBeam/StreamAbort.lean

`stream_abort` on a stream with both halves
(`native/iroh_beam_nif/src/stream.rs`).

An abort with code `c` is a `request_reset(c)`, a `request_stop(c)` and a
`close()`, and `close()` makes the same two requests again with code 0.  A
request passes its code to a handle it finds in the slot; for a handle that an
operation has, it leaves the code in a cell and notifies the operation, which
reads the cell when it wakes up.  By then `close()` may have written 0 there.

A run records the codes passed to `reset()` and `stop()` from the moment the
abort has written its code on that half.  `abort_keeps_code_iff` says that they
are all `c` exactly in the runs in which no operation reads the cell after
`close()` has written it and `close()` finds no handle in a slot, or `c` is 0.
-/
import IrohBeam.StreamLease

namespace IrohBeam

open Transition

/-! ### The system -/

/-- Where a `stream_abort` is.  The requests with `closing` are those of
`close()`; `refused` is the return for a code out of range. -/
inductive AbortStage where
  | idle
  | refused
  | requesting (kind : HalfKind) (closing : Bool) (stage : RequestStage)
  | swapping
  | returned (first : Bool)
  deriving DecidableEq, Repr

/-- A stream, the abort, and the codes passed to the handle of each half as a
consequence of the abort. -/
structure AbortRun where
  halves : HalfKind → HalfState
  released : Bool
  stage : AbortStage
  codes : HalfKind → List ℕ

/-- A stream that has not been released, with whatever is going on on its halves. -/
def AbortRun.start (halves : HalfKind → HalfState) : AbortRun :=
  { halves, released := false, stage := .idle, codes := fun _ => [] }

/-- The next step of a request with this code. -/
def RequestStage.action (code : ℕ) : RequestStage → RequestAction
  | .idle => .storeCode code
  | .storeClosed _ => .storeClosed
  | .notify _ => .notify
  | .take _ | .returned => .take

/-- What follows a request: the one on the other half, then the swap of
`close()`, then the same two again. -/
def afterRequest : HalfKind → Bool → AbortStage
  | .send, closing => .requesting .recv closing .idle
  | .recv, false => .swapping
  | .recv, true => .returned true

/-- With the request on half `k` at this stage, that of the same round on half
`kind` has stored its code: the send half comes first. -/
def past (kind k : HalfKind) (stage : RequestStage) : Bool :=
  if kind = k then stage ≠ .idle else k = .recv

/-- What an abort with code `c` has left in the code cell of a half, if it has
written it. -/
def AbortStage.cell (c : ℕ) (kind : HalfKind) : AbortStage → Option ℕ
  | .idle | .refused => none
  | .requesting k false stage => if past kind k stage then some c else none
  | .requesting k true stage => if past kind k stage then some 0 else some c
  | .swapping | .returned false => some c
  | .returned true => some 0

/-- Change one half and record the codes passed to its handle. -/
def AbortRun.put (s : AbortRun) (kind : HalfKind) (half : HalfState) (codes : List ℕ) : AbortRun :=
  { s with
    halves := Function.update s.halves kind half
    codes := Function.update s.codes kind (s.codes kind ++ codes) }

/-- The code a step of an operation passes: that in the cell, once the abort has
written it. -/
def AbortRun.woken (c : ℕ) (s : AbortRun) (kind : HalfKind) (a : LeaseAction) : List ℕ :=
  if a = .reset ∧ (s.stage.cell c kind).isSome ∧ (s.halves kind).half.code ≤ maxAbortCode then
    [(s.halves kind).half.code]
  else []

/-- The code a request passes itself: its own, to a handle in the slot. -/
def StreamHalf.passed (h : StreamHalf) (code : ℕ) : RequestStage → List ℕ
  | .take _ => if h.place = .slot then [code] else []
  | _ => []

inductive AbortAction where
  | operation (kind : HalfKind) (i : ℕ) (a : LeaseAction)
  | finish (f : ℕ) (a : FinishAction)
  | abort

/-- One step of an operation, of a finish, or of the abort. -/
def abortStep (c : ℕ) (s : AbortRun) : AbortAction → Option AbortRun
  | .operation kind i a =>
      (openStep kind (s.halves kind) (i, a)).map fun half => s.put kind half (s.woken c kind a)
  | .finish f a =>
      (halfStep .send (s.halves .send) (.finish f a)).map fun half => s.put .send half []
  | .abort =>
      match s.stage with
      | .idle =>
          some { s with
            stage := if c ≤ maxAbortCode then .requesting .send false .idle else .refused }
      | .requesting kind closing stage =>
          let code := if closing then 0 else c
          (requestStep (s.halves kind).half (stage.action code) stage).map fun r =>
            { s.put kind { s.halves kind with half := r.1 } ((s.halves kind).half.passed code stage)
              with
              stage :=
                if r.2 = .returned then afterRequest kind closing
                else .requesting kind closing r.2 }
      | .swapping =>
          some { s with
            released := true
            stage := if s.released then .returned false else .requesting .send true .idle }
      | .refused | .returned _ => none

/-! ### The side condition -/

/-- No operation reads the cell after `close()` has written 0 there, and
`close()` finds no handle in the slot; unless the code of the abort is 0. -/
def KeepsCode (c : ℕ) (s : AbortRun) : AbortAction → Prop
  | .operation kind _ .reset => s.stage.cell c kind = some 0 → c = 0
  | .abort =>
      match s.stage with
      | .requesting kind true (.take _) => (s.halves kind).half.place = .slot → c = 0
      | _ => True
  | _ => True

/-- Every code passed is the code of the abort. -/
def AbortRun.PassesOnly (c : ℕ) (s : AbortRun) : Prop :=
  ∀ kind, ∀ code ∈ s.codes kind, code = c

theorem passesOnly_put {c : ℕ} {s : AbortRun} {kind : HalfKind} (half : HalfState)
    {codes : List ℕ} :
    (s.put kind half codes).PassesOnly c ↔ s.PassesOnly c ∧ ∀ code ∈ codes, code = c := by
  constructor
  · intro h
    have hkind : ∀ code ∈ s.codes kind ++ codes, code = c := by
      intro code hcode
      apply h kind code
      simpa only [AbortRun.put, Function.update_self] using hcode
    refine ⟨?_, fun code hcode => hkind code (List.mem_append_right _ hcode)⟩
    intro k code hcode
    by_cases hk : k = kind
    · exact hkind code (List.mem_append_left _ (hk ▸ hcode))
    · apply h k code
      simpa only [AbortRun.put, Function.update_of_ne hk] using hcode
  · rintro ⟨hold, hnew⟩ k code hcode
    by_cases hk : k = kind
    · subst hk
      simp only [AbortRun.put, Function.update_self] at hcode
      rcases List.mem_append.mp hcode with hcode | hcode
      · exact hold k code hcode
      · exact hnew code hcode
    · simp only [AbortRun.put, Function.update_of_ne hk] at hcode
      exact hold k code hcode

/-! ### The cell -/

/-- The cell of each half holds what the abort has written there. -/
def AbortRun.Inv (c : ℕ) (s : AbortRun) : Prop :=
  ∀ kind code, s.stage.cell c kind = some code →
    (s.halves kind).half.code = code ∧ code ≤ maxAbortCode

theorem abortStart_inv (c : ℕ) (halves : HalfKind → HalfState) : (AbortRun.start halves).Inv c := by
  intro kind code h
  cases h

/-- The abort writes its own code or 0. -/
theorem AbortStage.cell_eq {c code : ℕ} {kind : HalfKind} {stage : AbortStage}
    (h : stage.cell c kind = some code) : code = c ∨ code = 0 := by
  unfold AbortStage.cell at h
  split at h
  · cases h
  · cases h
  · split at h
    · exact .inl (Option.some.inj h).symm
    · cases h
  · split at h
    · exact .inr (Option.some.inj h).symm
    · exact .inl (Option.some.inj h).symm
  · exact .inl (Option.some.inj h).symm
  · exact .inl (Option.some.inj h).symm
  · exact .inr (Option.some.inj h).symm

/-- Operations leave the cell alone. -/
theorem LeaseMove.code_eq {kind : HalfKind} {h h' : StreamHalf} {i : ℕ} {a : LeaseAction}
    {stage stage' : LeaseStage} (hmove : LeaseMove kind h i a stage h' stage') :
    h'.code = h.code := by
  cases hmove <;> rfl

/-- Finishes leave the cell alone. -/
theorem FinishMove.code_eq {h h' : StreamHalf} {a : FinishAction} {accepted : Bool}
    {stage stage' : FinishStage} (hmove : FinishMove h a accepted stage h' stage') :
    h'.code = h.code := by
  cases hmove <;> rfl

/-- A request writes the cell in its first step, and not again. -/
theorem requestStep_code {h : StreamHalf} {code : ℕ} {stage : RequestStage}
    {r : StreamHalf × RequestStage} (hstep : requestStep h (stage.action code) stage = some r) :
    (stage = .idle ∧ r.1.code = code ∧ code ≤ maxAbortCode ∧ r.2 = .storeClosed code) ∨
      (stage ≠ .idle ∧ r.1.code = h.code ∧ r.2 ≠ .idle) := by
  have hmove := requestStep_move hstep
  generalize haction : stage.action code = a, r.1 = h', r.2 = stage' at hmove ⊢
  cases hmove with
  | storeCode hcode =>
      obtain rfl := RequestAction.storeCode.inj haction
      exact .inl ⟨rfl, rfl, hcode, rfl⟩
  | storeClosed | notify | take _ | miss _ => exact .inr ⟨by simp, rfl, by simp⟩

/-- Where the abort is after a step of a request. -/
def AbortStage.next (kind : HalfKind) (closing : Bool) (stage : RequestStage) : AbortStage :=
  if stage = .returned then afterRequest kind closing else .requesting kind closing stage

/-- Once a request has stored its code, none of its steps changes what has been
written. -/
theorem cell_next {c : ℕ} {k kind : HalfKind} {closing : Bool} {stage stage' : RequestStage}
    (hstage : stage ≠ .idle) (hstage' : stage' ≠ .idle) :
    (AbortStage.next kind closing stage').cell c k =
      (AbortStage.requesting kind closing stage).cell c k := by
  unfold AbortStage.next
  split
  · cases k <;> cases kind <;> cases closing <;>
      simp [afterRequest, AbortStage.cell, past, hstage]
  · cases k <;> cases kind <;> cases closing <;>
      simp [AbortStage.cell, past, hstage, hstage']

/-- The first step of a request writes its own half's cell. -/
theorem cell_stored {c code : ℕ} {k kind : HalfKind} {closing : Bool} :
    (AbortStage.next kind closing (.storeClosed code)).cell c k =
      if k = kind then some (if closing then 0 else c)
      else (AbortStage.requesting kind closing .idle).cell c k := by
  cases k <;> cases kind <;> cases closing <;> simp [AbortStage.next, AbortStage.cell, past]

/-- Every step of the system. -/
inductive AbortMove (c : ℕ) (s : AbortRun) : AbortAction → AbortRun → Prop
  | operation {kind i a half} : half.half.code = (s.halves kind).half.code →
      AbortMove c s (.operation kind i a) (s.put kind half (s.woken c kind a))
  | finish {f a half} : half.half.code = (s.halves .send).half.code →
      AbortMove c s (.finish f a) (s.put .send half [])
  | accept : s.stage = .idle → c ≤ maxAbortCode →
      AbortMove c s .abort { s with stage := .requesting .send false .idle }
  | refuse : s.stage = .idle → AbortMove c s .abort { s with stage := .refused }
  | request {kind closing stage r} : s.stage = .requesting kind closing stage →
      requestStep (s.halves kind).half (stage.action (if closing then 0 else c)) stage = some r →
      AbortMove c s .abort
        { s.put kind { s.halves kind with half := r.1 }
            ((s.halves kind).half.passed (if closing then 0 else c) stage)
          with stage := .next kind closing r.2 }
  | close {released} : s.stage = .swapping →
      AbortMove c s .abort { s with released, stage := .requesting .send true .idle }
  | again {released} : s.stage = .swapping →
      AbortMove c s .abort { s with released, stage := .returned false }

theorem abortStep_move {c : ℕ} {s s' : AbortRun} {a : AbortAction}
    (h : abortStep c s a = some s') : AbortMove c s a s' := by
  cases a with
  | operation kind i a =>
      obtain ⟨half, hhalf, rfl⟩ := Option.map_eq_some_iff.mp h
      obtain ⟨h, stage, hmove, rfl⟩ := openStep_move hhalf
      exact .operation hmove.code_eq
  | finish f a =>
      obtain ⟨half, hhalf, rfl⟩ := Option.map_eq_some_iff.mp h
      obtain ⟨r, hr, rfl⟩ := Option.map_eq_some_iff.mp hhalf
      exact .finish (finishStep_move (fun _ _ _ => rfl) hr).code_eq
  | abort =>
      simp only [abortStep] at h
      split at h
      · next hstage =>
          obtain rfl := Option.some.inj h
          split
          · next hcode => exact .accept hstage hcode
          · exact .refuse hstage
      · next hstage =>
          obtain ⟨r, hr, rfl⟩ := Option.map_eq_some_iff.mp h
          exact .request hstage hr
      · next hstage =>
          obtain rfl := Option.some.inj h
          split
          · exact .again hstage
          · exact .close hstage
      · cases h
      · cases h

theorem AbortRun.Inv.put {c : ℕ} {s : AbortRun} (hs : s.Inv c) {kind : HalfKind} {half : HalfState}
    (hcode : half.half.code = (s.halves kind).half.code) (codes : List ℕ) :
    (s.put kind half codes).Inv c := by
  intro k code hcell
  obtain ⟨heq, hle⟩ := hs k code hcell
  refine ⟨?_, hle⟩
  by_cases hk : k = kind
  · subst hk
    simp only [AbortRun.put, Function.update_self]
    exact hcode.trans heq
  · simp only [AbortRun.put, Function.update_of_ne hk]
    exact heq

/-- Every step keeps the cells as the abort has written them. -/
theorem abortStep_inv {c : ℕ} (s : AbortRun) (a : AbortAction) (s' : AbortRun) (hs : s.Inv c)
    (h : abortStep c s a = some s') : s'.Inv c := by
  cases abortStep_move h with
  | operation hcode => exact hs.put hcode _
  | finish hcode => exact hs.put hcode _
  | accept _ _ =>
      intro k code hcell
      cases k <;> simp [AbortStage.cell, past] at hcell
  | refuse _ =>
      intro k code hcell
      cases hcell
  | close hstage =>
      intro k code hcell
      apply hs k code
      rw [hstage]
      cases k <;> simpa [AbortStage.cell, past] using hcell
  | again hstage =>
      intro k code hcell
      apply hs k code
      rw [hstage]
      exact hcell
  | @request kind closing stage r hstage hr =>
      rcases requestStep_code hr with ⟨rfl, hcode, hle, hnext⟩ | ⟨hold, hcode, hnew⟩
      · intro k code hcell
        rw [hnext, cell_stored] at hcell
        by_cases hk : k = kind
        · subst hk
          rw [if_pos rfl] at hcell
          obtain rfl := Option.some.inj hcell
          simp only [AbortRun.put, Function.update_self]
          exact ⟨hcode, hle⟩
        · rw [if_neg hk] at hcell
          simp only [AbortRun.put, Function.update_of_ne hk]
          exact hs k code (by rw [hstage]; exact hcell)
      · intro k code hcell
        rw [cell_next hold hnew] at hcell
        obtain ⟨heq, hle⟩ := hs k code (by rw [hstage]; exact hcell)
        refine ⟨?_, hle⟩
        by_cases hk : k = kind
        · subst hk
          simp only [AbortRun.put, Function.update_self]
          exact hcode.trans heq
        · simp only [AbortRun.put, Function.update_of_ne hk]
          exact heq

/-! ### Which codes are passed -/

/-- What a woken operation passes is the abort's code unless it reads the 0 of
`close()`. -/
theorem woken_iff {c : ℕ} {s : AbortRun} (hs : s.Inv c) (kind : HalfKind) (i : ℕ)
    (a : LeaseAction) :
    (∀ code ∈ s.woken c kind a, code = c) ↔ KeepsCode c s (.operation kind i a) := by
  by_cases ha : a = .reset
  · subst ha
    show _ ↔ (s.stage.cell c kind = some 0 → c = 0)
    cases hcell : s.stage.cell c kind with
    | none => simp [AbortRun.woken, hcell]
    | some code =>
        obtain ⟨heq, hle⟩ := hs kind code hcell
        have hwoken : s.woken c kind .reset = [code] := by
          simp [AbortRun.woken, hcell, heq, hle]
        rw [hwoken]
        rcases AbortStage.cell_eq hcell with rfl | rfl
        · simp
        · simp [eq_comm]
  · have hwoken : s.woken c kind a = [] := by simp [AbortRun.woken, ha]
    have hkeeps : KeepsCode c s (.operation kind i a) := by
      cases a <;> trivial
    simp [hwoken, hkeeps]

/-- What a request passes itself is the abort's code unless it is one of
`close()` and finds a handle. -/
theorem passed_iff {c : ℕ} {s : AbortRun} {kind : HalfKind} {closing : Bool} {stage : RequestStage}
    (hstage : s.stage = .requesting kind closing stage) :
    (∀ code ∈ (s.halves kind).half.passed (if closing then 0 else c) stage, code = c) ↔
      KeepsCode c s .abort := by
  simp only [KeepsCode, hstage]
  cases stage with
  | take code =>
      cases closing <;> by_cases hslot : (s.halves kind).half.place = .slot <;>
        simp [StreamHalf.passed, hslot, eq_comm]
  | _ => cases closing <;> simp [StreamHalf.passed]

theorem abortStep_passes_iff {c : ℕ} (s : AbortRun) (a : AbortAction) (s' : AbortRun)
    (hs : s.Inv c) (h : abortStep c s a = some s') :
    s'.PassesOnly c ↔ s.PassesOnly c ∧ KeepsCode c s a := by
  cases abortStep_move h with
  | @operation kind i a half _ => rw [passesOnly_put, woken_iff hs kind i a]
  | finish _ => rw [passesOnly_put]; simp [KeepsCode]
  | accept hstage _ => simp [KeepsCode, hstage, AbortRun.PassesOnly]
  | refuse hstage => simp [KeepsCode, hstage, AbortRun.PassesOnly]
  | close hstage => simp [KeepsCode, hstage, AbortRun.PassesOnly]
  | again hstage => simp [KeepsCode, hstage, AbortRun.PassesOnly]
  | @request kind closing stage r hstage _ =>
      rw [← passed_iff hstage]
      exact passesOnly_put { s.halves kind with half := r.1 }

/-- **An abort keeps its code**, on both halves and whatever operations are in
flight, exactly in the runs in which no operation reads its code after `close()`
has written 0 over it and `close()` finds no handle that was put back, or if the
code is 0. -/
theorem abort_keeps_code_iff {c : ℕ} {halves : HalfKind → HalfState} {as : List AbortAction}
    {s : AbortRun} (h : run (abortStep c) (.start halves) as = some s) :
    (∀ kind, ∀ code ∈ s.codes kind, code = c) ↔
      Meets (abortStep c) (KeepsCode c) (.start halves) as := by
  have hstart : (AbortRun.start halves).PassesOnly c := fun kind code hcode => by cases hcode
  have hiff := run_iff_meets abortStep_inv abortStep_passes_iff h (abortStart_inv c halves)
  exact hiff.trans (and_iff_right hstart)

/-- A stream with a send in flight and nothing going on on its receive half. -/
def sendInFlight : HalfKind → HalfState
  | .send => { HalfState.init with
      half := { StreamHalf.init with place := .lease 0, busy := true }
      operations := Function.update (fun _ => .idle) 0 .select }
  | .recv => HalfState.init

/-- The whole abort: twice four steps, the swap, and twice four again. -/
def wholeAbort : List AbortAction := List.replicate 18 .abort

/-- Wake the send up. -/
def wakeSend : List AbortAction := [.operation .send 0 .notified, .operation .send 0 .reset]

/-- The send reads its code before `close()` is called. -/
theorem abort_keeps_code_woken :
    ∃ s, run (abortStep 7) (.start sendInFlight)
        (List.replicate 9 .abort ++ wakeSend ++ List.replicate 9 .abort) = some s ∧
      s.codes .send = [7] ∧ s.codes .recv = [7] ∧
      Meets (abortStep 7) (KeepsCode 7) (.start sendInFlight)
        (List.replicate 9 .abort ++ wakeSend ++ List.replicate 9 .abort) := by
  obtain ⟨s, hrun, hsend, hrecv⟩ : ∃ s, run (abortStep 7) (.start sendInFlight)
        (List.replicate 9 .abort ++ wakeSend ++ List.replicate 9 .abort) = some s ∧
      s.codes .send = [7] ∧ s.codes .recv = [7] := ⟨_, rfl, rfl, rfl⟩
  refine ⟨s, hrun, hsend, hrecv, (abort_keeps_code_iff hrun).mp ?_⟩
  rintro (_ | _)
  · simp [hsend]
  · simp [hrecv]

/-- The send wakes up after the abort has returned, and resets its stream with
code 0 although the abort was called with 7. -/
theorem abort_loses_code :
    ∃ s, run (abortStep 7) (.start sendInFlight) (wholeAbort ++ wakeSend) = some s ∧
      s.stage = .returned true ∧ s.codes .send = [0] ∧ s.codes .recv = [7] :=
  ⟨_, rfl, rfl, rfl, rfl⟩

end IrohBeam
