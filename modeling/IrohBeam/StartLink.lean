/-
IrohBeam/StartLink.lean

Starting an endpoint: `Endpoint.start_link/1` and `init/1` of
`lib/iroh_beam/endpoint.ex`, with the bind of `endpoint.rs`.

`start_link` does not start its process linked.  It calls `GenServer.start`,
which spawns the endpoint process, waits for its `init` and so for the bind, and
links to the process afterwards.  The native monitors of a bind are on the
endpoint process itself, which calls `endpoint_bind_start` with `self()`; nobody
watches the process that started it.

So from the spawn to `Process.link` the death of the starter goes unnoticed, and
the endpoint comes up, and keeps its identity, with nobody left who knows it.  From
the link on an exit of the starter that is not normal ends the endpoint; but the
endpoint traps no exits, so a normal exit is no signal to it, and a starter whose
function returns leaves its endpoint behind as well.

`endpoint_never_orphaned_iff` says that these are the ways to lose an endpoint, and
no others; `endpoint_orphaned` is a run of each kind.
-/
import IrohBeam.Await

namespace IrohBeam

open Transition

variable {β : Type}

/-! ### The two processes -/

/-- How a process ends: its function returns, or an exception or an exit signal ends
it. -/
inductive StarterExit where
  | normal
  | abnormal
  deriving DecidableEq, Repr

/-- Where the starter is: in `validate_options`, in `GenServer.start` waiting for
the endpoint process, about to link to it, out of `start_link`, or dead. -/
inductive StarterStage where
  | validating
  | waiting
  | linking
  | returned
  | dead (reason : StarterExit)
  deriving DecidableEq, Repr

def StarterStage.isDead : StarterStage → Bool
  | .dead _ => true
  | _ => false

/-- Alive inside `start_link`. -/
def StarterStage.isInside : StarterStage → Bool
  | .validating | .waiting | .linking => true
  | _ => false

/-- Where the endpoint process is: in `init` before the bind, in
`await_operation` with the bind, in its loop, or gone. -/
inductive EndpointStage (β : Type) where
  | absent
  | starting
  | binding (await : Await β)
  | running
  | ended

/-- There is an endpoint process.  Its identity is reserved at most as long. -/
def EndpointStage.isAlive : EndpointStage β → Bool
  | .starting | .binding _ | .running => true
  | _ => false

/-- The starter, the endpoint process, the answer of its `init` to the starter,
and whether the starter is among its links.  It stays there until the exit
signal of a dead starter has arrived. -/
structure StartLink (β : Type) where
  starter : StarterStage
  endpoint : EndpointStage β
  answer : Option Bool
  linked : Bool

def StartLink.init : StartLink β :=
  { starter := .validating, endpoint := .absent, answer := none, linked := false }

/-- The steps.  `die` is the starter's death; `exit` any end of the endpoint process
but by the signal of its starter. -/
inductive StartAction (β : Type) where
  | refuse
  | spawn
  | bindStart (ok : Bool)
  | bind (a : AwaitAction β)
  | initDone
  | answered
  | lost
  | link
  | die (reason : StarterExit)
  | signal
  | exit

/-- The result of `init`: whether the endpoint process goes on. -/
def AwaitResult.isOk : AwaitResult β → Bool
  | .ok _ => true
  | _ => false

/-- One step of either process. -/
def startLinkStep (s : StartLink β) : StartAction β → Option (StartLink β)
  | .refuse =>
      if s.starter = .validating then some { s with starter := .returned } else none
  | .spawn =>
      if s.starter = .validating then
        some { s with starter := .waiting, endpoint := .starting }
      else none
  -- the name may be taken, or `endpoint_bind_start` refuse the identity
  | .bindStart ok =>
      match s.endpoint with
      | .starting =>
          if ok then some { s with endpoint := .binding (.start .bind) }
          else some { s with endpoint := .ended, answer := some false }
      | _ => none
  | .bind a =>
      match s.endpoint with
      | .binding w => (awaitStep w a).map fun w' => { s with endpoint := .binding w' }
      | _ => none
  | .initDone =>
      match s.endpoint with
      | .binding w =>
          match w.caller with
          | .returned result =>
              some { s with
                endpoint := if result.isOk then .running else .ended
                answer := some result.isOk }
          | _ => none
      | _ => none
  | .answered =>
      if s.starter = .waiting then
        s.answer.map fun ok => { s with starter := if ok then .linking else .returned }
      else none
  -- the monitor of `proc_lib:start`
  | .lost =>
      if s.starter = .waiting ∧ s.answer = none ∧ s.endpoint.isAlive = false then
        some { s with starter := .returned }
      else none
  -- linking to a process that is gone raises
  | .link =>
      if s.starter = .linking then
        some { s with starter := .returned, linked := s.endpoint.isAlive }
      else none
  -- no function returns while it is inside `start_link`
  | .die reason =>
      if s.starter.isDead = true ∨ reason = .normal ∧ s.starter.isInside = true then none
      else some { s with starter := .dead reason }
  -- a process that traps no exits ignores a normal one
  | .signal =>
      match s.starter, s.linked with
      | .dead .abnormal, true => some { s with endpoint := .ended, linked := false }
      | .dead .normal, true => some { s with linked := false }
      | _, _ => none
  | .exit =>
      if s.endpoint.isAlive = true then some { s with endpoint := .ended, linked := false }
      else none

/-- What each step does, and when it can be taken. -/
inductive StartMove (s : StartLink β) : StartAction β → StartLink β → Prop
  | refuse : s.starter = .validating → StartMove s .refuse { s with starter := .returned }
  | spawn : s.starter = .validating →
      StartMove s .spawn { s with starter := .waiting, endpoint := .starting }
  | binds : s.endpoint = .starting →
      StartMove s (.bindStart true) { s with endpoint := .binding (.start .bind) }
  | refuses : s.endpoint = .starting →
      StartMove s (.bindStart false) { s with endpoint := .ended, answer := some false }
  | bind {a w w'} : s.endpoint = .binding w → awaitStep w a = some w' →
      StartMove s (.bind a) { s with endpoint := .binding w' }
  | runs {w v} : s.endpoint = .binding w → w.caller = .returned (.ok v) →
      StartMove s .initDone { s with endpoint := .running, answer := some true }
  | stops {w} : s.endpoint = .binding w →
      StartMove s .initDone { s with endpoint := .ended, answer := some false }
  | accepted : s.starter = .waiting → StartMove s .answered { s with starter := .linking }
  | rejected : s.starter = .waiting → s.answer = some false →
      StartMove s .answered { s with starter := .returned }
  | lost : s.starter = .waiting → s.endpoint.isAlive = false →
      StartMove s .lost { s with starter := .returned }
  | link : s.starter = .linking →
      StartMove s .link { s with starter := .returned, linked := s.endpoint.isAlive }
  | die {reason} : s.starter.isDead = false →
      StartMove s (.die reason) { s with starter := .dead reason }
  | kills : s.starter = .dead .abnormal → s.linked = true →
      StartMove s .signal { s with endpoint := .ended, linked := false }
  | passes : s.starter = .dead .normal → s.linked = true →
      StartMove s .signal { s with linked := false }
  | exit : s.endpoint.isAlive = true →
      StartMove s .exit { s with endpoint := .ended, linked := false }

theorem startLinkStep_move {s s' : StartLink β} {a : StartAction β} (h : startLinkStep s a = some s') :
    StartMove s a s' := by
  cases a with
  | refuse =>
      simp only [startLinkStep] at h
      split at h
      · next hstarter => exact Option.some.inj h ▸ .refuse hstarter
      · cases h
  | spawn =>
      simp only [startLinkStep] at h
      split at h
      · next hstarter => exact Option.some.inj h ▸ .spawn hstarter
      · cases h
  | bindStart ok =>
      simp only [startLinkStep] at h
      split at h
      · next hstage =>
          cases ok with
          | false => exact Option.some.inj h ▸ .refuses hstage
          | true => exact Option.some.inj h ▸ .binds hstage
      · cases h
  | bind a =>
      simp only [startLinkStep] at h
      split at h
      · next w hstage =>
          obtain ⟨w', hw', rfl⟩ := Option.map_eq_some_iff.mp h
          exact .bind hstage hw'
      · cases h
  | initDone =>
      simp only [startLinkStep] at h
      split at h
      · next w hstage =>
          split at h
          · next result hcaller =>
              cases result with
              | ok v => exact Option.some.inj h ▸ .runs hstage hcaller
              | error e => exact Option.some.inj h ▸ .stops hstage
              | timedOut => exact Option.some.inj h ▸ .stops hstage
          · cases h
      · cases h
  | answered =>
      simp only [startLinkStep] at h
      split at h
      · next hstarter =>
          obtain ⟨ok, hok, rfl⟩ := Option.map_eq_some_iff.mp h
          cases ok with
          | false => exact .rejected hstarter hok
          | true => exact .accepted hstarter
      · cases h
  | lost =>
      simp only [startLinkStep] at h
      split at h
      · next hlost => exact Option.some.inj h ▸ .lost hlost.1 hlost.2.2
      · cases h
  | link =>
      simp only [startLinkStep] at h
      split at h
      · next hstarter => exact Option.some.inj h ▸ .link hstarter
      · cases h
  | die reason =>
      simp only [startLinkStep] at h
      split at h
      · cases h
      · next hstarter =>
          exact Option.some.inj h ▸ .die (Bool.eq_false_iff.mpr (not_or.mp hstarter).1)
  | signal =>
      simp only [startLinkStep] at h
      split at h
      · next hdead hlinked => exact Option.some.inj h ▸ .kills hdead hlinked
      · next hdead hlinked => exact Option.some.inj h ▸ .passes hdead hlinked
      · cases h
  | exit =>
      simp only [startLinkStep] at h
      split at h
      · next halive => exact Option.some.inj h ▸ .exit halive
      · cases h

/-! ### Orphans -/

/-- The starter watches the endpoint process, by its link or from inside
`start_link`; and if it has died, the endpoint process is about to end too. -/
structure StartLink.NoOrphan (s : StartLink β) : Prop where
  watched : s.endpoint.isAlive = true → s.linked = true ∨ s.starter.isInside = true
  doomed : s.starter.isDead = true → s.endpoint.isAlive = true →
    ∃ t, startLinkStep s .signal = some t ∧ t.endpoint = .ended

/-- The side condition: unless the endpoint process is gone, the starter does not die
between the spawn of that process and the link to it, and never of a normal exit. -/
def DiesWatching (s : StartLink β) : StartAction β → Prop
  | .die .abnormal => s.starter = .waiting ∨ s.starter = .linking → s.endpoint.isAlive = false
  | .die .normal => s.endpoint.isAlive = false
  | _ => True

/-- What holds in every run: `start_link` leaves its endpoint process linked, or
gone. -/
structure StartLink.Inv (s : StartLink β) : Prop where
  fresh : s.starter = .validating → s.endpoint = .absent ∧ s.answer = none
  rejected : s.answer = some false → s.endpoint.isAlive = false
  linked : s.linked = true → s.starter = .returned ∨ s.starter.isDead = true
  returned : s.starter = .returned → s.endpoint.isAlive = true → s.linked = true

theorem startLink_inv_init : (StartLink.init : StartLink β).Inv where
  fresh _ := ⟨rfl, rfl⟩
  rejected h := by cases h
  linked h := by cases h
  returned h := by cases h

/-- An end of the endpoint process keeps everything. -/
theorem StartLink.Inv.ended {s : StartLink β} (hs : s.Inv) (halive : s.endpoint.isAlive = true)
    (answer : Option Bool) (linked : Bool) (hlinked : linked = true → s.linked = true) :
    ({ s with endpoint := .ended, answer := answer, linked := linked } : StartLink β).Inv where
  fresh h := by
    rw [(hs.fresh h).1] at halive
    cases halive
  rejected _ := rfl
  linked h := hs.linked (hlinked h)
  returned _ h := by cases h

/-- The endpoint process goes on. -/
theorem StartLink.Inv.goesOn {s : StartLink β} (hs : s.Inv) (halive : s.endpoint.isAlive = true)
    (endpoint : EndpointStage β) {answer : Option Bool}
    (hanswer : answer = some false → s.answer = some false) :
    { s with endpoint := endpoint, answer := answer }.Inv where
  fresh h := by
    rw [(hs.fresh h).1] at halive
    cases halive
  rejected h := by
    rw [hs.rejected (hanswer h)] at halive
    cases halive
  linked := hs.linked
  returned h _ := hs.returned h halive

/-- The starter leaves `start_link` with no endpoint process behind. -/
theorem StartLink.Inv.leaves {s : StartLink β} (hs : s.Inv) (hgone : s.endpoint.isAlive = false) :
    { s with starter := .returned }.Inv where
  fresh h := by cases h
  rejected := hs.rejected
  linked _ := .inl rfl
  returned _ h := by
    rw [hgone] at h
    cases h

theorem startLinkStep_inv (s : StartLink β) (a : StartAction β) (s' : StartLink β) (hs : s.Inv)
    (h : startLinkStep s a = some s') : s'.Inv := by
  cases startLinkStep_move h with
  | refuse hstarter => exact hs.leaves (by rw [(hs.fresh hstarter).1]; rfl)
  | spawn hstarter =>
      refine ⟨fun h => (by cases h), ?_, ?_, fun h => (by cases h)⟩
      · intro hanswer
        rw [show s.answer = none from (hs.fresh hstarter).2] at hanswer
        cases hanswer
      · intro hlinked
        rcases hs.linked hlinked with h | h <;> rw [hstarter] at h <;> cases h
  | binds hstage => exact hs.goesOn (by rw [hstage]; rfl) _ id
  | refuses hstage => exact hs.ended (by rw [hstage]; rfl) _ _ id
  | bind hstage _ => exact hs.goesOn (by rw [hstage]; rfl) _ id
  | runs hstage _ => exact hs.goesOn (by rw [hstage]; rfl) _ fun h => (by cases h)
  | stops hstage => exact hs.ended (by rw [hstage]; rfl) _ _ id
  | accepted hstarter =>
      refine ⟨fun h => (by cases h), hs.rejected, ?_, fun h => (by cases h)⟩
      intro hlinked
      rcases hs.linked hlinked with h | h <;> rw [hstarter] at h <;> cases h
  | rejected hstarter hanswer => exact hs.leaves (hs.rejected hanswer)
  | lost _ hgone => exact hs.leaves hgone
  | link _ => exact ⟨fun h => (by cases h), hs.rejected, fun _ => .inl rfl, fun _ => id⟩
  | die _ => exact ⟨fun h => (by cases h), hs.rejected, fun _ => .inr rfl, fun h => (by cases h)⟩
  | kills hdead hlinked =>
      refine ⟨?_, fun _ => rfl, fun h => (by cases h), fun _ h => (by cases h)⟩
      intro hfresh
      rw [show s.starter = .dead .abnormal from hdead] at hfresh
      cases hfresh
  | passes hdead hlinked =>
      refine ⟨hs.fresh, hs.rejected, fun h => (by cases h), ?_⟩
      intro hreturned
      rw [show s.starter = .dead .normal from hdead] at hreturned
      cases hreturned
  | exit halive => exact hs.ended halive _ _ fun h => (by cases h)

/-- A dead starter's signal ends the endpoint process it is linked to, unless the exit
was normal. -/
theorem StartLink.noOrphan_iff {s : StartLink β} :
    s.NoOrphan ↔ (s.endpoint.isAlive = true →
      s.linked = true ∧ s.starter ≠ .dead .normal ∨ s.starter.isInside = true) := by
  constructor
  · intro h halive
    rcases h.watched halive with hlinked | hinside
    · refine .inl ⟨hlinked, fun hnormal => ?_⟩
      -- the signal of a normal exit leaves the endpoint process
      obtain ⟨t, ht, hended⟩ := h.doomed (by rw [hnormal]; rfl) halive
      simp only [startLinkStep, hnormal, hlinked] at ht
      obtain rfl := Option.some.inj ht
      rw [show s.endpoint = .ended from hended] at halive
      cases halive
    · exact .inr hinside
  · intro h
    refine ⟨fun halive => (h halive).imp And.left id, ?_⟩
    intro hdead halive
    rcases h halive with ⟨hlinked, habnormal⟩ | hinside
    · cases hstarter : s.starter with
      | dead reason =>
          cases reason with
          | normal => exact absurd hstarter habnormal
          | abnormal =>
              refine ⟨{ s with endpoint := .ended, linked := false }, ?_, rfl⟩
              simp only [startLinkStep, hstarter, hlinked]
      | _ =>
          rw [hstarter] at hdead
          cases hdead
    · cases hstarter : s.starter <;> rw [hstarter] at hdead hinside <;> cases hdead
      cases hinside

theorem StartLink.noOrphan_of_gone {s : StartLink β} (h : s.endpoint.isAlive = false) :
    s.NoOrphan := by
  rw [StartLink.noOrphan_iff, h]
  intro h
  cases h

/-- An endpoint process that goes on is watched as before. -/
theorem StartLink.NoOrphan.goesOn {s : StartLink β} (hP : s.NoOrphan)
    (halive : s.endpoint.isAlive = true) (endpoint : EndpointStage β) (answer : Option Bool) :
    { s with endpoint := endpoint, answer := answer }.NoOrphan :=
  have hwatched := StartLink.noOrphan_iff.mp hP halive
  StartLink.noOrphan_iff.mpr fun _ => hwatched

/-- No step but the starter's death orphans an endpoint. -/
theorem StartMove.noOrphan {s s' : StartLink β} {a : StartAction β} (hs : s.Inv)
    (hP : s.NoOrphan) (h : StartMove s a s') (ha : ∀ reason, a ≠ .die reason) : s'.NoOrphan := by
  cases h with
  | refuse hstarter =>
      apply StartLink.noOrphan_of_gone
      rw [(hs.fresh hstarter).1]
      rfl
  | spawn _ => exact StartLink.noOrphan_iff.mpr fun _ => .inr rfl
  | binds hstage => exact hP.goesOn (by rw [hstage]; rfl) _ _
  | refuses _ => exact StartLink.noOrphan_of_gone rfl
  | bind hstage _ => exact hP.goesOn (by rw [hstage]; rfl) _ _
  | runs hstage _ => exact hP.goesOn (by rw [hstage]; rfl) _ _
  | stops _ => exact StartLink.noOrphan_of_gone rfl
  | accepted _ => exact StartLink.noOrphan_iff.mpr fun _ => .inr rfl
  | rejected _ hanswer => exact StartLink.noOrphan_of_gone (hs.rejected hanswer)
  | lost _ hgone => exact StartLink.noOrphan_of_gone hgone
  | link _ => exact StartLink.noOrphan_iff.mpr fun halive => .inl ⟨halive, fun h => by cases h⟩
  | die _ => exact absurd rfl (ha _)
  | kills _ _ => exact StartLink.noOrphan_of_gone rfl
  | passes hdead _ =>
      -- of a normal exit the endpoint process is gone already
      apply StartLink.noOrphan_of_gone
      rw [Bool.eq_false_iff]
      intro halive
      rcases StartLink.noOrphan_iff.mp hP halive with ⟨-, habnormal⟩ | hinside
      · exact habnormal hdead
      · rw [hdead] at hinside
        cases hinside
  | exit _ => exact StartLink.noOrphan_of_gone rfl

/-- The starter's death does, unless the process is gone or is linked to it and ends
with it. -/
theorem StartLink.Inv.die_iff {s : StartLink β} (hs : s.Inv) (hP : s.NoOrphan)
    (hnot : s.starter.isDead = false) (reason : StarterExit) :
    { s with starter := .dead reason }.NoOrphan ↔ DiesWatching s (.die reason) := by
  rw [StartLink.noOrphan_iff]
  cases reason with
  | normal =>
      refine ⟨fun horphan => Bool.eq_false_iff.mpr fun halive => ?_, fun hgone halive => ?_⟩
      · rcases horphan halive with ⟨-, habnormal⟩ | hinside
        · exact habnormal rfl
        · cases hinside
      · exact absurd halive (Bool.eq_false_iff.mp hgone)
  | abnormal =>
      constructor
      · -- without a link the dead starter leaves nobody behind
        intro horphan hbetween
        rw [Bool.eq_false_iff]
        intro halive
        rcases horphan halive with ⟨hlinked, -⟩ | hinside
        · rcases hs.linked hlinked with h | h
          · rw [h] at hbetween
            simp at hbetween
          · exact absurd h (Bool.eq_false_iff.mp hnot)
        · cases hinside
      · intro hdies halive
        refine .inl ⟨?_, fun h => by cases h⟩
        rcases hP.watched halive with hlinked | hinside
        · exact hlinked
        · cases hstarter : s.starter with
          | validating => rw [(hs.fresh hstarter).1] at halive; cases halive
          | waiting => rw [hdies (.inl hstarter)] at halive; cases halive
          | linking => rw [hdies (.inr hstarter)] at halive; cases halive
          | returned => exact hs.returned hstarter halive
          | dead reason => rw [hstarter] at hnot; cases hnot

/-- **A step orphans an endpoint exactly if the starter dies in between or of a normal
exit.** -/
theorem startLinkStep_orphan_iff (s : StartLink β) (a : StartAction β) (s' : StartLink β)
    (hs : s.Inv) (hP : s.NoOrphan) (h : startLinkStep s a = some s') :
    s'.NoOrphan ↔ DiesWatching s a := by
  have hmove := startLinkStep_move h
  cases a with
  | die reason =>
      cases hmove with
      | die hnot => exact hs.die_iff hP hnot reason
  | _ => exact ⟨fun _ => trivial, fun _ => hmove.noOrphan hs hP (by simp)⟩

/-- **No orphaned endpoint**: every state of a run has its endpoint process
watched, and doomed with its starter, exactly if the starter does not die between
the spawn and the link, and not of a normal exit before the endpoint has ended. -/
theorem endpoint_never_orphaned_iff {as : List (StartAction β)} {s : StartLink β}
    (h : run startLinkStep .init as = some s) :
    Always startLinkStep StartLink.NoOrphan .init as ↔ Meets startLinkStep DiesWatching .init as :=
  always_iff_meets startLinkStep_inv startLinkStep_orphan_iff h startLink_inv_init
    (StartLink.noOrphan_of_gone rfl)

/-- A start up to the bind. -/
def startedBind : List (StartAction ℕ) := [.spawn, .bindStart true]

/-- The bind succeeds and `init` returns. -/
def boundInit : List (StartAction ℕ) :=
  [.bind (.op (.finish (.value 0))), .bind (.op .selectTask), .bind (.op .complete),
    .bind (.op (.send true)), .bind .receive, .initDone]

/-- The whole of `start_link`. -/
def linkedStart : List (StartAction ℕ) := startedBind ++ boundInit ++ [.answered, .link]

/-- A starter that is killed after `start_link` takes its endpoint along. -/
theorem endpoint_never_orphaned_linked :
    ∃ s, run startLinkStep .init (linkedStart ++ [.die .abnormal, .signal]) = some s ∧
      (s.starter = .dead .abnormal ∧ s.endpoint = .ended) ∧
      Always startLinkStep StartLink.NoOrphan .init
        (linkedStart ++ [.die .abnormal, .signal]) := by
  have hstart : Meets startLinkStep DiesWatching .init linkedStart := by
    apply meets_of_forall
    intro a ha s
    cases a with
    | die reason => simp [linkedStart, startedBind, boundInit] at ha
    | _ => trivial
  refine ⟨_, rfl, ⟨rfl, rfl⟩, (endpoint_never_orphaned_iff rfl).mpr (hstart.append rfl ?_)⟩
  refine meets_cons ?_ rfl (meets_cons trivial rfl (meets_nil _))
  -- the starter has returned
  rintro (h | h) <;> cases h

/-- **An orphaned endpoint**: the starter is killed during the bind, and the
endpoint comes up unlinked.  It is left behind too by a starter that has linked to it
and then ends normally. -/
theorem endpoint_orphaned :
    (∃ s, run startLinkStep .init (startedBind ++ [.die .abnormal] ++ boundInit) = some s ∧
      s.endpoint = .running ∧ s.linked = false ∧ s.starter = .dead .abnormal ∧ ¬ s.NoOrphan) ∧
    ∃ s, run startLinkStep .init (linkedStart ++ [.die .normal, .signal]) = some s ∧
      s.endpoint = .running ∧ s.linked = false ∧ s.starter = .dead .normal ∧ ¬ s.NoOrphan := by
  refine ⟨⟨_, rfl, rfl, rfl, rfl, ?_⟩, _, rfl, rfl, rfl, rfl, ?_⟩
  · intro h
    rcases h.watched rfl with hlinked | hinside
    · cases hlinked
    · cases hinside
  · intro h
    rcases h.watched rfl with hlinked | hinside
    · cases hlinked
    · cases hinside

end IrohBeam
