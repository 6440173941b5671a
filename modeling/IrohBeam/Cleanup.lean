/-
IrohBeam/Cleanup.lean

What a controller leaves behind.  `start_controller/6` runs its output loop in a
`try` whose `after` part calls `unregister_link` and `close_session`, and
`holder/2` closes the session in each of its own exits; but the set-up before
the `try` has no such part, a process is not yet trapping exits when it starts,
and in the `after` part a failing `unregister_link` skips `close_session`.

`LinkRun.Cleaned` says what a finished controller should have done.  A finished
controller that did not crash has answered calls only, so the server took up
its registration, if at all, and then its removal (`processed_of_closes`); the
rest follows from what the link table is.  `controller_cleanup_iff` says that
the runs that clean up are exactly those without one of the five failures.
-/
import IrohBeam.LinkSystem

namespace IrohBeam

open Transition

/-- What a finished controller has done: `close_session/1` has been called, and
whatever registration of it the server took up, it took up the removal after
it; so the table has no entry of this controller. -/
structure LinkRun.Cleaned (p : LinkNames) (server : Server) (s : LinkRun) : Prop where
  closed : s.stage.over = true → s.closed = true
  ordered : s.stage.over = true → ∀ before m after node, s.history = before ++ m :: after →
    m.linkCall p.owner = some (.register node) →
    ∃ m' ∈ after, m'.linkCall p.owner = some (.unregister node)
  absent : s.stage.over = true → ∀ node link, (s.links server).lookup node = some link →
    link.owner ≠ p.owner

/-- The condition on a step: it is none of those that end the controller outside
the `try` or inside the `after` part. -/
def CleanStep (_ : LinkRun) : LinkAction → Prop
  | .control a => a.breaks = false
  | _ => True

/-! ### A finished controller -/

theorem ControlStage.over_eq (stage : ControlStage) :
    stage.over = (stage.closes || stage.crashes) := by
  cases stage with
  | ended how => cases how <;> rfl
  | _ => rfl

/-- Of a controller that has closed its session the server has taken up no call
of the link table, or the registration and then the removal. -/
theorem processed_of_closes {p : LinkNames} {s : LinkRun} (hs : s.Inv p)
    (hcloses : s.stage.closes = true) :
    s.processed p = [] ∨ s.processed p = [.register p.node, .unregister p.node] := by
  have hcalls := hs.calls
  have hanswered := hs.answered
  cases hstage : s.stage with
  | ended how =>
      rw [hstage] at hcalls hanswered hcloses
      cases how with
      | refused => exact .inl (List.append_eq_nil_iff.mp hcalls).1
      | done =>
          -- both calls were answered, so none is on its way
          have hlen := congrArg List.length hcalls
          have htwo : 2 ≤ (s.processed p).length := hanswered
          have hcount : (s.processed p ++
              s.fromControl.filterMap (Message.linkCall p.owner)).length = 2 := hlen
          rw [List.length_append] at hcount
          have hrest : s.fromControl.filterMap (Message.linkCall p.owner) = [] :=
            List.length_eq_zero_iff.mp (by omega)
          rw [hrest, List.append_nil] at hcalls
          exact .inr hcalls
      | _ => cases hcloses
  | _ =>
      rw [hstage] at hcloses
      cases hcloses

/-! ### Steps and runs -/

/-- A controller cleans up exactly if it does not crash. -/
theorem cleaned_iff {p : LinkNames} {server : Server} (hserver : server.links = ∅) {s : LinkRun}
    (hs : s.Inv p) : s.Cleaned p server ↔ s.stage.crashes = false := by
  constructor
  · intro hclean
    have hover := s.stage.over_eq
    cases hcrash : s.stage.crashes with
    | false => rfl
    | true =>
        rw [hcrash, Bool.or_true] at hover
        have hclosed := hclean.closed hover
        rw [hs.closed] at hclosed
        cases hstage : s.stage with
        | ended how =>
            rw [hstage] at hclosed hcrash
            cases how <;> cases hclosed <;> cases hcrash
        | _ =>
            rw [hstage] at hclosed
            cases hclosed
  · intro hcrash
    have hcloses : s.stage.over = true → s.stage.closes = true := by
      rw [s.stage.over_eq, hcrash, Bool.or_false]
      exact id
    have hordered : s.stage.over = true → ∀ before m after node, s.history = before ++ m :: after →
        m.linkCall p.owner = some (.register node) →
        ∃ m' ∈ after, m'.linkCall p.owner = some (.unregister node) := by
      intro hover before m after node hhistory hm
      exact removal_of_processed (processed_of_closes hs (hcloses hover)) hhistory hm
    refine ⟨?_, hordered, ?_⟩
    · intro hover
      rw [hs.closed]
      exact hcloses hover
    · intro hover node link hlink
      exact no_entry_of_removals hserver (hordered hover) hlink

/-- **The step lemma**: a step crashes the controller exactly if it is one of
the five failures. -/
theorem linkRunStep_crashes (p : LinkNames) (s : LinkRun) (a : LinkAction) (s' : LinkRun)
    (h : linkRunStep p s a = some s') :
    s'.stage.crashes = false ↔ s.stage.crashes = false ∧ CleanStep s a := by
  have hsame : s'.stage = s.stage → CleanStep s a →
      (s'.stage.crashes = false ↔ s.stage.crashes = false ∧ CleanStep s a) := by
    intro hstage hclean
    rw [hstage]
    exact (and_iff_left hclean).symm
  cases linkRunStep_move h with
  | control hstep =>
      have hchange := controlStep_change hstep
      have hrun : s.stage.crashes = false := by
        have hover := hchange.running
        rw [s.stage.over_eq, Bool.or_eq_false_iff] at hover
        exact hover.2
      rw [hchange.crashes]
      exact (and_iff_right hrun).symm
  | input hmove => exact hsame hmove.frame.1 trivial
  | post _ _ => exact hsame rfl trivial
  | exitSignal _ => exact hsame rfl trivial
  | serveControl _ => exact hsame rfl trivial
  | serveInput _ => exact hsame rfl trivial
  | serveOther _ => exact hsame rfl trivial

/-- **Controller cleanup**: in the state a run reaches a finished controller has
closed its session and left no entry, exactly if on the way it was not killed
before it traps exits, `dist_ctrl_set_opt/3` and `dist_ctrl_input_handler/2` did
not fail, and no call of `register_link` or `unregister_link` did. -/
theorem controller_cleanup_iff (p : LinkNames) (config : Config) (endpoint : Pid)
    (endpointId : EndpointId) (endpointAddr : EndpointAddr) (creation : ℕ) (acceptor : Pid)
    {as : List LinkAction} {s : LinkRun} (h : run (linkRunStep p) .start as = some s) :
    s.Cleaned p (.start config endpoint endpointId endpointAddr creation acceptor) ↔
      Meets (linkRunStep p) CleanStep .start as := by
  have hs : s.Inv p := run_invariant (linkRunStep_inv p) h (linkStart_inv p)
  rw [cleaned_iff rfl hs]
  have hiff : s.stage.crashes = false ↔
      LinkRun.start.stage.crashes = false ∧ Meets (linkRunStep p) CleanStep .start as :=
    run_iff_meets (linkRunStep_inv p) (fun s a s' _ hstep => linkRunStep_crashes p s a s' hstep) h
      (linkStart_inv p)
  exact hiff.trans (and_iff_right rfl)

/-- The link comes up, the input process ends with the stream, and the
controller takes the link down. -/
def streamEnds : List LinkAction :=
  [.serveControl, .control .answered, .control .confirm, .control (.notify true), .input .begin,
    .input .fail, .exitSignal, .control .receive, .control .unregister, .serveControl,
    .control .answered, .control .closeSession]

theorem controller_cleanup_stream_ends :
    ∃ s, run (linkRunStep sampleNames) .start (setUp ++ streamEnds) = some s ∧
      s.stage = .ended .done ∧ s.Cleaned sampleNames linkServer := by
  obtain ⟨s, hrun, hstage⟩ :
      ∃ s, run (linkRunStep sampleNames) .start (setUp ++ streamEnds) = some s ∧
        s.stage = .ended .done := ⟨_, rfl, rfl⟩
  refine ⟨s, hrun, hstage, (controller_cleanup_iff sampleNames _ _ _ _ _ _ hrun).mpr ?_⟩
  exact meets_of_forall (by simp [setUp, streamEnds, CleanStep, ControlAction.breaks]) _

/-- The answer to `register_link` does not come in time: the controller ends,
with its session open, and the server then takes up the registration. -/
theorem controller_leaves_link :
    ∃ s, run (linkRunStep sampleNames) .start
        (setUp ++ [.control .failed, .serveControl]) = some s ∧
      s.stage = .ended .register ∧ s.closed = false ∧ s.fromControl = [] ∧
      (s.links linkServer).lookup sampleNames.node =
        some ⟨sampleNames.owner, samplePeerId, none, 0, 0, 0, 0⟩ ∧
      ¬ s.Cleaned sampleNames linkServer := by
  obtain ⟨s, hrun, hstage, hopen, hsent, hlink⟩ :
      ∃ s, run (linkRunStep sampleNames) .start
          (setUp ++ [.control .failed, .serveControl]) = some s ∧
        s.stage = .ended .register ∧ s.closed = false ∧ s.fromControl = [] ∧
        (s.links linkServer).lookup sampleNames.node =
          some ⟨sampleNames.owner, samplePeerId, none, 0, 0, 0, 0⟩ := ⟨_, rfl, rfl, rfl, rfl, rfl⟩
  refine ⟨s, hrun, hstage, hopen, hsent, hlink, ?_⟩
  intro hclean
  have hclosed := hclean.closed (by rw [hstage]; rfl)
  rw [hopen] at hclosed
  cases hclosed

end IrohBeam
