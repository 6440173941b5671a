/-
IrohBeam/Distribution.lean

Starting and stopping distribution (`lib/iroh_beam/distribution.ex`) from any
number of processes at once.

Three parties share two things.  `Distribution.start` and
`Distribution.stop` calls and the endpoint server, which starts inside
`net_kernel:start` in a process of its own, all read or write the
persistent term of the configuration; and `net_kernel` runs at most once.
Every access is one step of its call.

`Config.install` reads the term and then writes it, and a failed start
erases it without looking, so calls can disturb each other
(`concurrent_starts_disturbed`).  They do not as long as every put finds
the term empty and no other call that may still erase it (`PutAlone`,
`starts_undisturbed`).
-/
import IrohBeam.Run
import IrohBeam.EndpointOptions
import Mathlib.Logic.Function.Basic

namespace IrohBeam

open Bytes Transition

/-! ### The calls -/

/-- The persistent term.  `owner` records who has put it: a start call, or
the endpoint when it loads the boot-time configuration; the code does not
see it. -/
structure Installed where
  config : Config
  owner : Option ℕ

/-- How far the endpoint is with `Config.load/0`. -/
inductive ConfigLoad where
  | reading
  | earlyGet (config : Config)
  | earlyPut (config : Config)
  | loaded (config : Config)
  | refused

/-- `net_kernel`: down, starting on behalf of a call, or running with the
configuration its endpoint has loaded. -/
inductive Kernel where
  | down
  | starting (call : ℕ) (load : ConfigLoad)
  | running (loaded : Config)

/-- Where a call is: what it does next, or how it has returned. -/
inductive DistStage where
  | idle
  | requireInitArguments
  | validate
  | installGet (config : Config)
  | installPut (config : Config)
  | kernelStart (config : Config)
  | inKernel (config : Config)
  | status (config : Config)
  | rollbackStop
  | uninstall (message : String)
  | started (config : Config)
  | failed (failure : Failure)
  | stopGet
  | kernelStop
  | stopUninstall
  | stopped

/-- The steps of the calls. -/
inductive DistAction where
  | requireUnnamed
  | requireInitArguments
  | validate
  | installGet
  | installPut
  | kernelStart
  | kernelLoad
  | kernelEarlyGet
  | kernelEarlyPut
  | kernelUp
  | kernelFail
  | status (ready : Bool)
  | rollbackStop
  | uninstall
  | stop
  | stopGet
  | kernelStop
  | stopUninstall
  deriving DecidableEq, Repr

/-- Whether a step belongs to a start call, its `net_kernel:start` included. -/
def DistAction.ofStart : DistAction → Bool
  | .stop | .stopGet | .kernelStop | .stopUninstall => false
  | _ => true

/-- The init arguments of the VM, the options of each start call and the
boot-time application environment. -/
structure DistSetting where
  nif : IdentityNif
  protoDist : List Binary
  noEpmd : Bool
  options : ℕ → Term
  earlyOptions : Term

/-- The shared state, the calls, and which of them have returned `{:ok, _}`
with no stop succeeding since. -/
structure DistState where
  term : Option Installed
  kernel : Kernel
  calls : ℕ → DistStage
  standing : ℕ → Bool

/-- A VM that is not distributed. -/
def DistState.init : DistState :=
  { term := none, kernel := .down, calls := fun _ => .idle, standing := fun _ => false }

/-- `error(:distribution_start, message)`. -/
def startError (message : String) : Failure :=
  .error ⟨.invalidArgument, .distributionStart, message⟩

/-- `error(:distribution_stop, message)`. -/
def stopError (message : String) : Failure :=
  .error ⟨.invalidArgument, .distributionStop, message⟩

/-- Call `c` moves on. -/
def DistState.to (s : DistState) (c : ℕ) (stage : DistStage) : DistState :=
  { s with calls := Function.update s.calls c stage }

/-- `require_init_arguments/0`. -/
def requireInitArguments (setting : DistSetting) : Except Failure Unit :=
  if ascii "iroh" ∉ setting.protoDist then
    .error (startError "launch the VM with -proto_dist iroh")
  else if setting.noEpmd = false then .error (startError "launch the VM with -no_epmd")
  else .ok ()

/-- The configuration `load_early/0` validates. -/
def earlyConfig (setting : DistSetting) : Except Failure Config :=
  match setting.earlyOptions with
  | .list ts => validate setting.nif (.list ts) .early
  | _ => invalidConfig "boot-time :iroh_beam distribution configuration is missing"

/-- The steps of `start/1` up to `net_kernel:start`. -/
def startStep (setting : DistSetting) (s : DistState) (c : ℕ) :
    DistAction → DistStage → Option DistState
  | .requireUnnamed, .idle =>
      match s.kernel with
      | .running _ => some (s.to c (.failed (startError "the VM is already distributed")))
      | _ => some (s.to c .requireInitArguments)
  | .requireInitArguments, .requireInitArguments =>
      match requireInitArguments setting with
      | .ok () => some (s.to c .validate)
      | .error failure => some (s.to c (.failed failure))
  | .validate, .validate =>
      match validate setting.nif (setting.options c) .dynamic with
      | .ok config => some (s.to c (.installGet config))
      | .error failure => some (s.to c (.failed failure))
  | .installGet, .installGet config =>
      match s.term with
      | none => some (s.to c (.installPut config))
      | some _ => some (s.to c (.failed (.error ⟨.alreadyStarted, .distribution,
          "distribution configuration is already installed"⟩)))
  | .installPut, .installPut config =>
      some ({ s with term := some ⟨config, some c⟩ }.to c (.kernelStart config))
  | .kernelStart, .kernelStart config =>
      match s.kernel with
      | .down => some ({ s with kernel := .starting c .reading }.to c (.inKernel config))
      | .running _ => some (s.to c (.uninstall "net_kernel could not start"))
      -- the supervisor serialises starts: this one waits
      | .starting _ _ => none
  | .status ready, .status config =>
      match ready, s.kernel with
      | true, .running _ =>
          some ({ s with standing := Function.update s.standing c true }.to c (.started config))
      | true, _ => none
      | false, _ => some (s.to c .rollbackStop)
  | .rollbackStop, .rollbackStop =>
      match s.kernel with
      | .starting _ _ => none
      | _ => some ({ s with kernel := .down }.to c
          (.uninstall "distribution endpoint did not become ready"))
  | .uninstall, .uninstall message =>
      some ({ s with term := none }.to c (.failed (startError message)))
  | _, _ => none

/-- The steps of `net_kernel:start` for a call: the endpoint loads its
configuration, and the kernel comes up or fails. -/
def kernelStep (setting : DistSetting) (s : DistState) (c : ℕ) (config : Config) :
    DistAction → ConfigLoad → Option DistState
  | .kernelLoad, .reading =>
      match s.term with
      | some installed => some { s with kernel := .starting c (.loaded installed.config) }
      | none =>
          match earlyConfig setting with
          | .ok early => some { s with kernel := .starting c (.earlyGet early) }
          | .error _ => some { s with kernel := .starting c .refused }
  | .kernelEarlyGet, .earlyGet early =>
      match s.term with
      | none => some { s with kernel := .starting c (.earlyPut early) }
      | some _ => some { s with kernel := .starting c .refused }
  | .kernelEarlyPut, .earlyPut early =>
      some { s with term := some ⟨early, none⟩, kernel := .starting c (.loaded early) }
  | .kernelUp, .loaded loaded => some ({ s with kernel := .running loaded }.to c (.status config))
  | .kernelFail, _ =>
      some ({ s with kernel := .down }.to c (.uninstall "net_kernel could not start"))
  | _, _ => none

/-- The steps of `stop/0`. -/
def stopStep (s : DistState) (c : ℕ) : DistAction → DistStage → Option DistState
  | .stop, .idle => some (s.to c .stopGet)
  | .stopGet, .stopGet =>
      match s.term with
      | some installed =>
          match installed.config.mode with
          | .dynamic => some (s.to c .kernelStop)
          | .early => some (s.to c
              (.failed (stopError "early distribution cannot be stopped dynamically")))
      | none => some (s.to c (.failed (stopError "Iroh distribution is not running")))
  | .kernelStop, .kernelStop =>
      match s.kernel with
      | .running _ => some ({ s with kernel := .down }.to c .stopUninstall)
      | .down => some (s.to c (.failed (stopError "net_kernel could not stop")))
      | .starting _ _ => none
  | .stopUninstall, .stopUninstall =>
      some ({ s with term := none, standing := fun _ => false }.to c .stopped)
  | _, _ => none

/-- One step of call `c`. -/
def distStep (setting : DistSetting) (s : DistState) (a : ℕ × DistAction) : Option DistState :=
  match s.calls a.1, s.kernel with
  | .inKernel config, .starting c load =>
      if c = a.1 then kernelStep setting s a.1 config a.2 load else none
  | stage, _ => if a.2.ofStart then startStep setting s a.1 a.2 stage else stopStep s a.1 a.2 stage

/-! ### What a step can do -/

/-- A start call that may still erase the term. -/
def DistStage.Pending : DistStage → Prop
  | .kernelStart _ | .inKernel _ | .status _ | .rollbackStop | .uninstall _ => True
  | _ => False

/-- A stage that holds nothing of the shared state. -/
def DistStage.Quiet : DistStage → Prop
  | .started _ | .stopUninstall => False
  | stage => ¬ stage.Pending

/-- The steps by what they change. -/
inductive DistMove (s : DistState) (c : ℕ) : DistAction → DistState → Prop
  | quiet {action : DistAction} {stage : DistStage} (hold : (s.calls c).Quiet)
      (hnew : stage.Quiet) (hput : action ≠ .installPut) : DistMove s c action (s.to c stage)
  | put {config : Config} (hstage : s.calls c = .installPut config) :
      DistMove s c .installPut
        ({ s with term := some ⟨config, some c⟩ }.to c (.kernelStart config))
  | kernelStart {config : Config} (hstage : s.calls c = .kernelStart config)
      (hkernel : s.kernel = .down) :
      DistMove s c .kernelStart ({ s with kernel := .starting c .reading }.to c (.inKernel config))
  | kernelBusy {config loaded : Config} (hstage : s.calls c = .kernelStart config)
      (hkernel : s.kernel = .running loaded) :
      DistMove s c .kernelStart (s.to c (.uninstall "net_kernel could not start"))
  | load {config : Config} {installed : Installed} (hstage : s.calls c = .inKernel config)
      (hkernel : s.kernel = .starting c .reading) (hterm : s.term = some installed) :
      DistMove s c .kernelLoad { s with kernel := .starting c (.loaded installed.config) }
  | loadEarly {config : Config} {load : ConfigLoad} (hstage : s.calls c = .inKernel config)
      (hkernel : s.kernel = .starting c .reading) (hterm : s.term = none) :
      DistMove s c .kernelLoad { s with kernel := .starting c load }
  | earlyGet {config early : Config} {load : ConfigLoad} (hstage : s.calls c = .inKernel config)
      (hkernel : s.kernel = .starting c (.earlyGet early)) :
      DistMove s c .kernelEarlyGet { s with kernel := .starting c load }
  | earlyPut {config early : Config} (hstage : s.calls c = .inKernel config)
      (hkernel : s.kernel = .starting c (.earlyPut early)) :
      DistMove s c .kernelEarlyPut
        { s with term := some ⟨early, none⟩, kernel := .starting c (.loaded early) }
  | up {config loaded : Config} (hstage : s.calls c = .inKernel config)
      (hkernel : s.kernel = .starting c (.loaded loaded)) :
      DistMove s c .kernelUp ({ s with kernel := .running loaded }.to c (.status config))
  | fail {config : Config} {load : ConfigLoad} (hstage : s.calls c = .inKernel config)
      (hkernel : s.kernel = .starting c load) :
      DistMove s c .kernelFail
        ({ s with kernel := .down }.to c (.uninstall "net_kernel could not start"))
  | ready {config loaded : Config} (hstage : s.calls c = .status config)
      (hkernel : s.kernel = .running loaded) :
      DistMove s c (.status true)
        ({ s with standing := Function.update s.standing c true }.to c (.started config))
  | notReady {config : Config} (hstage : s.calls c = .status config) :
      DistMove s c (.status false) (s.to c .rollbackStop)
  | rollbackStop (hstage : s.calls c = .rollbackStop)
      (hkernel : ∀ c' load, s.kernel ≠ .starting c' load) :
      DistMove s c .rollbackStop ({ s with kernel := .down }.to c
        (.uninstall "distribution endpoint did not become ready"))
  | uninstall {message : String} (hstage : s.calls c = .uninstall message) :
      DistMove s c .uninstall ({ s with term := none }.to c (.failed (startError message)))
  | kernelStop {loaded : Config} (hstage : s.calls c = .kernelStop)
      (hkernel : s.kernel = .running loaded) :
      DistMove s c .kernelStop ({ s with kernel := .down }.to c .stopUninstall)
  | stopUninstall (hstage : s.calls c = .stopUninstall) :
      DistMove s c .stopUninstall
        ({ s with term := none, standing := fun _ => false }.to c .stopped)

theorem DistMove.ofQuiet {s s' : DistState} {c : ℕ} {action : DistAction}
    {stage stage' : DistStage} (h : some (s.to c stage') = some s') (hs : s.calls c = stage)
    (hold : stage.Quiet) (hnew : stage'.Quiet) (hput : action ≠ .installPut) :
    DistMove s c action s' := by
  obtain rfl := Option.some.inj h
  exact .quiet (hs ▸ hold) hnew hput

theorem startStep_move {setting : DistSetting} {s s' : DistState} {c : ℕ} {action : DistAction}
    (h : startStep setting s c action (s.calls c) = some s') : DistMove s c action s' := by
  generalize hs : s.calls c = stage at h
  unfold startStep at h
  split at h
  -- the four steps before the put change nothing that is shared
  · split at h
    · exact .ofQuiet h hs id id (by simp)
    · exact .ofQuiet h hs id id (by simp)
  · split at h
    · exact .ofQuiet h hs id id (by simp)
    · exact .ofQuiet h hs id id (by simp)
  · split at h
    · exact .ofQuiet h hs id id (by simp)
    · exact .ofQuiet h hs id id (by simp)
  · split at h
    · exact .ofQuiet h hs id id (by simp)
    · exact .ofQuiet h hs id id (by simp)
  · obtain rfl := Option.some.inj h
    exact .put hs
  · split at h
    · next hkernel =>
        obtain rfl := Option.some.inj h
        exact .kernelStart hs hkernel
    · next loaded hkernel =>
        obtain rfl := Option.some.inj h
        exact .kernelBusy hs hkernel
    · cases h
  · split at h
    · next loaded hkernel =>
        obtain rfl := Option.some.inj h
        exact .ready hs hkernel
    · cases h
    · obtain rfl := Option.some.inj h
      exact .notReady hs
  · split at h
    · cases h
    · next hkernel =>
        obtain rfl := Option.some.inj h
        exact .rollbackStop hs hkernel
  · obtain rfl := Option.some.inj h
    exact .uninstall hs
  · cases h

theorem kernelStep_move {setting : DistSetting} {s s' : DistState} {c : ℕ} {config : Config}
    {action : DistAction} {load : ConfigLoad} (hs : s.calls c = .inKernel config)
    (hkernel : s.kernel = .starting c load)
    (h : kernelStep setting s c config action load = some s') : DistMove s c action s' := by
  unfold kernelStep at h
  split at h
  · split at h
    · next installed hterm =>
        obtain rfl := Option.some.inj h
        exact .load hs hkernel hterm
    · next hterm =>
        split at h
        · obtain rfl := Option.some.inj h
          exact .loadEarly hs hkernel hterm
        · obtain rfl := Option.some.inj h
          exact .loadEarly hs hkernel hterm
  · split at h
    · obtain rfl := Option.some.inj h
      exact .earlyGet hs hkernel
    · obtain rfl := Option.some.inj h
      exact .earlyGet hs hkernel
  · obtain rfl := Option.some.inj h
    exact .earlyPut hs hkernel
  · obtain rfl := Option.some.inj h
    exact .up hs hkernel
  · obtain rfl := Option.some.inj h
    exact .fail hs hkernel
  · cases h

theorem stopStep_move {s s' : DistState} {c : ℕ} {action : DistAction}
    (h : stopStep s c action (s.calls c) = some s') : DistMove s c action s' := by
  generalize hs : s.calls c = stage at h
  unfold stopStep at h
  split at h
  · exact .ofQuiet h hs id id (by simp)
  · split at h
    · split at h
      · exact .ofQuiet h hs id id (by simp)
      · exact .ofQuiet h hs id id (by simp)
    · exact .ofQuiet h hs id id (by simp)
  · split at h
    · next loaded hkernel =>
        obtain rfl := Option.some.inj h
        exact .kernelStop hs hkernel
    · exact .ofQuiet h hs id id (by simp)
    · cases h
  · obtain rfl := Option.some.inj h
    exact .stopUninstall hs
  · cases h

/-- Every step is one of the moves. -/
theorem distStep_move {setting : DistSetting} {s s' : DistState} {a : ℕ × DistAction}
    (h : distStep setting s a = some s') : DistMove s a.1 a.2 s' := by
  unfold distStep at h
  split at h
  · next config c load hs hkernel =>
      split at h
      · next hc =>
          subst hc
          exact kernelStep_move hs hkernel h
      · cases h
  · split at h
    · exact startStep_move h
    · exact stopStep_move h

/-! ### The invariant -/

/-- A put that disturbs no one: nothing is installed, and no other call is at
a point from which it may still erase. -/
def PutAlone (s : DistState) (a : ℕ × DistAction) : Prop :=
  a.2 = .installPut → s.term = none ∧
    ∀ c, c ≠ a.1 → ¬ (s.calls c).Pending ∧ s.calls c ≠ .stopUninstall

/-- Who holds the term and the kernel, in the runs whose puts are alone. -/
structure DistState.Inv (s : DistState) : Prop where
  /-- A start that may erase the term owns it. -/
  pending : ∀ c installed, (s.calls c).Pending → s.term = some installed →
    installed.owner = some c
  /-- A start that brings up the kernel has its configuration installed. -/
  launching : ∀ c config, s.calls c = .kernelStart config ∨ s.calls c = .inKernel config →
    s.term = some ⟨config, some c⟩
  /-- The endpoint of a starting kernel loads what its call has put. -/
  starting : ∀ c load, s.kernel = .starting c load →
    ∃ config, s.calls c = .inKernel config ∧ (load = .reading ∨ load = .loaded config)
  /-- A running kernel has loaded what its start call has put. -/
  running : ∀ loaded, s.kernel = .running loaded →
    ∃ c, s.term = some ⟨loaded, some c⟩ ∧
      (s.calls c = .status loaded ∨ s.calls c = .rollbackStop ∨ s.calls c = .started loaded)
  /-- While a stop is about to erase, no kernel is up or on its way. -/
  stopping : ∀ c, s.calls c = .stopUninstall → s.kernel = .down ∧
    ∀ c' config, s.calls c' ≠ .kernelStart config ∧ s.calls c' ≠ .inKernel config
  /-- A standing start has its configuration installed and running, unless a
  stop is about to erase. -/
  standing : ∀ c, s.standing c = true →
    ∃ config, s.calls c = .started config ∧ s.term = some ⟨config, some c⟩ ∧
      (s.kernel = .running config ∨ ∃ c', s.calls c' = .stopUninstall)

theorem DistState.inv_init : DistState.init.Inv where
  pending c installed h := by cases h
  launching c config h := by rcases h with h | h <;> cases h
  starting c load h := by cases h
  running loaded h := by cases h
  stopping c h := by cases h
  standing c h := by cases h

section Invariant

variable {s s' : DistState} {c : ℕ}

@[simp] theorem DistState.to_term (stage : DistStage) : (s.to c stage).term = s.term := rfl

@[simp] theorem DistState.to_kernel (stage : DistStage) : (s.to c stage).kernel = s.kernel := rfl

@[simp] theorem DistState.to_standing (stage : DistStage) :
    (s.to c stage).standing = s.standing := rfl

@[simp] theorem DistState.to_calls_self (stage : DistStage) : (s.to c stage).calls c = stage :=
  Function.update_self ..

theorem DistState.to_calls_ne {c' : ℕ} (stage : DistStage) (h : c' ≠ c) :
    (s.to c stage).calls c' = s.calls c' :=
  Function.update_of_ne h ..

/-- A call that has not moved is at its old stage, and a call at a stage other
than the new one has not moved. -/
theorem DistState.calls_of_to {c' : ℕ} {stage stage' : DistStage} (hne : stage ≠ stage')
    (h : (s.to c stage).calls c' = stage') : c' ≠ c ∧ s.calls c' = stage' := by
  have hc : c' ≠ c := by
    rintro rfl
    rw [DistState.to_calls_self] at h
    exact hne h
  rw [DistState.to_calls_ne stage hc] at h
  exact ⟨hc, h⟩

theorem DistState.pending_of_to {c' : ℕ} {stage : DistStage}
    (h : ((s.to c stage).calls c').Pending) :
    c' = c ∧ stage.Pending ∨ c' ≠ c ∧ (s.calls c').Pending := by
  by_cases hc : c' = c
  · rw [hc, DistState.to_calls_self] at h
    exact Or.inl ⟨hc, h⟩
  · rw [DistState.to_calls_ne stage hc] at h
    exact Or.inr ⟨hc, h⟩

/-- The kernel a pending start finds running is its own. -/
theorem DistState.Inv.running_of_pending (hinv : s.Inv) (hc : (s.calls c).Pending) {loaded : Config}
    (h : s.kernel = .running loaded) :
    s.term = some ⟨loaded, some c⟩ ∧ (s.calls c = .status loaded ∨ s.calls c = .rollbackStop) := by
  obtain ⟨d, hterm, hstage⟩ := hinv.running loaded h
  obtain rfl : d = c := Option.some.inj (hinv.pending c _ hc hterm)
  rcases hstage with hstage | hstage | hstage
  · exact ⟨hterm, Or.inl hstage⟩
  · exact ⟨hterm, Or.inr hstage⟩
  · rw [hstage] at hc
    exact hc.elim

/-- While a start is pending, none stands. -/
theorem DistState.Inv.not_standing_of_pending (hinv : s.Inv) (hc : (s.calls c).Pending) (d : ℕ) :
    s.standing d ≠ true := by
  intro hd
  obtain ⟨config, hstage, hterm, -⟩ := hinv.standing d hd
  obtain rfl : d = c := Option.some.inj (hinv.pending c _ hc hterm)
  rw [hstage] at hc
  exact hc

/-- A launching start is the only pending one. -/
theorem DistState.Inv.pending_unique (hinv : s.Inv) {config : Config} {d : ℕ}
    (hc : s.calls c = .kernelStart config ∨ s.calls c = .inKernel config)
    (hd : (s.calls d).Pending) : d = c :=
  (Option.some.inj (hinv.pending d _ hd (hinv.launching c config hc))).symm

/-- A quiet move keeps everything. -/
theorem DistState.Inv.quiet (hinv : s.Inv) {stage : DistStage} (hold : (s.calls c).Quiet)
    (hnew : stage.Quiet) : (s.to c stage).Inv := by
  have hpending : ¬ stage.Pending := by
    cases stage <;> simp_all [DistStage.Quiet, DistStage.Pending]
  -- a call at a stage that is not quiet is another one
  have hback : ∀ d stage', ¬ stage'.Quiet → (s.to c stage).calls d = stage' →
      s.calls d = stage' := by
    intro d stage' hstage' hd
    refine (DistState.calls_of_to ?_ hd).2
    rintro rfl
    exact hstage' hnew
  have hkeep : ∀ d stage', ¬ stage'.Quiet → s.calls d = stage' →
      (s.to c stage).calls d = stage' := by
    intro d stage' hstage' hd
    have hdc : d ≠ c := by
      rintro rfl
      exact hstage' (hd ▸ hold)
    rw [DistState.to_calls_ne stage hdc, hd]
  refine ⟨?_, ?_, ?_, ?_, ?_, ?_⟩
  · intro d installed hd hterm
    rcases DistState.pending_of_to hd with ⟨-, hd⟩ | ⟨-, hd⟩
    · exact absurd hd hpending
    · exact hinv.pending d installed hd hterm
  · intro d config hd
    apply hinv.launching d config
    rcases hd with hd | hd
    · exact Or.inl (hback d (.kernelStart config) (fun h => h trivial) hd)
    · exact Or.inr (hback d (.inKernel config) (fun h => h trivial) hd)
  · intro d load hkernel
    obtain ⟨config, hd, hload⟩ := hinv.starting d load hkernel
    exact ⟨config, hkeep d _ (fun h => h trivial) hd, hload⟩
  · intro loaded hkernel
    obtain ⟨d, hterm, hd⟩ := hinv.running loaded hkernel
    refine ⟨d, hterm, ?_⟩
    rcases hd with hd | hd | hd
    · exact Or.inl (hkeep d _ (fun h => h trivial) hd)
    · exact Or.inr (Or.inl (hkeep d _ (fun h => h trivial) hd))
    · exact Or.inr (Or.inr (hkeep d _ id hd))
  · intro d hd
    obtain ⟨hkernel, hnone⟩ := hinv.stopping d (hback d .stopUninstall id hd)
    refine ⟨hkernel, ?_⟩
    intro e config
    refine ⟨fun he => ?_, fun he => ?_⟩
    · exact (hnone e config).1 (hback e (.kernelStart config) (fun h => h trivial) he)
    · exact (hnone e config).2 (hback e (.inKernel config) (fun h => h trivial) he)
  · intro d hd
    obtain ⟨config, hstage, hterm, hkernel⟩ := hinv.standing d hd
    refine ⟨config, hkeep d _ id hstage, hterm, ?_⟩
    rcases hkernel with hkernel | ⟨e, he⟩
    · exact Or.inl hkernel
    · exact Or.inr ⟨e, hkeep e _ id he⟩

/-- Putting alone. -/
theorem DistState.Inv.put (hinv : s.Inv) {config : Config} (hstage : s.calls c = .installPut config)
    (halone : PutAlone s (c, .installPut)) :
    ({ s with term := some ⟨config, some c⟩ }.to c (.kernelStart config)).Inv := by
  obtain ⟨hterm, hothers⟩ := halone rfl
  refine ⟨?_, ?_, ?_, ?_, ?_, ?_⟩
  · intro d installed hd hinstalled
    obtain rfl := Option.some.inj hinstalled
    rcases DistState.pending_of_to hd with ⟨rfl, -⟩ | ⟨hdc, hd⟩
    · rfl
    · exact absurd hd (hothers d hdc).1
  · intro d config' hd
    by_cases hdc : d = c
    · rw [hdc, DistState.to_calls_self] at hd
      rcases hd with hd | hd
      · obtain rfl := DistStage.kernelStart.inj hd
        rw [hdc]
        rfl
      · cases hd
    · rw [DistState.to_calls_ne _ hdc] at hd
      have hpending : (s.calls d).Pending := by
        rcases hd with hd | hd
        · rw [show s.calls d = .kernelStart config' from hd]
          trivial
        · rw [show s.calls d = .inKernel config' from hd]
          trivial
      exact absurd hpending (hothers d hdc).1
  · intro d load hkernel
    obtain ⟨config', hd, -⟩ := hinv.starting d load hkernel
    have hnone := hinv.launching d config' (Or.inr hd)
    rw [hterm] at hnone
    cases hnone
  · intro loaded hkernel
    obtain ⟨d, hsome, -⟩ := hinv.running loaded hkernel
    rw [hterm] at hsome
    cases hsome
  · intro d hd
    obtain ⟨hdc, hd⟩ := DistState.calls_of_to (by simp) hd
    exact absurd hd (hothers d hdc).2
  · intro d hd
    obtain ⟨config', -, hsome, -⟩ := hinv.standing d hd
    rw [hterm] at hsome
    cases hsome

/-- A pending start moves.  Whatever it does to the kernel and to the term,
the others hold nothing that it could take. -/
theorem DistState.Inv.move_pending (hinv : s.Inv) (hc : (s.calls c).Pending) {stage : DistStage}
    (hcalls : s'.calls = Function.update s.calls c stage)
    (hterm : s'.term = s.term ∨ s'.term = none) (hnotStop : stage ≠ .stopUninstall)
    (hlaunching : ∀ config, stage = .kernelStart config ∨ stage = .inKernel config →
      s'.term = some ⟨config, some c⟩)
    (hstarting : ∀ d load, s'.kernel = .starting d load →
      d = c ∧ ∃ config, stage = .inKernel config ∧ (load = .reading ∨ load = .loaded config))
    (hrunning : ∀ loaded, s'.kernel = .running loaded → s'.term = some ⟨loaded, some c⟩ ∧
      (stage = .status loaded ∨ stage = .rollbackStop ∨ stage = .started loaded))
    (hstopping : ∀ d, s.calls d = .stopUninstall → s'.kernel = .down ∧
      ∀ config, stage ≠ .kernelStart config ∧ stage ≠ .inKernel config)
    (hstanding : ∀ d, s'.standing d = true → d = c ∧ ∃ config, stage = .started config ∧
      s'.term = some ⟨config, some c⟩ ∧ s'.kernel = .running config) : s'.Inv := by
  have hself : s'.calls c = stage := by rw [hcalls, Function.update_self]
  have hother : ∀ d, d ≠ c → s'.calls d = s.calls d := by
    intro d hd
    rw [hcalls, Function.update_of_ne hd]
  -- no other call is launching, before the move or after it
  have hlaunched : ∀ d config, s'.calls d = .kernelStart config ∨ s'.calls d = .inKernel config →
      d = c := by
    intro d config hd
    by_contra hdc
    rw [hother d hdc] at hd
    exact hdc (hinv.pending_unique hd hc).symm
  refine ⟨?_, ?_, ?_, ?_, ?_, ?_⟩
  · intro d installed hd hinstalled
    have hold : s.term = some installed := by
      rcases hterm with hterm | hterm
      · rw [← hterm, hinstalled]
      · rw [hterm] at hinstalled
        cases hinstalled
    by_cases hdc : d = c
    · rw [hdc]
      exact hinv.pending c installed hc hold
    · rw [hother d hdc] at hd
      exact hinv.pending d installed hd hold
  · intro d config hd
    obtain rfl := hlaunched d config hd
    rw [hself] at hd
    exact hlaunching config hd
  · intro d load hkernel
    obtain ⟨rfl, config, hstage, hload⟩ := hstarting d load hkernel
    exact ⟨config, by rw [hself, hstage], hload⟩
  · intro loaded hkernel
    refine ⟨c, ?_⟩
    rw [hself]
    exact hrunning loaded hkernel
  · intro d hd
    have hdc : d ≠ c := by
      rintro rfl
      exact hnotStop (hself ▸ hd)
    rw [hother d hdc] at hd
    obtain ⟨hkernel, hstage⟩ := hstopping d hd
    refine ⟨hkernel, ?_⟩
    intro e config
    refine ⟨fun he => ?_, fun he => ?_⟩
    · obtain rfl := hlaunched e config (Or.inl he)
      exact (hstage config).1 (hself ▸ he)
    · obtain rfl := hlaunched e config (Or.inr he)
      exact (hstage config).2 (hself ▸ he)
  · intro d hd
    obtain ⟨rfl, config, hstage, hterm', hkernel⟩ := hstanding d hd
    exact ⟨config, by rw [hself, hstage], hterm', Or.inl hkernel⟩

/-- A kernel on its way is that of the pending start. -/
theorem DistState.Inv.starting_of_pending (hinv : s.Inv) (hc : (s.calls c).Pending) {d : ℕ}
    {load : ConfigLoad} (h : s.kernel = .starting d load) :
    d = c ∧ ∃ config, s.calls c = .inKernel config ∧ (load = .reading ∨ load = .loaded config) := by
  obtain ⟨config, hd, hload⟩ := hinv.starting d load h
  obtain rfl := hinv.pending_unique (Or.inr hd) hc
  exact ⟨rfl, config, hd, hload⟩

theorem DistState.Inv.kernelStart (hinv : s.Inv) {config : Config}
    (hstage : s.calls c = .kernelStart config) :
    ({ s with kernel := .starting c .reading }.to c (.inKernel config)).Inv := by
  have hc : (s.calls c).Pending := by rw [hstage]; trivial
  refine hinv.move_pending hc rfl (Or.inl rfl) (by simp) ?_ ?_ ?_ ?_ ?_
  · rintro config' (h | h)
    · cases h
    · obtain rfl := DistStage.inKernel.inj h
      exact hinv.launching c config (Or.inl hstage)
  · intro d load h
    obtain ⟨rfl, rfl⟩ := Kernel.starting.inj h
    exact ⟨rfl, config, rfl, Or.inl rfl⟩
  · intro loaded h
    cases h
  · intro d hd
    exact absurd hstage ((hinv.stopping d hd).2 c config).1
  · intro d hd
    exact absurd hd (hinv.not_standing_of_pending hc d)

/-- The endpoint loads the configuration of its call. -/
theorem DistState.Inv.load (hinv : s.Inv) {config : Config} {installed : Installed}
    (hstage : s.calls c = .inKernel config) (hterm : s.term = some installed) :
    { s with kernel := .starting c (.loaded installed.config) }.Inv := by
  have hc : (s.calls c).Pending := by rw [hstage]; trivial
  have hown := hinv.launching c config (Or.inr hstage)
  obtain rfl := Option.some.inj (hterm.symm.trans hown)
  refine hinv.move_pending hc (Function.update_eq_self c s.calls).symm (Or.inl rfl) ?_ ?_ ?_ ?_ ?_ ?_
  · rw [hstage]
    simp
  · intro config' h
    exact hinv.launching c config' h
  · intro d load h
    obtain ⟨rfl, rfl⟩ := Kernel.starting.inj h
    exact ⟨rfl, config, hstage, Or.inr rfl⟩
  · intro loaded h
    cases h
  · intro d hd
    exact absurd hstage ((hinv.stopping d hd).2 c config).2
  · intro d hd
    exact absurd hd (hinv.not_standing_of_pending hc d)

theorem DistState.Inv.up (hinv : s.Inv) {config loaded : Config}
    (hstage : s.calls c = .inKernel config) (hkernel : s.kernel = .starting c (.loaded loaded)) :
    ({ s with kernel := .running loaded }.to c (.status config)).Inv := by
  have hc : (s.calls c).Pending := by rw [hstage]; trivial
  obtain ⟨-, config', hstage', hload⟩ := hinv.starting_of_pending hc hkernel
  obtain rfl := DistStage.inKernel.inj (hstage.symm.trans hstage')
  obtain rfl : loaded = config := by
    rcases hload with hload | hload
    · cases hload
    · exact ConfigLoad.loaded.inj hload
  refine hinv.move_pending hc rfl (Or.inl rfl) (by simp) (by simp) ?_ ?_ ?_ ?_
  · intro d load h
    cases h
  · intro loaded' h
    obtain rfl := Kernel.running.inj h
    exact ⟨hinv.launching c loaded (Or.inr hstage), Or.inl rfl⟩
  · intro d hd
    exact absurd hstage ((hinv.stopping d hd).2 c loaded).2
  · intro d hd
    exact absurd hd (hinv.not_standing_of_pending hc d)

/-- A pending start takes the kernel down and is about to erase. -/
theorem DistState.Inv.giveUp (hinv : s.Inv) (hc : (s.calls c).Pending) (message : String) :
    ({ s with kernel := .down }.to c (.uninstall message)).Inv := by
  refine hinv.move_pending hc rfl (Or.inl rfl) (by simp) (by simp) ?_ ?_ ?_ ?_
  · intro d load h
    cases h
  · intro loaded h
    cases h
  · intro d _
    exact ⟨rfl, fun config => ⟨by simp, by simp⟩⟩
  · intro d hd
    exact absurd hd (hinv.not_standing_of_pending hc d)

/-- A start that finds the endpoint ready stands. -/
theorem DistState.Inv.ready (hinv : s.Inv) {config loaded : Config}
    (hstage : s.calls c = .status config) (hkernel : s.kernel = .running loaded) :
    ({ s with standing := Function.update s.standing c true }.to c (.started config)).Inv := by
  have hc : (s.calls c).Pending := by rw [hstage]; trivial
  obtain ⟨hterm, hstage'⟩ := hinv.running_of_pending hc hkernel
  obtain rfl : config = loaded := by
    rw [hstage] at hstage'
    rcases hstage' with h | h
    · exact DistStage.status.inj h
    · cases h
  refine hinv.move_pending hc rfl (Or.inl rfl) (by simp) (by simp) ?_ ?_ ?_ ?_
  · intro d load h
    exact absurd (hkernel.symm.trans h) (by simp)
  · intro loaded h
    obtain rfl := Kernel.running.inj (hkernel.symm.trans h)
    exact ⟨hterm, Or.inr (Or.inr rfl)⟩
  · intro d hd
    exact absurd (hkernel.symm.trans (hinv.stopping d hd).1) (by simp)
  · intro d hd
    by_cases hdc : d = c
    · exact ⟨hdc, config, rfl, hterm, hkernel⟩
    · have hold : s.standing d = true := by
        rw [← hd]
        exact (Function.update_of_ne hdc ..).symm
      exact absurd hold (hinv.not_standing_of_pending hc d)

theorem DistState.Inv.notReady (hinv : s.Inv) {config : Config}
    (hstage : s.calls c = .status config) : (s.to c .rollbackStop).Inv := by
  have hc : (s.calls c).Pending := by rw [hstage]; trivial
  refine hinv.move_pending hc rfl (Or.inl rfl) (by simp) (by simp) ?_ ?_ ?_ ?_
  · intro d load h
    obtain ⟨-, config', hstage', -⟩ := hinv.starting_of_pending hc h
    exact absurd (hstage.symm.trans hstage') (by simp)
  · intro loaded h
    exact ⟨(hinv.running_of_pending hc h).1, Or.inr (Or.inl rfl)⟩
  · intro d hd
    exact ⟨(hinv.stopping d hd).1, fun config => ⟨by simp, by simp⟩⟩
  · intro d hd
    exact absurd hd (hinv.not_standing_of_pending hc d)

/-- A failed start erases, with the kernel down. -/
theorem DistState.Inv.uninstall (hinv : s.Inv) {message : String}
    (hstage : s.calls c = .uninstall message) (failure : Failure) :
    ({ s with term := none }.to c (.failed failure)).Inv := by
  have hc : (s.calls c).Pending := by rw [hstage]; trivial
  refine hinv.move_pending hc rfl (Or.inr rfl) (by simp) (by simp) ?_ ?_ ?_ ?_
  · intro d load h
    obtain ⟨-, config, hstage', -⟩ := hinv.starting_of_pending hc h
    exact absurd (hstage.symm.trans hstage') (by simp)
  · intro loaded h
    obtain ⟨-, hstage' | hstage'⟩ := hinv.running_of_pending hc h
    · exact absurd (hstage.symm.trans hstage') (by simp)
    · exact absurd (hstage.symm.trans hstage') (by simp)
  · intro d hd
    exact ⟨(hinv.stopping d hd).1, fun config => ⟨by simp, by simp⟩⟩
  · intro d hd
    exact absurd hd (hinv.not_standing_of_pending hc d)

/-- No start is launching while the kernel runs. -/
theorem DistState.Inv.not_launching_of_running (hinv : s.Inv) {loaded config : Config}
    (h : s.kernel = .running loaded) :
    ¬ (s.calls c = .kernelStart config ∨ s.calls c = .inKernel config) := by
  intro hc
  have hpending : (s.calls c).Pending := by
    rcases hc with hc | hc
    · rw [hc]
      trivial
    · rw [hc]
      trivial
  obtain ⟨-, hstage⟩ := hinv.running_of_pending hpending h
  rcases hc with hc | hc
  · rw [hc] at hstage
    rcases hstage with h | h <;> cases h
  · rw [hc] at hstage
    rcases hstage with h | h <;> cases h

/-- A stop takes the kernel down. -/
theorem DistState.Inv.kernelStop (hinv : s.Inv) {loaded : Config} (hstage : s.calls c = .kernelStop)
    (hkernel : s.kernel = .running loaded) :
    ({ s with kernel := .down }.to c .stopUninstall).Inv := by
  refine ⟨?_, ?_, ?_, ?_, ?_, ?_⟩
  · intro d installed hd hterm
    rcases DistState.pending_of_to hd with ⟨-, hd⟩ | ⟨-, hd⟩
    · exact hd.elim
    · exact hinv.pending d installed hd hterm
  · intro d config hd
    apply hinv.launching d config
    rcases hd with hd | hd
    · exact Or.inl (DistState.calls_of_to (by simp) hd).2
    · exact Or.inr (DistState.calls_of_to (by simp) hd).2
  · intro d load h
    cases h
  · intro loaded' h
    cases h
  · intro d _
    refine ⟨rfl, ?_⟩
    intro e config
    refine ⟨fun he => ?_, fun he => ?_⟩
    · exact hinv.not_launching_of_running hkernel (Or.inl (DistState.calls_of_to (by simp) he).2)
    · exact hinv.not_launching_of_running hkernel (Or.inr (DistState.calls_of_to (by simp) he).2)
  · intro d hd
    obtain ⟨config, hstarted, hterm, -⟩ := hinv.standing d hd
    have hdc : d ≠ c := by
      rintro rfl
      exact absurd (hstage.symm.trans hstarted) (by simp)
    refine ⟨config, ?_, hterm, Or.inr ⟨c, DistState.to_calls_self ..⟩⟩
    rw [DistState.to_calls_ne _ hdc]
    exact hstarted

/-- A stop erases, with the kernel down: nothing stands. -/
theorem DistState.Inv.stopUninstall (hinv : s.Inv) (hstage : s.calls c = .stopUninstall) :
    ({ s with term := none, standing := fun _ => false }.to c .stopped).Inv := by
  obtain ⟨hkernel, hnone⟩ := hinv.stopping c hstage
  refine ⟨?_, ?_, ?_, ?_, ?_, ?_⟩
  · intro d installed _ hterm
    cases hterm
  · intro d config hd
    rcases hd with hd | hd
    · exact absurd (DistState.calls_of_to (by simp) hd).2 (hnone d config).1
    · exact absurd (DistState.calls_of_to (by simp) hd).2 (hnone d config).2
  · intro d load h
    exact absurd (hkernel.symm.trans h) (by simp)
  · intro loaded h
    exact absurd (hkernel.symm.trans h) (by simp)
  · intro d _
    refine ⟨hkernel, ?_⟩
    intro e config
    refine ⟨fun he => ?_, fun he => ?_⟩
    · exact (hnone e config).1 (DistState.calls_of_to (by simp) he).2
    · exact (hnone e config).2 (DistState.calls_of_to (by simp) he).2
  · intro d hd
    cases hd

/-- Every move keeps the invariant, if a put is alone. -/
theorem DistState.Inv.move (hinv : s.Inv) {action : DistAction} (hmove : DistMove s c action s')
    (halone : PutAlone s (c, action)) : s'.Inv := by
  cases hmove with
  | quiet hold hnew _ => exact hinv.quiet hold hnew
  | put hstage => exact hinv.put hstage halone
  | kernelStart hstage _ => exact hinv.kernelStart hstage
  | kernelBusy hstage hkernel =>
      exact absurd (Or.inl hstage) (hinv.not_launching_of_running hkernel)
  | load hstage _ hterm => exact hinv.load hstage hterm
  -- the configuration of the call is installed, so the boot-time one is never asked for
  | @loadEarly config load hstage _ hterm =>
      exact absurd (hterm.symm.trans (hinv.launching c config (Or.inr hstage))) (by simp)
  | @earlyGet config early load _ hkernel =>
      obtain ⟨_, _, h⟩ := hinv.starting c _ hkernel
      rcases h with h | h <;> cases h
  | @earlyPut config early _ hkernel =>
      obtain ⟨_, _, h⟩ := hinv.starting c _ hkernel
      rcases h with h | h <;> cases h
  | up hstage hkernel => exact hinv.up hstage hkernel
  | fail hstage _ => exact hinv.giveUp (by rw [hstage]; trivial) _
  | ready hstage hkernel => exact hinv.ready hstage hkernel
  | notReady hstage => exact hinv.notReady hstage
  | rollbackStop hstage _ => exact hinv.giveUp (by rw [hstage]; trivial) _
  | uninstall hstage => exact hinv.uninstall hstage _
  | kernelStop hstage hkernel => exact hinv.kernelStop hstage hkernel
  | stopUninstall hstage => exact hinv.stopUninstall hstage

/-- A step of a start call leaves what another call has installed. -/
theorem DistState.Inv.term_kept (hinv : s.Inv) {action : DistAction}
    (hmove : DistMove s c action s') (halone : PutAlone s (c, action))
    (hstart : action.ofStart = true) {installed : Installed} (hterm : s.term = some installed)
    (howner : installed.owner ≠ some c) : s'.term = some installed := by
  cases hmove with
  | put hstage => exact absurd (hterm.symm.trans (halone rfl).1) (by simp)
  | @earlyPut config early _ hkernel =>
      obtain ⟨_, _, h⟩ := hinv.starting c _ hkernel
      rcases h with h | h <;> cases h
  | uninstall hstage =>
      exact absurd (hinv.pending c installed (by rw [hstage]; trivial) hterm) howner
  | stopUninstall _ => cases hstart
  | _ => exact hterm

end Invariant

/-! ### Concurrent starts and stops -/

/-- While a start that has returned `{:ok, _}` stands and distribution runs,
its configuration is installed and is the one the endpoint has loaded. -/
def DistState.Undisturbed (s : DistState) : Prop :=
  ∀ c, s.standing c = true → ∀ loaded, s.kernel = .running loaded →
    ∃ config, s.calls c = .started config ∧ s.term = some ⟨config, some c⟩ ∧ loaded = config

/-- A step of a start call that leaves the configuration of another call
installed. -/
def LeavesOthers (s : DistState) (a : ℕ × DistAction) (s' : DistState) : Prop :=
  a.2.ofStart = true → ∀ installed, s.term = some installed → installed.owner ≠ some a.1 →
    s'.term = some installed

theorem DistState.Inv.undisturbed {s : DistState} (hinv : s.Inv) : s.Undisturbed := by
  intro c hc loaded hkernel
  obtain ⟨config, hstage, hterm, hrunning⟩ := hinv.standing c hc
  refine ⟨config, hstage, hterm, ?_⟩
  rcases hrunning with hrunning | ⟨d, hd⟩
  · exact Kernel.running.inj (hkernel.symm.trans hrunning)
  · exact absurd (hkernel.symm.trans (hinv.stopping d hd).1) (by simp)

/-- In every run in which every configuration is put alone, the calls do not
disturb each other: in every state reached, and in every step from there. -/
theorem starts_undisturbed {setting : DistSetting} {as : List (ℕ × DistAction)} {s : DistState}
    (halone : Meets (distStep setting) PutAlone DistState.init as)
    (h : run (distStep setting) DistState.init as = some s) :
    s.Undisturbed ∧ ∀ a s', PutAlone s a → distStep setting s a = some s' →
      LeavesOthers s a s' := by
  have hinv : s.Inv := by
    apply run_invariant_of_meets (P := DistState.Inv) ?_ halone h DistState.inv_init
    intro t a t' ht hG hstep
    exact ht.move (distStep_move hstep) hG
  refine ⟨hinv.undisturbed, ?_⟩
  intro a s' hG hstep hstart installed hterm howner
  exact hinv.term_kept (distStep_move hstep) hG hstart hterm howner

/-! ### Two starts -/

/-- Call 0 starts node `a@h` with one peer, call 1 the same node without
peers. -/
def sampleStarts : DistSetting where
  nif := sampleNif
  protoDist := [ascii "iroh"]
  noEpmd := true
  options c := if c = 0 then sampleOptions else relayOptions "https://s/"
  earlyOptions := .nil

/-- A start up to reading the persistent term. -/
def beginStart (c : ℕ) : List (ℕ × DistAction) :=
  [(c, .requireUnnamed), (c, .requireInitArguments), (c, .validate), (c, .installGet)]

/-- A start from its put to its return. -/
def finishStart (c : ℕ) : List (ℕ × DistAction) :=
  [(c, .kernelStart), (c, .kernelLoad), (c, .kernelUp), (c, .status true)]

/-- Only a put is asked to be alone. -/
theorem meets_putAlone {setting : DistSetting} {as : List (ℕ × DistAction)}
    (h : ∀ a ∈ as, a.2 ≠ .installPut) (s : DistState) :
    Meets (distStep setting) PutAlone s as :=
  meets_of_forall (fun a ha _ hput => absurd hput (h a ha)) s

/-- One start after the other: the second is refused and the first stands. -/
theorem starts_undisturbed_in_turn :
    ∃ s, run (distStep sampleStarts) DistState.init
        (beginStart 0 ++ ((0, .installPut) :: (finishStart 0 ++ [(1, .requireUnnamed)]))) =
        some s ∧ s.standing 0 = true ∧ s.Undisturbed := by
  have halone : Meets (distStep sampleStarts) PutAlone DistState.init
      (beginStart 0 ++ ((0, .installPut) :: (finishStart 0 ++ [(1, .requireUnnamed)]))) := by
    refine (meets_putAlone (by decide) _).append rfl ?_
    refine meets_cons ?_ rfl (meets_putAlone (by decide) _)
    intro _
    refine ⟨rfl, ?_⟩
    intro c hc
    have hidle : ∀ (s : DistState) (stage : DistStage), (s.to 0 stage).calls c = s.calls c :=
      fun s stage => DistState.to_calls_ne stage hc
    simp only [hidle]
    exact ⟨id, by simp [DistState.init]⟩
  exact ⟨_, rfl, rfl, (starts_undisturbed halone rfl).1⟩

/-- Both starts read the term before either puts.  The endpoint of the first
loads the configuration of the second, the first returns `{:ok, _}`, and the
second fails and erases what is installed. -/
theorem concurrent_starts_disturbed :
    ∃ s, run (distStep sampleStarts) DistState.init
        (beginStart 0 ++ beginStart 1 ++ [(0, .installPut), (1, .installPut)] ++ finishStart 0 ++
          [(1, .kernelStart), (1, .uninstall)]) = some s ∧
      s.standing 0 = true ∧ s.term.isNone = true ∧ ¬ s.Undisturbed := by
  refine ⟨_, rfl, rfl, rfl, ?_⟩
  intro h
  obtain ⟨config, hstage, hterm, -⟩ := h 0 rfl _ rfl
  cases hterm

end IrohBeam
