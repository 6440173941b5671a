/-
IrohBeam/Registry.lean

The registry of endpoint identities: `ACTIVE_IDENTITIES` and `ACTIVE_ENDPOINTS`
of `native/iroh_beam_nif/src/endpoint.rs`, with `endpoint_bind_start`,
`endpoint_close_start`, `endpoint_abort` and the release of an
`EndpointResource`.

Design.  Each call of `endpoint_bind_start` is a bind attempt.  It reserves its
identity, goes through the builder and the monitor, and hands over to a
supervising task that runs the operation protocol of `Operation`; that task
either gives the identity up or makes an `EndpointResource`, which then owns
it.  An attempt makes at most one resource, so the resource is part of it.

A resource is released by `endpoint_close`, by `endpoint_abort`, by the monitor
on its owner and by its drop; each such call is an entry of `releases`.  The
first of them to swap `released` goes on to remove the identity and to count the
endpoint out, in two steps, and the others return.

The handles of the native endpoint are in the model too: the one in the slot of
the resource, the clones that operations in flight have, the one a close or an
abort has taken, and the one a cancelled bind is left with.

Main result: `registry_exact` — an identity is registered exactly while one
attempt or resource owns it, ownership ending where the identity is removed.
The endpoint is counted out only after that, and in between a second bind may
succeed (`registry_two_unreleased`).
-/
import IrohBeam.Operation
import Mathlib.Data.Finset.Basic

namespace IrohBeam

open Transition Ledger

/-! ### Attempts and resources -/

/-- How far `release_identity` has come: not begun; past the `swap`; past the
removal of the identity; past the decrement. -/
inductive ReleasePhase where
  | held
  | swapped
  | removed
  | released
  deriving DecidableEq, Repr

/-- An `EndpointResource` and its native endpoint: whether the handle is in its
slot, how far its release is, whether `close()` has completed, and how many
clones of the handle operations have. -/
structure EndpointResource where
  slot : Bool
  phase : ReleasePhase
  closed : Bool
  clones : ℕ
  deriving DecidableEq, Repr

/-- What `endpoint_builder` gives. -/
inductive BuildResult where
  | built
  | relayUnavailable
  | addressInvalid
  deriving DecidableEq, Repr

/-- Where a bind attempt is.  In `refusing` the NIF is about to give the
identity up and return an error; from `supervising` on the attempt is with the
supervising task, which leaves that stage when it has resolved the identity. -/
inductive BindStage where
  | building
  | monitoring
  | refusing (e : Error)
  | returned (e : Error)
  | supervising
  | registered
  | aborting (release : ℕ)
  | settled (ownerAlive : Bool)

/-- A call of `endpoint_bind_start`; `id` is the text of its public key.
`found` records whether the identity was registered when the call came to
reserve it, and `leftover` that the supervising task still has the endpoint of a
cancelled bind. -/
structure BindAttempt where
  id : String
  found : Bool
  stage : BindStage
  op : Operation Unit
  leftover : Bool
  resource : Option EndpointResource

/-- `endpoint_close`, or an abort from whatever caller. -/
inductive ReleaseKind where
  | close
  | abort
  deriving DecidableEq, Repr

/-- Where a release is: yet to look into the slot; waiting for `close()`; about
to swap; having won the swap; about to drop what it has taken. -/
inductive ReleaseStage where
  | entered
  | closing
  | swapping
  | waiting
  | dropping
  | done
  deriving DecidableEq, Repr

/-- A release of the resource of attempt `target`; `held` says that it has the
handle it took out of the slot. -/
structure Release where
  target : ℕ
  kind : ReleaseKind
  held : Bool
  stage : ReleaseStage
  deriving DecidableEq, Repr

/-- The registry, the counter, all attempts and all releases. -/
structure Registry where
  identities : Finset String
  activeEndpoints : ℤ
  attempts : List BindAttempt
  releases : List Release

def Registry.start : Registry := ⟨∅, 0, [], []⟩

/-! ### Steps -/

/-- A `bind` error. -/
def bindError (category : Category) (message : String) : Error := ⟨category, .endpointBind, message⟩

/-- `reserve_identity`. -/
def reserveIdentity (identities : Finset String) (id : String) :
    Except Error (Finset String) :=
  if id ∈ identities then
    .error (bindError .duplicateIdentity "endpoint identity is already active in this VM")
  else .ok (insert id identities)

/-- The steps of the operation protocol that a stage leaves room for: the
supervising task sends its result only when the identity is resolved. -/
def BindStage.allows : BindStage → OpAction Unit → Bool
  | .supervising, .send _ | .supervising, .demonitor | .supervising, .release => false
  | .supervising, _ => true
  | .settled ownerAlive, .send alive => alive == ownerAlive
  | .settled _, .demonitor | .settled _, .release => true
  | .registered, .cancel | .registered, .down | .registered, .notify => true
  | .aborting _, .cancel | .aborting _, .down | .aborting _, .notify => true
  | .settled _, .cancel | .settled _, .down | .settled _, .notify => true
  | _, _ => false

/-- The supervisor has the endpoint as the result of the bind. -/
def Operation.bound (o : Operation Unit) : Bool :=
  match o.phase with
  | .deciding (some (.value ())) => true
  | _ => false

/-- A supervisor that finds its operation cancelled keeps the result it has
until it ends. -/
def BindAttempt.leftoverAfter (b : BindAttempt) : OpAction Unit → Bool
  | .complete => b.op.bound && b.op.state != .running
  | .release => false
  | _ => b.leftover

/-- A step of the operation of a bind. -/
def BindAttempt.opStep (b : BindAttempt) (a : OpAction Unit) : Option BindAttempt :=
  if b.stage.allows a then
    (IrohBeam.opStep b.op a).map fun op => { b with op := op, leftover := b.leftoverAfter a }
  else none

namespace Registry

def setAttempt (s : Registry) (i : ℕ) (b : BindAttempt) : Registry :=
  { s with attempts := s.attempts.set i b }

def setRelease (s : Registry) (k : ℕ) (r : Release) : Registry :=
  { s with releases := s.releases.set k r }

/-- A new call that releases the resource of attempt `i`. -/
def addRelease (s : Registry) (i : ℕ) (kind : ReleaseKind) : Registry :=
  { s with releases := s.releases ++ [⟨i, kind, false, .entered⟩] }

/-- `release_reserved_identity`, and the removal in `release_identity`. -/
def removeIdentity (s : Registry) (id : String) : Registry :=
  { s with identities := s.identities.erase id }

/-- Change the resource of attempt `i`. -/
def withResource (s : Registry) (i : ℕ) (f : EndpointResource → Option EndpointResource) :
    Option Registry :=
  match s.attempts[i]? with
  | some b =>
      match b.resource with
      | some r => (f r).map fun r' => s.setAttempt i { b with resource := some r' }
      | none => none
  | none => none

end Registry

/-- A step of a bind attempt. -/
inductive AttemptAction where
  | build (result : BuildResult)
  | watch (callerAlive : Bool)
  | refuse
  | op (action : OpAction Unit)
  | release
  | register
  | monitor (ownerAlive : Bool)
  | settle

/-- One step of attempt `i`. -/
def attemptStep (s : Registry) (i : ℕ) (b : BindAttempt) : AttemptAction → Option Registry
  | .build result =>
      match b.stage with
      | .building =>
          let stage := match result with
            | .built => BindStage.monitoring
            | .relayUnavailable =>
                .refusing (bindError .internal "custom relay configuration is unavailable")
            | .addressInvalid =>
                .refusing (bindError .invalidArgument "bind address configuration is invalid")
          some (s.setAttempt i { b with stage := stage })
      | _ => none
  | .watch callerAlive =>
      match b.stage with
      | .monitoring =>
          let stage := if callerAlive then BindStage.supervising else
            .refusing (bindError .cancelled "endpoint owner is no longer available")
          some (s.setAttempt i { b with stage := stage })
      | _ => none
  | .refuse =>
      match b.stage with
      | .refusing e => some ((s.setAttempt i { b with stage := .returned e }).removeIdentity b.id)
      | _ => none
  | .op a => (b.opStep a).map fun b' => s.setAttempt i b'
  -- the bind failed, was cancelled before it ended, or was cancelled after it
  | .release =>
      match b.stage, b.op.phase with
      | .supervising, .sending (some (.value ())) => none
      | .supervising, .sending _ | .supervising, .demonitoring =>
          some ((s.setAttempt i { b with stage := .settled true }).removeIdentity b.id)
      | _, _ => none
  | .register =>
      match b.stage, b.op.phase with
      | .supervising, .sending (some (.value ())) =>
          some ({ s with activeEndpoints := s.activeEndpoints + 1 }.setAttempt i
            { b with stage := .registered, resource := some ⟨true, .held, false, 0⟩ })
      | _, _ => none
  | .monitor ownerAlive =>
      match b.stage with
      | .registered =>
          if ownerAlive then some (s.setAttempt i { b with stage := .settled true })
          else
            some ((s.addRelease i .abort).setAttempt i
              { b with stage := .aborting s.releases.length })
      | _ => none
  | .settle =>
      match b.stage with
      | .aborting k =>
          if (s.releases[k]?).map Release.stage = some .done then
            some (s.setAttempt i { b with stage := .settled false })
          else none
      | _ => none

/-- A step of a release. -/
inductive ReleaseAction where
  | take
  | closed
  | cancel
  | swap
  | leave
  | drop
  deriving DecidableEq, Repr

/-- The stage after `take_endpoint`: a close that has found the endpoint waits
for it to close. -/
def ReleaseKind.afterTake : ReleaseKind → Bool → ReleaseStage
  | .close, true => .closing
  | _, _ => .swapping

/-- One step of release `k`. -/
def releaseStep (s : Registry) (k : ℕ) (call : Release) : ReleaseAction → Option Registry
  | .take =>
      match call.stage with
      | .entered =>
          let slot := (s.attempts[call.target]?).elim false fun b =>
            b.resource.elim false EndpointResource.slot
          (s.withResource call.target fun r => some { r with slot := false }).map fun s' =>
            s'.setRelease k { call with held := slot, stage := call.kind.afterTake slot }
      | _ => none
  | .closed =>
      match call.stage with
      | .closing =>
          (s.withResource call.target fun r => some { r with closed := true }).map fun s' =>
            s'.setRelease k { call with held := false, stage := .swapping }
      | _ => none
  -- the future of a close is dropped before it starts or while it waits
  | .cancel =>
      match call.kind, call.stage with
      | .close, .entered | .close, .closing =>
          some (s.setRelease k { call with held := false, stage := .done })
      | _, _ => none
  | .swap =>
      match call.stage with
      | .swapping =>
          match s.withResource call.target fun r =>
              match r.phase with
              | .held => some { r with phase := .swapped }
              | _ => none with
          | some s' => some (s'.setRelease k { call with stage := .waiting })
          | none => some (s.setRelease k { call with stage := .dropping })
      | _ => none
  | .leave =>
      match call.stage with
      | .waiting =>
          (s.withResource call.target fun r =>
            match r.phase with
            | .released => some r
            | _ => none).map fun s' => s'.setRelease k { call with stage := .dropping }
      | _ => none
  | .drop =>
      match call.stage with
      | .dropping => some (s.setRelease k { call with held := false, stage := .done })
      | _ => none

/-- A step of the whole.  `clone` and `dropClone` are the operations in flight:
`connection_connect`, `connection_accept`, `endpoint_await_online`, and the NIF
`endpoint_info` for as long as it runs. -/
inductive RegistryAction where
  | bind (id : String)
  | attempt (i : ℕ) (action : AttemptAction)
  | close (i : ℕ)
  | abort (i : ℕ)
  | release (k : ℕ) (action : ReleaseAction)
  | remove (i : ℕ)
  | uncount (i : ℕ)
  | clone (i : ℕ)
  | dropClone (i : ℕ)

/-- A new release of an existing resource. -/
def Registry.begin (s : Registry) (i : ℕ) (kind : ReleaseKind) : Option Registry :=
  (s.withResource i some).map fun s' => s'.addRelease i kind

/-- One step. -/
def registryStep (s : Registry) : RegistryAction → Option Registry
  | .bind id =>
      match reserveIdentity s.identities id with
      | .ok identities =>
          some { s with
            identities := identities
            attempts := s.attempts ++ [⟨id, false, .building, .start .bind, false, none⟩] }
      | .error e =>
          some { s with attempts := s.attempts ++ [⟨id, true, .returned e, .start .bind, false, none⟩] }
  | .attempt i a =>
      match s.attempts[i]? with
      | some b => attemptStep s i b a
      | none => none
  | .close i => s.begin i .close
  | .abort i => s.begin i .abort
  | .release k a =>
      match s.releases[k]? with
      | some call => releaseStep s k call a
      | none => none
  | .remove i =>
      match s.attempts[i]? with
      | some b =>
          (s.withResource i fun r =>
            match r.phase with
            | .swapped => some { r with phase := .removed }
            | _ => none).map fun s' => s'.removeIdentity b.id
      | none => none
  | .uncount i =>
      (s.withResource i fun r =>
        match r.phase with
        | .removed => some { r with phase := .released }
        | _ => none).map fun s' => { s' with activeEndpoints := s'.activeEndpoints - 1 }
  | .clone i =>
      s.withResource i fun r => if r.slot then some { r with clones := r.clones + 1 } else none
  | .dropClone i =>
      s.withResource i fun r =>
        match r.clones with
        | n + 1 => some { r with clones := n }
        | 0 => none

/-! ### Owners -/

/-- The attempt has reserved its identity and not resolved it. -/
def BindStage.unresolved : BindStage → Bool
  | .building | .monitoring | .refusing _ | .supervising => true
  | _ => false

/-- The identity of the resource is not yet removed. -/
def EndpointResource.owns (r : EndpointResource) : Bool := r.phase == .held || r.phase == .swapped

/-- The release of the resource is not finished. -/
def EndpointResource.counted (r : EndpointResource) : Bool := r.phase != .released

/-- The attempt, or the resource it has made, owns the identity. -/
def BindAttempt.owns (b : BindAttempt) : Bool :=
  b.stage.unresolved || b.resource.elim false EndpointResource.owns

def BindAttempt.ownsId (id : String) (b : BindAttempt) : Bool := b.id == id && b.owns

/-- The attempt has made a resource whose release is not finished. -/
def BindAttempt.counted (b : BindAttempt) : Bool := b.resource.elim false EndpointResource.counted

/-- The bind fails with an error of this category, returned or sent. -/
def BindAttempt.Fails (b : BindAttempt) (category : Category) : Prop :=
  ∃ e : Error, e.category = category ∧ (b.stage = .returned e ∨ .error e ∈ b.op.sent)

/-- What holds of an attempt on its own: a resource comes after the identity is
resolved, and only the reservation fails with `duplicate_identity`. -/
structure BindAttempt.Tidy (b : BindAttempt) : Prop where
  kind : b.op.kind = .bind
  resource : b.resource ≠ none → b.stage.unresolved = false
  found : b.found = true → ∃ e : Error, b.stage = .returned e ∧ e.category = .duplicateIdentity
  refused : b.found = false → ∀ e : Error, b.stage = .refusing e ∨ b.stage = .returned e →
    e.category ≠ .duplicateIdentity
  sent : ∀ e : Error, .error e ∈ b.op.sent → e.category ≠ .duplicateIdentity

theorem operationResult_bind_category {e : Error} {result : Option (TaskResult Unit)}
    {ownerAlive : Bool} (h : .error e = operationResult .bind result ownerAlive) :
    e.category ≠ .duplicateIdentity := by
  rcases result with - | (v | e' | -)
  · cases h
    decide
  · cases ownerAlive with
    | true => cases h
    | false =>
        cases h
        decide
  · cases h
    decide
  · cases h
    decide

namespace BindAttempt

variable {b b' : BindAttempt}

/-- A step of the operation moves neither the identity nor the resource. -/
theorem opStep_frame {a : OpAction Unit} (h : b.opStep a = some b') :
    b'.id = b.id ∧ b'.stage = b.stage ∧ b'.resource = b.resource ∧ b'.found = b.found := by
  rw [BindAttempt.opStep] at h
  split at h
  · obtain ⟨op, -, rfl⟩ := Option.map_eq_some_iff.mp h
    exact ⟨rfl, rfl, rfl, rfl⟩
  · cases h

theorem Tidy.opStep {a : OpAction Unit} (h : b.Tidy) (hstep : b.opStep a = some b') : b'.Tidy := by
  rw [BindAttempt.opStep] at hstep
  split at hstep
  · obtain ⟨op, hop, rfl⟩ := Option.map_eq_some_iff.mp hstep
    obtain ⟨hkind, hanswers⟩ := opStep_answers hop
    refine ⟨hkind.trans h.kind, h.resource, h.found, h.refused, ?_⟩
    intro e he
    rcases hanswers _ he with hsent | ⟨result, ownerAlive, heq⟩
    · exact h.sent e hsent
    · rw [h.kind] at heq
      exact operationResult_bind_category heq
  · cases hstep

/-- An attempt has its resource only once its identity is resolved. -/
theorem Tidy.unresolved (h : b.Tidy) (hun : b.stage.unresolved = true) : b.resource = none := by
  by_contra hr
  rw [h.resource hr] at hun
  cases hun

/-- An attempt that has not returned was not refused its identity. -/
theorem Tidy.not_found (h : b.Tidy) (hfrom : ∀ e, b.stage ≠ .returned e) : b.found = false := by
  cases hf : b.found with
  | false => rfl
  | true =>
      obtain ⟨e, he, -⟩ := h.found hf
      exact absurd he (hfrom e)

/-- An attempt that was not refused goes on to a stage that is not an error. -/
theorem Tidy.goto (h : b.Tidy) (stage : BindStage) (hfrom : ∀ e, b.stage ≠ .returned e)
    (hstage : b.resource ≠ none → stage.unresolved = false)
    (herror : ∀ e : Error, stage = .refusing e ∨ stage = .returned e →
      e.category ≠ .duplicateIdentity) : Tidy { b with stage := stage } := by
  have hfound := h.not_found hfrom
  refine ⟨h.kind, hstage, ?_, fun _ => herror, h.sent⟩
  intro hf
  rw [show b.found = true from hf] at hfound
  cases hfound

/-- A resource that changes stays where it is. -/
theorem Tidy.reset (h : b.Tidy) {r r' : EndpointResource} (hr : b.resource = some r) :
    Tidy { b with resource := some r' } :=
  ⟨h.kind, fun _ => h.resource (by simp [hr]), h.found, h.refused, h.sent⟩

/-- The bind fails with `duplicate_identity` exactly when it found the
identity registered. -/
theorem Tidy.duplicate_iff (h : b.Tidy) : b.Fails .duplicateIdentity ↔ b.found = true := by
  constructor
  · rintro ⟨e, hcategory, hstage | hsent⟩
    · cases hf : b.found with
      | true => rfl
      | false => exact absurd hcategory (h.refused hf e (.inr hstage))
    · exact absurd hcategory (h.sent e hsent)
  · intro hf
    obtain ⟨e, hstage, hcategory⟩ := h.found hf
    exact ⟨e, hcategory, .inl hstage⟩

end BindAttempt

/-! ### The invariant -/

namespace Registry

/-- One owner for each registered identity and none for the others; one count
for each resource whose release is not finished. -/
structure Inv (s : Registry) : Prop where
  owners : ∀ id, total (fun b => tally (b.ownsId id)) s.attempts = tally (decide (id ∈ s.identities))
  active : s.activeEndpoints = total (fun b => tally b.counted) s.attempts
  tidy : ∀ b ∈ s.attempts, b.Tidy

theorem start_inv : Registry.start.Inv where
  owners := fun id => rfl
  active := rfl
  tidy := fun b hb => by cases hb

theorem withResource_eq_some {s s' : Registry} {i : ℕ}
    {f : EndpointResource → Option EndpointResource} (h : s.withResource i f = some s') :
    ∃ (b : BindAttempt) (r r' : EndpointResource), s.attempts[i]? = some b ∧
      b.resource = some r ∧ f r = some r' ∧ s' = s.setAttempt i { b with resource := some r' } := by
  rw [withResource] at h
  split at h
  · next b hb =>
      split at h
      · next r hr =>
          obtain ⟨r', hf, rfl⟩ := Option.map_eq_some_iff.mp h
          exact ⟨b, r, r', hb, hr, hf, rfl⟩
      · cases h
  · cases h

namespace Inv

variable {s s' : Registry} {i : ℕ} {b b' : BindAttempt} {d : ℤ}

/-- An attempt may move as long as it owns and is counted as before. -/
theorem setAttempt (h : s.Inv) (hb : s.attempts[i]? = some b) (hid : b'.id = b.id)
    (howns : b'.owns = b.owns) (hcounted : tally b'.counted = tally b.counted + d)
    (htidy : b'.Tidy) :
    Registry.Inv ({ s with activeEndpoints := s.activeEndpoints + d }.setAttempt i b') := by
  refine ⟨?_, ?_, forall_set h.tidy htidy⟩
  · intro id
    show total _ (s.attempts.set i b') = _
    rw [total_set_of_eq hb (by rw [BindAttempt.ownsId, hid, howns, BindAttempt.ownsId])]
    exact h.owners id
  · show s.activeEndpoints + d = total _ (s.attempts.set i b')
    rw [total_set _ hb, h.active, hcounted]
    ring

/-- The same without a change of the counter. -/
theorem move (h : s.Inv) (hb : s.attempts[i]? = some b) (hid : b'.id = b.id)
    (howns : b'.owns = b.owns) (hcounted : b'.counted = b.counted) (htidy : b'.Tidy) :
    (s.setAttempt i b').Inv := by
  have hset := h.setAttempt (d := 0) hb hid howns (by rw [hcounted, add_zero]) htidy
  rwa [add_zero] at hset

/-- The one owner of an identity gives it up. -/
theorem disown (h : s.Inv) (hb : s.attempts[i]? = some b) (hid : b'.id = b.id)
    (howns : b.owns = true) (hgone : b'.owns = false) (hcounted : b'.counted = b.counted)
    (htidy : b'.Tidy) : ((s.setAttempt i b').removeIdentity b.id).Inv := by
  refine ⟨?_, ?_, forall_set h.tidy htidy⟩
  · intro id
    show total _ (s.attempts.set i b') = tally (decide (id ∈ s.identities.erase b.id))
    have hbefore := h.owners id
    rw [total_set _ hb, hbefore, BindAttempt.ownsId, BindAttempt.ownsId, hid, howns, hgone,
      Bool.and_true, Bool.and_false]
    by_cases heq : b.id = id
    · -- the identity is registered, or its owner would not be counted
      subst heq
      have hle := le_total (f := fun c : BindAttempt => tally (c.ownsId b.id))
        (fun _ _ => tally_nonneg _) (List.mem_of_getElem? hb)
      rw [hbefore, BindAttempt.ownsId, howns, beq_self_eq_true] at hle
      by_cases hmem : b.id ∈ s.identities
      · simp [hmem, tally]
      · simp [hmem, tally] at hle
    · have hne : (b.id == id) = false := beq_eq_false_iff_ne.mpr heq
      have herase : (id ∈ s.identities.erase b.id) = (id ∈ s.identities) := by
        simp [Ne.symm heq]
      simp [hne, herase, tally]
  · show s.activeEndpoints = total _ (s.attempts.set i b')
    rw [total_set_of_eq hb (by rw [hcounted])]
    exact h.active

/-- A new attempt owns its identity or has none. -/
theorem bind (h : s.Inv) {id : String} (hstep : registryStep s (.bind id) = some s') : s'.Inv := by
  simp only [registryStep, reserveIdentity] at hstep
  by_cases hmem : id ∈ s.identities
  · -- refused: the attempt is kept for the record and owns nothing
    rw [if_pos hmem] at hstep
    obtain rfl := Option.some.inj hstep
    refine ⟨?_, ?_, forall_append h.tidy ?_⟩
    · intro id'
      show total _ (s.attempts ++ [_]) = _
      rw [total_append, total_singleton, h.owners id', BindAttempt.ownsId]
      simp [BindAttempt.owns, BindStage.unresolved, tally]
    · show s.activeEndpoints = total _ (s.attempts ++ [_])
      rw [total_append, total_singleton, h.active]
      exact (add_zero _).symm
    · exact ⟨rfl, fun hr => absurd rfl hr, fun _ => ⟨_, rfl, rfl⟩, fun hf => (by cases hf),
        fun e he => (by cases he)⟩
  · -- reserved: nobody owned the identity before
    rw [if_neg hmem] at hstep
    obtain rfl := Option.some.inj hstep
    refine ⟨?_, ?_, forall_append h.tidy ?_⟩
    · intro id'
      show total _ (s.attempts ++ [_]) = tally (decide (id' ∈ insert id s.identities))
      rw [total_append, total_singleton, h.owners id', BindAttempt.ownsId]
      by_cases heq : id = id'
      · subst heq
        simp [BindAttempt.owns, BindStage.unresolved, tally, hmem]
      · have hne : (id == id') = false := beq_eq_false_iff_ne.mpr heq
        simp [hne, tally, Finset.mem_insert, Ne.symm heq]
    · show s.activeEndpoints = total _ (s.attempts ++ [_])
      rw [total_append, total_singleton, h.active]
      exact (add_zero _).symm
    · refine ⟨rfl, fun hr => absurd rfl hr, fun hf => (by cases hf), ?_, fun e he => (by cases he)⟩
      rintro - e (he | he) <;> cases he

/-- A resource may change in all that is not about its release. -/
theorem resource (h : s.Inv) {f : EndpointResource → Option EndpointResource}
    (hw : s.withResource i f = some s')
    (howns : ∀ r r', f r = some r' → r'.owns = r.owns ∧ r'.counted = r.counted) : s'.Inv := by
  obtain ⟨b, r, r', hb, hr, hf, rfl⟩ := Registry.withResource_eq_some hw
  obtain ⟨ho, hc⟩ := howns r r' hf
  refine h.move hb rfl ?_ ?_ ((h.tidy b (List.mem_of_getElem? hb)).reset hr)
  · simp [BindAttempt.owns, hr, ho]
  · simp [BindAttempt.counted, hr, hc]

/-- The releases have no part in it. -/
theorem releases (h : s.Inv) (releases : List Release) :
    Registry.Inv { s with releases := releases } := ⟨h.owners, h.active, h.tidy⟩

/-- The identity stays with an attempt that has not resolved it. -/
theorem gotoUnresolved (h : s.Inv) (hb : s.attempts[i]? = some b) (stage : BindStage)
    (hun : b.stage.unresolved = true) (hfrom : ∀ e, b.stage ≠ .returned e)
    (hnext : stage.unresolved = true)
    (herror : ∀ e : Error, stage = .refusing e ∨ stage = .returned e →
      e.category ≠ .duplicateIdentity) :
    (s.setAttempt i { b with stage := stage }).Inv := by
  have htidy := h.tidy b (List.mem_of_getElem? hb)
  have hr := htidy.unresolved hun
  refine h.move hb rfl ?_ rfl (htidy.goto _ hfrom (by simp [hr]) herror)
  simp [BindAttempt.owns, hun, hnext]

/-- It stays with the resource of one that has. -/
theorem gotoResolved (h : s.Inv) (hb : s.attempts[i]? = some b) (stage : BindStage)
    (hun : b.stage.unresolved = false) (hfrom : ∀ e, b.stage ≠ .returned e)
    (hnext : stage.unresolved = false)
    (herror : ∀ e : Error, ¬ (stage = .refusing e ∨ stage = .returned e)) :
    (s.setAttempt i { b with stage := stage }).Inv := by
  have htidy := h.tidy b (List.mem_of_getElem? hb)
  refine h.move hb rfl ?_ rfl
    (htidy.goto _ hfrom (fun _ => hnext) fun e he => absurd he (herror e))
  rw [BindAttempt.owns, hnext, BindAttempt.owns, hun]

/-- `release_identity` removes the identity of its resource. -/
theorem remove (h : s.Inv) (hstep : registryStep s (.remove i) = some s') : s'.Inv := by
  simp only [registryStep] at hstep
  split at hstep
  · next b hb =>
      obtain ⟨t, hw, rfl⟩ := Option.map_eq_some_iff.mp hstep
      obtain ⟨b', r, r', hb', hr, hf, rfl⟩ := Registry.withResource_eq_some hw
      obtain rfl := Option.some.inj (hb.symm.trans hb')
      have htidy := h.tidy b (List.mem_of_getElem? hb)
      have hresolved : b.stage.unresolved = false := htidy.resource (by simp [hr])
      split at hf
      · next hphase =>
          obtain rfl := Option.some.inj hf
          refine h.disown hb rfl ?_ ?_ ?_ (htidy.reset hr)
          · simp [BindAttempt.owns, hr, EndpointResource.owns, hphase]
          · simp [BindAttempt.owns, hresolved, EndpointResource.owns]
          · rw [BindAttempt.counted, BindAttempt.counted, hr]
            show true = (r.phase != .released)
            rw [hphase]
            rfl
      · cases hf
  · cases hstep

/-- The last step of a release counts the endpoint out. -/
theorem uncount (h : s.Inv) (hstep : registryStep s (.uncount i) = some s') : s'.Inv := by
  obtain ⟨t, hw, rfl⟩ := Option.map_eq_some_iff.mp hstep
  obtain ⟨b, r, r', hb, hr, hf, rfl⟩ := Registry.withResource_eq_some hw
  have htidy := h.tidy b (List.mem_of_getElem? hb)
  split at hf
  · next hphase =>
      obtain rfl := Option.some.inj hf
      refine h.setAttempt hb rfl ?_ ?_ (htidy.reset hr)
      · rw [BindAttempt.owns, BindAttempt.owns, hr]
        show (b.stage.unresolved || false) = (_ || (r.phase == .held || r.phase == .swapped))
        rw [hphase]
        rfl
      · rw [BindAttempt.counted, BindAttempt.counted, hr]
        show 0 = tally (r.phase != .released) + -1
        rw [hphase]
        rfl
  · cases hf

end Inv

end Registry

/-! ### Steps and runs -/

/-- Every step of an attempt, with the stage it is taken at. -/
inductive AttemptMove (s : Registry) (i : ℕ) (b : BindAttempt) : AttemptAction → Registry → Prop
  | built : b.stage = .building →
      AttemptMove s i b (.build .built) (s.setAttempt i { b with stage := .monitoring })
  | relayUnavailable : b.stage = .building →
      AttemptMove s i b (.build .relayUnavailable) (s.setAttempt i { b with
        stage := .refusing (bindError .internal "custom relay configuration is unavailable") })
  | addressInvalid : b.stage = .building →
      AttemptMove s i b (.build .addressInvalid) (s.setAttempt i { b with
        stage := .refusing (bindError .invalidArgument "bind address configuration is invalid") })
  | watched : b.stage = .monitoring →
      AttemptMove s i b (.watch true) (s.setAttempt i { b with stage := .supervising })
  | unwatched : b.stage = .monitoring →
      AttemptMove s i b (.watch false) (s.setAttempt i { b with
        stage := .refusing (bindError .cancelled "endpoint owner is no longer available") })
  | refuse {e} : b.stage = .refusing e →
      AttemptMove s i b .refuse
        ((s.setAttempt i { b with stage := .returned e }).removeIdentity b.id)
  | op {a b'} : b.opStep a = some b' → AttemptMove s i b (.op a) (s.setAttempt i b')
  | release : b.stage = .supervising →
      (b.op.phase = .demonitoring ∨
        ∃ result, b.op.phase = .sending result ∧ result ≠ some (.value ())) →
      AttemptMove s i b .release
        ((s.setAttempt i { b with stage := .settled true }).removeIdentity b.id)
  | register : b.stage = .supervising → b.op.phase = .sending (some (.value ())) →
      AttemptMove s i b .register ({ s with activeEndpoints := s.activeEndpoints + 1 }.setAttempt i
        { b with stage := .registered, resource := some ⟨true, .held, false, 0⟩ })
  | keep : b.stage = .registered →
      AttemptMove s i b (.monitor true) (s.setAttempt i { b with stage := .settled true })
  | abort : b.stage = .registered →
      AttemptMove s i b (.monitor false) ((s.addRelease i .abort).setAttempt i
        { b with stage := .aborting s.releases.length })
  | settle {k} : b.stage = .aborting k → (s.releases[k]?).map Release.stage = some .done →
      AttemptMove s i b .settle (s.setAttempt i { b with stage := .settled false })

theorem attemptStep_move {s s' : Registry} {i : ℕ} {b : BindAttempt} {a : AttemptAction}
    (hstep : attemptStep s i b a = some s') : AttemptMove s i b a s' := by
  cases a with
  | build result =>
      simp only [attemptStep] at hstep
      split at hstep
      · next hstage =>
          obtain rfl := Option.some.inj hstep
          cases result with
          | built => exact .built hstage
          | relayUnavailable => exact .relayUnavailable hstage
          | addressInvalid => exact .addressInvalid hstage
      · cases hstep
  | watch callerAlive =>
      simp only [attemptStep] at hstep
      split at hstep
      · next hstage =>
          obtain rfl := Option.some.inj hstep
          cases callerAlive with
          | true => exact .watched hstage
          | false => exact .unwatched hstage
      · cases hstep
  | refuse =>
      simp only [attemptStep] at hstep
      split at hstep
      · next hstage =>
          obtain rfl := Option.some.inj hstep
          exact .refuse hstage
      · cases hstep
  | op a =>
      obtain ⟨b', hop, rfl⟩ := Option.map_eq_some_iff.mp hstep
      exact .op hop
  | release =>
      simp only [attemptStep] at hstep
      split at hstep
      · cases hstep
      · next hother hstage hphase =>
          obtain rfl := Option.some.inj hstep
          exact .release hstage (.inr ⟨_, hphase, hother⟩)
      · next hstage hphase =>
          obtain rfl := Option.some.inj hstep
          exact .release hstage (.inl hphase)
      · cases hstep
  | register =>
      simp only [attemptStep] at hstep
      split at hstep
      · next hstage hphase =>
          obtain rfl := Option.some.inj hstep
          exact .register hstage hphase
      · cases hstep
  | monitor ownerAlive =>
      simp only [attemptStep] at hstep
      split at hstep
      · next hstage =>
          cases ownerAlive with
          | true =>
              obtain rfl := Option.some.inj hstep
              exact .keep hstage
          | false =>
              obtain rfl := Option.some.inj hstep
              exact .abort hstage
      · cases hstep
  | settle =>
      simp only [attemptStep] at hstep
      split at hstep
      · next hstage =>
          split at hstep
          · next hdone =>
              obtain rfl := Option.some.inj hstep
              exact .settle hstage hdone
          · cases hstep
      · cases hstep

/-- Every step of an attempt keeps the registry exact. -/
theorem attemptStep_inv {s s' : Registry} {i : ℕ} {b : BindAttempt} {a : AttemptAction} (h : s.Inv)
    (hb : s.attempts[i]? = some b) (hstep : attemptStep s i b a = some s') : s'.Inv := by
  have htidy := h.tidy b (List.mem_of_getElem? hb)
  cases attemptStep_move hstep with
  | built hstage =>
      exact h.gotoUnresolved hb .monitoring (by rw [hstage]; rfl) (by simp [hstage]) rfl
        (by rintro e (he | he) <;> cases he)
  | relayUnavailable hstage =>
      exact h.gotoUnresolved hb (.refusing _) (by rw [hstage]; rfl) (by simp [hstage]) rfl
        (by rintro e (he | he) <;> cases he; decide)
  | addressInvalid hstage =>
      exact h.gotoUnresolved hb (.refusing _) (by rw [hstage]; rfl) (by simp [hstage]) rfl
        (by rintro e (he | he) <;> cases he; decide)
  | watched hstage =>
      exact h.gotoUnresolved hb .supervising (by rw [hstage]; rfl) (by simp [hstage]) rfl
        (by rintro e (he | he) <;> cases he)
  | unwatched hstage =>
      exact h.gotoUnresolved hb (.refusing _) (by rw [hstage]; rfl) (by simp [hstage]) rfl
        (by rintro e (he | he) <;> cases he; decide)
  | @refuse e hstage =>
      have hr := htidy.unresolved (by rw [hstage]; rfl)
      have hfound := htidy.not_found (by simp [hstage])
      refine h.disown hb rfl ?_ ?_ rfl (htidy.goto _ (by simp [hstage]) (by simp [hr]) ?_)
      · simp [BindAttempt.owns, hstage, BindStage.unresolved]
      · simp [BindAttempt.owns, BindStage.unresolved, hr]
      · rintro e' (he | he)
        · cases he
        · obtain rfl := BindStage.returned.inj he
          exact htidy.refused hfound e (.inl hstage)
  | op hop =>
      obtain ⟨hid, hstage, hr, -⟩ := BindAttempt.opStep_frame hop
      refine h.move hb hid ?_ ?_ (htidy.opStep hop)
      · rw [BindAttempt.owns, hstage, hr, BindAttempt.owns]
      · rw [BindAttempt.counted, hr, BindAttempt.counted]
  | release hstage _ =>
      have hr := htidy.unresolved (by rw [hstage]; rfl)
      refine h.disown hb rfl ?_ ?_ rfl (htidy.goto _ (by simp [hstage]) (fun _ => rfl) ?_)
      · simp [BindAttempt.owns, hstage, BindStage.unresolved]
      · simp [BindAttempt.owns, BindStage.unresolved, hr]
      · rintro e (he | he) <;> cases he
  | register hstage _ =>
      have hr := htidy.unresolved (by rw [hstage]; rfl)
      have hgoto := htidy.goto .registered (by simp [hstage]) (fun _ => rfl)
        (by rintro e (he | he) <;> cases he)
      -- ownership goes from the attempt to its resource in one step
      refine h.setAttempt hb rfl ?_ ?_
        ⟨hgoto.kind, fun _ => rfl, hgoto.found, hgoto.refused, hgoto.sent⟩
      · simp [BindAttempt.owns, hstage, BindStage.unresolved, EndpointResource.owns]
      · simp [BindAttempt.counted, hr, EndpointResource.counted, tally]
  | keep hstage =>
      exact h.gotoResolved hb (.settled true) (by rw [hstage]; rfl) (by simp [hstage]) rfl
        (by rintro e (he | he) <;> cases he)
  | abort hstage =>
      -- the owner is gone: the abort begins, and the identity is its to remove
      have hgone := h.gotoResolved hb (.aborting s.releases.length) (by rw [hstage]; rfl)
        (by simp [hstage]) rfl (by rintro e (he | he) <;> cases he)
      exact hgone.releases _
  | settle hstage _ =>
      exact h.gotoResolved hb (.settled false) (by rw [hstage]; rfl) (by simp [hstage]) rfl
        (by rintro e (he | he) <;> cases he)

/-- Every step of release `k`. -/
inductive ReleaseMove (s : Registry) (k : ℕ) (call : Release) : ReleaseAction → Registry → Prop
  | take {t} : call.stage = .entered →
      s.withResource call.target (fun r => some { r with slot := false }) = some t →
      ReleaseMove s k call .take
        (let slot := (s.attempts[call.target]?).elim false fun b =>
          b.resource.elim false EndpointResource.slot
        t.setRelease k { call with held := slot, stage := call.kind.afterTake slot })
  | closed {t} : call.stage = .closing →
      s.withResource call.target (fun r => some { r with closed := true }) = some t →
      ReleaseMove s k call .closed (t.setRelease k { call with held := false, stage := .swapping })
  | cancel : ReleaseMove s k call .cancel (s.setRelease k { call with held := false, stage := .done })
  | swap {t f} : call.stage = .swapping → s.withResource call.target f = some t →
      (∀ r r', f r = some r' → r.phase = .held ∧ r' = { r with phase := .swapped }) →
      ReleaseMove s k call .swap (t.setRelease k { call with stage := .waiting })
  | late : call.stage = .swapping →
      ReleaseMove s k call .swap (s.setRelease k { call with stage := .dropping })
  | leave {t f} : call.stage = .waiting → s.withResource call.target f = some t →
      (∀ r r', f r = some r' → r' = r) →
      ReleaseMove s k call .leave (t.setRelease k { call with stage := .dropping })
  | drop : ReleaseMove s k call .drop (s.setRelease k { call with held := false, stage := .done })

theorem releaseStep_move {s s' : Registry} {k : ℕ} {call : Release} {a : ReleaseAction}
    (hstep : releaseStep s k call a = some s') : ReleaseMove s k call a s' := by
  cases a with
  | take =>
      simp only [releaseStep] at hstep
      split at hstep
      · next hstage =>
          obtain ⟨t, hw, rfl⟩ := Option.map_eq_some_iff.mp hstep
          exact .take hstage hw
      · cases hstep
  | closed =>
      simp only [releaseStep] at hstep
      split at hstep
      · next hstage =>
          obtain ⟨t, hw, rfl⟩ := Option.map_eq_some_iff.mp hstep
          exact .closed hstage hw
      · cases hstep
  | cancel =>
      simp only [releaseStep] at hstep
      split at hstep
      · exact Option.some.inj hstep ▸ .cancel
      · exact Option.some.inj hstep ▸ .cancel
      · cases hstep
  | swap =>
      simp only [releaseStep] at hstep
      split at hstep
      · next hstage =>
          split at hstep
          · next t hw =>
              obtain rfl := Option.some.inj hstep
              refine .swap hstage hw ?_
              intro r r' hf
              split at hf
              · next hphase => exact ⟨hphase, (Option.some.inj hf).symm⟩
              · cases hf
          · exact Option.some.inj hstep ▸ .late hstage
      · cases hstep
  | leave =>
      simp only [releaseStep] at hstep
      split at hstep
      · next hstage =>
          obtain ⟨t, hw, rfl⟩ := Option.map_eq_some_iff.mp hstep
          refine .leave hstage hw ?_
          intro r r' hf
          split at hf
          · exact (Option.some.inj hf).symm
          · cases hf
      · cases hstep
  | drop =>
      simp only [releaseStep] at hstep
      split at hstep
      · exact Option.some.inj hstep ▸ .drop
      · cases hstep

/-- Every step of a release keeps the registry exact. -/
theorem releaseStep_inv {s s' : Registry} {k : ℕ} {call : Release} {a : ReleaseAction} (h : s.Inv)
    (hstep : releaseStep s k call a = some s') : s'.Inv := by
  cases releaseStep_move hstep with
  | take _ hw =>
      refine (h.resource hw ?_).releases _
      intro r r' hf
      obtain rfl := Option.some.inj hf
      exact ⟨rfl, rfl⟩
  | closed _ hw =>
      refine (h.resource hw ?_).releases _
      intro r r' hf
      obtain rfl := Option.some.inj hf
      exact ⟨rfl, rfl⟩
  | swap _ hw hswap =>
      refine (h.resource hw ?_).releases _
      intro r r' hf
      -- the winner still owns the identity, until it removes it
      obtain ⟨hphase, rfl⟩ := hswap r r' hf
      rw [EndpointResource.owns, EndpointResource.counted, EndpointResource.owns,
        EndpointResource.counted, hphase]
      exact ⟨rfl, rfl⟩
  | leave _ hw hsame =>
      refine (h.resource hw ?_).releases _
      intro r r' hf
      obtain rfl := hsame r r' hf
      exact ⟨rfl, rfl⟩
  | cancel | late _ | drop => exact h.releases _

/-- Every step keeps the registry exact. -/
theorem registryStep_inv {s s' : Registry} {a : RegistryAction} (h : s.Inv)
    (hstep : registryStep s a = some s') : s'.Inv := by
  have hbegin : ∀ {i : ℕ} {kind : ReleaseKind}, s.begin i kind = some s' → s'.Inv := by
    intro i kind hbegin
    obtain ⟨t, hw, rfl⟩ := Option.map_eq_some_iff.mp hbegin
    refine (h.resource hw ?_).releases _
    rintro r r' hf
    obtain rfl := Option.some.inj hf
    exact ⟨rfl, rfl⟩
  cases a with
  | bind id => exact h.bind hstep
  | attempt i a =>
      simp only [registryStep] at hstep
      split at hstep
      · next b hb => exact attemptStep_inv h hb hstep
      · cases hstep
  | close i => exact hbegin hstep
  | abort i => exact hbegin hstep
  | release k a =>
      simp only [registryStep] at hstep
      split at hstep
      · exact releaseStep_inv h hstep
      · cases hstep
  | remove i => exact h.remove hstep
  | uncount i => exact h.uncount hstep
  | clone i =>
      refine h.resource hstep ?_
      rintro r r' hf
      split at hf
      · obtain rfl := Option.some.inj hf
        exact ⟨rfl, rfl⟩
      · cases hf
  | dropClone i =>
      refine h.resource hstep ?_
      rintro r r' hf
      split at hf
      · obtain rfl := Option.some.inj hf
        exact ⟨rfl, rfl⟩
      · cases hf

/-! ### What the registry says -/

/-- A registered identity has exactly one owner and any other has none; the
counter is the number of resources whose release is not finished; a bind fails
with `duplicate_identity` exactly when it finds its identity registered. -/
structure Registry.Exact (s : Registry) : Prop where
  owners : ∀ id, s.attempts.countP (BindAttempt.ownsId id) = if id ∈ s.identities then 1 else 0
  active : s.activeEndpoints = s.attempts.countP BindAttempt.counted
  duplicate : ∀ b ∈ s.attempts, b.Fails .duplicateIdentity ↔ b.found = true
  found : ∀ (id : String) (s' : Registry), registryStep s (.bind id) = some s' →
    ∃ b, s'.attempts = s.attempts ++ [b] ∧ b.id = id ∧ (b.found = true ↔ id ∈ s.identities)

theorem registryStep_bind (s : Registry) (id : String) :
    ∃ (s' : Registry) (b : BindAttempt), registryStep s (.bind id) = some s' ∧
      s'.attempts = s.attempts ++ [b] ∧ b.id = id ∧ (b.found = true ↔ id ∈ s.identities) := by
  simp only [registryStep, reserveIdentity]
  by_cases hmem : id ∈ s.identities
  · rw [if_pos hmem]
    exact ⟨_, _, rfl, rfl, rfl, by simp [hmem]⟩
  · rw [if_neg hmem]
    exact ⟨_, _, rfl, rfl, rfl, by simp [hmem]⟩

theorem Registry.Inv.exact {s : Registry} (h : s.Inv) : s.Exact where
  owners := by
    intro id
    have hid := h.owners id
    rw [total_tally] at hid
    by_cases hmem : id ∈ s.identities
    · rw [if_pos hmem]
      rw [decide_eq_true hmem] at hid
      exact Int.natCast_inj.mp hid
    · rw [if_neg hmem]
      rw [decide_eq_false hmem] at hid
      exact Int.natCast_inj.mp hid
  active := h.active.trans (total_tally _ _)
  duplicate := fun b hb => (h.tidy b hb).duplicate_iff
  found := by
    intro id s' hstep
    obtain ⟨t, b, ht, hb⟩ := registryStep_bind s id
    obtain rfl := Option.some.inj (ht.symm.trans hstep)
    exact ⟨b, hb⟩

/-- **Identity registry**: in every state that any interleaving reaches, the
registry has exactly the identities that are owned, each by one attempt or
resource, and the counter and the refusals agree with it. -/
theorem registry_exact (as : List RegistryAction) (s : Registry)
    (hrun : run registryStep .start as = some s) : s.Exact :=
  Registry.Inv.exact (run_invariant (fun _ _ _ => registryStep_inv) hrun Registry.start_inv)

/-- The first bind succeeds and its endpoint is aborted, while the second finds
the identity registered and is refused. -/
theorem registry_exact_sample :
    ∃ s : Registry,
      run registryStep .start
        [.bind "a", .bind "a", .attempt 0 (.build .built), .attempt 0 (.watch true),
         .attempt 0 (.op (.finish (.value ()))), .attempt 0 (.op .selectTask),
         .attempt 0 (.op .complete), .attempt 0 .register, .attempt 0 (.monitor true), .abort 0,
         .release 0 .take, .release 0 .swap] = some s ∧
      s.identities = {"a"} ∧ s.activeEndpoints = 1 ∧ s.Exact := by
  obtain ⟨s, hrun, hids, hactive⟩ : ∃ s : Registry,
      run registryStep .start
        [.bind "a", .bind "a", .attempt 0 (.build .built), .attempt 0 (.watch true),
         .attempt 0 (.op (.finish (.value ()))), .attempt 0 (.op .selectTask),
         .attempt 0 (.op .complete), .attempt 0 .register, .attempt 0 (.monitor true), .abort 0,
         .release 0 .take, .release 0 .swap] = some s ∧
      s.identities = {"a"} ∧ s.activeEndpoints = 1 := ⟨_, rfl, rfl, rfl⟩
  exact ⟨s, hrun, hids, hactive, registry_exact _ s hrun⟩

/-- An attempt that is unresolved, or has a resource whose release is not
finished. -/
def BindAttempt.unreleased (id : String) (b : BindAttempt) : Bool :=
  b.id == id && (b.stage.unresolved || b.counted)

/-- Between the removal of an identity and the end of that release a second
bind reserves the identity: there are two such attempts for it. -/
theorem registry_two_unreleased :
    ¬ ∀ (as : List RegistryAction) (s : Registry), run registryStep .start as = some s →
      ∀ id, (id ∈ s.identities ↔ s.attempts.countP (BindAttempt.unreleased id) = 1) ∧
        s.attempts.countP (BindAttempt.unreleased id) ≤ 1 := by
  intro hclaim
  have htwo := (hclaim
    [.bind "a", .attempt 0 (.build .built), .attempt 0 (.watch true),
     .attempt 0 (.op (.finish (.value ()))), .attempt 0 (.op .selectTask),
     .attempt 0 (.op .complete), .attempt 0 .register, .attempt 0 (.monitor true), .abort 0,
     .release 0 .take, .release 0 .swap, .remove 0, .bind "a"] _ rfl "a").2
  exact absurd htwo (by decide)

end IrohBeam
