/-
IrohBeam/Exclusive.lean

One live native endpoint for each identity.

An endpoint stays bound while a handle of it is held and `close()` has not
completed.  The registry lets a second bind of an identity through as soon as
the identity is removed, so the endpoint of the first must not be live then.

`release_identity` does not look at the handles.  An abort takes the one in the
slot and removes the identity, and a clone in a connect that is still in flight
keeps the endpoint bound (`second_bind_beside_live`).  What saves the promise in
the other runs is that every release empties the slot before it swaps, and that
clones come from the slot: after the removal no handle can be added.  Hence

* `live_endpoint_exclusive` — if at every removal the endpoint is closed or has
  no clone in flight, then a live endpoint owns its identity.

The theorem has a second half for all handles there are, the one that an abort
or a close has taken and the one a cancelled bind is left with included.
-/
import IrohBeam.Registry

namespace IrohBeam

open Transition Ledger

/-! ### Handles -/

/-- The resource of attempt `i`. -/
def Registry.resourceOf (s : Registry) (i : ℕ) : Option EndpointResource :=
  (s.attempts[i]?).elim none BindAttempt.resource

/-- The endpoint is not closed, and its handle is in the slot or cloned in an
operation in flight. -/
def EndpointResource.live (r : EndpointResource) : Bool := !r.closed && (r.slot || 0 < r.clones)

/-- A handle of the endpoint of a bind is with its task or its supervisor. -/
def Operation.carries (o : Operation Unit) : Bool :=
  match o.phase, o.task with
  | .selecting, .finished (.value ()) | .aborting, .finished (.value ()) => true
  | .deciding (some (.value ())), _ | .sending (some (.value ())), _ => true
  | _, _ => false

/-- The handle is still with the bind itself. -/
def BindAttempt.carries (b : BindAttempt) : Bool :=
  b.leftover || match b.stage with
    | .supervising => b.op.carries
    | _ => false

/-- A release has the handle that was in the slot of attempt `i`. -/
def Registry.taken (s : Registry) (i : ℕ) : Bool :=
  s.releases.any fun call => call.target == i && call.held

/-- The endpoint of attempt `i` is live through the slot or a clone. -/
def Registry.live (s : Registry) (i : ℕ) : Bool :=
  (s.resourceOf i).elim false EndpointResource.live

/-- The endpoint of attempt `i` is live through any handle. -/
def Registry.held (s : Registry) (i : ℕ) : Bool :=
  (s.attempts[i]?).elim false BindAttempt.carries ||
    (s.resourceOf i).elim false fun r => r.live || !r.closed && s.taken i

/-- No endpoint is live whose identity is not registered, and beside a live
endpoint no other bind owns its identity or has a live endpoint. -/
def Registry.Exclusive (s : Registry) (live : ℕ → Bool) : Prop :=
  (∀ (i : ℕ) (b : BindAttempt), s.attempts[i]? = some b → b.id ∉ s.identities → live i = false) ∧
  ∀ (i j : ℕ) (b c : BindAttempt), i ≠ j → s.attempts[i]? = some b → s.attempts[j]? = some c →
    b.id = c.id → live i = true → c.owns = false ∧ live j = false

/-- The side condition: an identity is removed only when the endpoint is closed
or no operation in flight has a clone of its handle. -/
def RemovesUncloned (s : Registry) : RegistryAction → Prop
  | .remove i => ∀ r : EndpointResource, s.resourceOf i = some r → r.closed = true ∨ r.clones = 0
  | _ => True

/-- The side condition for all handles: a release removes an identity only when
the endpoint is closed or no handle is left, and a cancelled bind only when it
has no endpoint. -/
def RemovesUnheld (s : Registry) : RegistryAction → Prop
  | .remove i => ∀ r : EndpointResource, s.resourceOf i = some r →
      r.closed = true ∨ r.clones = 0 ∧ s.taken i = false
  | .attempt i .release => ∀ b : BindAttempt, s.attempts[i]? = some b → b.leftover = false
  | _ => True

/-- Where no handle is left there is no clone. -/
theorem RemovesUnheld.uncloned {s : Registry} {a : RegistryAction} (h : RemovesUnheld s a) :
    RemovesUncloned s a := by
  cases a with
  | remove i => exact fun r hr => (h r hr).imp_right And.left
  | _ => trivial

/-! ### How steps move the handles -/

theorem Registry.resourceOf_set {s s' : Registry} {i : ℕ} {b b' : BindAttempt}
    (hb : s.attempts[i]? = some b) (hs' : s'.attempts = s.attempts.set i b') (j : ℕ) :
    s'.resourceOf j = if j = i then b'.resource else s.resourceOf j := by
  rw [Registry.resourceOf, hs', elim_set hb]
  rfl

theorem Registry.resourceOf_eq {s : Registry} {i : ℕ} {b : BindAttempt}
    (hb : s.attempts[i]? = some b) : s.resourceOf i = b.resource := by
  rw [Registry.resourceOf, hb]
  rfl

/-- What one step does to a resource. -/
inductive ResourceChange (s : Registry) (a : RegistryAction) (j : ℕ) (r : EndpointResource) :
    EndpointResource → Prop
  | same : ResourceChange s a j r r
  | taken : ResourceChange s a j r { r with slot := false }
  | closed : ResourceChange s a j r { r with closed := true }
  | swapped {call : Release} : call ∈ s.releases → call.stage = .swapping → call.target = j →
      r.phase = .held → ResourceChange s a j r { r with phase := .swapped }
  | removed : a = .remove j → r.phase = .swapped →
      ResourceChange s a j r { r with phase := .removed }
  | uncounted : r.phase = .removed → ResourceChange s a j r { r with phase := .released }
  | cloned : r.slot = true → ResourceChange s a j r { r with clones := r.clones + 1 }
  | dropped {n : ℕ} : r.clones = n + 1 → ResourceChange s a j r { r with clones := n }

/-- No resource goes away, and every one after a step was there before, up to
one of the changes, or has just been made. -/
structure ResourcesStep (s : Registry) (a : RegistryAction) (s' : Registry) : Prop where
  kept : ∀ j, s.resourceOf j ≠ none → s'.resourceOf j ≠ none
  back : ∀ (j : ℕ) (r' : EndpointResource), s'.resourceOf j = some r' →
    (∃ r, s.resourceOf j = some r ∧ ResourceChange s a j r r') ∨
      s.resourceOf j = none ∧ r' = ⟨true, .held, false, 0⟩

/-- A step that changes no resource. -/
theorem ResourcesStep.of_eq {s s' : Registry} {a : RegistryAction}
    (h : ∀ j, s'.resourceOf j = s.resourceOf j) : ResourcesStep s a s' := by
  refine ⟨fun j hj => h j ▸ hj, ?_⟩
  intro j r' hr'
  rw [h j] at hr'
  exact .inl ⟨r', hr', .same⟩

/-- A step that changes one resource. -/
theorem ResourcesStep.of_withResource {s t s' : Registry} {a : RegistryAction} {i : ℕ}
    {f : EndpointResource → Option EndpointResource} (hw : s.withResource i f = some t)
    (hs' : s'.attempts = t.attempts)
    (hf : ∀ r r', s.resourceOf i = some r → f r = some r' → ResourceChange s a i r r') :
    ResourcesStep s a s' := by
  obtain ⟨b, r, r₁, hb, hr, hfr, rfl⟩ := Registry.withResource_eq_some hw
  have hri : s.resourceOf i = some r := (Registry.resourceOf_eq hb).trans hr
  refine ⟨?_, ?_⟩
  · intro j hj
    rw [Registry.resourceOf_set hb hs']
    split
    · simp
    · exact hj
  · intro j r' hr'
    rw [Registry.resourceOf_set hb hs'] at hr'
    split at hr'
    · next hj =>
        subst hj
        obtain rfl := Option.some.inj hr'
        exact .inl ⟨r, hri, hf r r₁ hri hfr⟩
    · exact .inl ⟨r', hr', .same⟩

/-- An attempt makes a resource or leaves it alone, and adds at most an abort
of the resource it has made. -/
structure AttemptSpec (s : Registry) (i : ℕ) (b : BindAttempt) (s' : Registry) : Prop where
  resource : ∃ b' : BindAttempt, s'.attempts = s.attempts.set i b' ∧
    (b'.stage = .registered → b'.resource ≠ none ∨ b.stage = .registered) ∧
    (b'.resource = b.resource ∨
      b.resource = none ∧ b'.resource = some ⟨true, .held, false, 0⟩)
  releases : s'.releases = s.releases ∨
    b.stage = .registered ∧ s'.releases = s.releases ++ [⟨i, .abort, false, .entered⟩]

theorem attemptStep_spec {s s' : Registry} {i : ℕ} {b : BindAttempt} {a : AttemptAction}
    (htidy : b.Tidy) (hstep : attemptStep s i b a = some s') : AttemptSpec s i b s' := by
  cases attemptStep_move hstep with
  | op hop =>
      obtain ⟨-, hstage, hr, -⟩ := BindAttempt.opStep_frame hop
      exact ⟨⟨_, rfl, fun hregistered => .inr (hstage ▸ hregistered), .inl hr⟩, .inl rfl⟩
  | register hstage _ =>
      have hnone : b.resource = none := by
        by_contra hr
        have hun := htidy.resource hr
        rw [hstage] at hun
        cases hun
      exact ⟨⟨_, rfl, fun _ => .inl (by simp), .inr ⟨hnone, rfl⟩⟩, .inl rfl⟩
  | abort hstage =>
      exact ⟨⟨_, rfl, fun hregistered => (by cases hregistered), .inl rfl⟩, .inr ⟨hstage, rfl⟩⟩
  | _ => exact ⟨⟨_, rfl, fun hregistered => (by cases hregistered), .inl rfl⟩, .inl rfl⟩

/-- The stages of a release that has emptied the slot and is not over. -/
def ReleaseStage.past : ReleaseStage → Bool
  | .entered | .done => false
  | _ => true

/-- The binds have not moved, and have the resources they had. -/
def SameBinds (s s' : Registry) : Prop :=
  ∀ (j : ℕ) (b' : BindAttempt), s'.attempts[j]? = some b' →
    ∃ b : BindAttempt, s.attempts[j]? = some b ∧ b'.stage = b.stage ∧ b'.leftover = b.leftover ∧
      b'.op = b.op ∧ (b.resource ≠ none → b'.resource ≠ none)

theorem SameBinds.of_eq {s s' : Registry} (h : s'.attempts = s.attempts) : SameBinds s s' := by
  intro j b' hb'
  rw [h] at hb'
  exact ⟨b', hb', rfl, rfl, rfl, id⟩

theorem SameBinds.of_withResource {s t s' : Registry} {i : ℕ}
    {f : EndpointResource → Option EndpointResource} (hw : s.withResource i f = some t)
    (hs' : s'.attempts = t.attempts) : SameBinds s s' := by
  obtain ⟨b, r, r', hb, hr, -, rfl⟩ := Registry.withResource_eq_some hw
  intro j b' hb'
  rw [hs'] at hb'
  change (s.attempts.set i _)[j]? = some b' at hb'
  by_cases hij : i = j
  · subst hij
    rw [List.getElem?_set_self (List.getElem?_eq_some_iff.mp hb).1] at hb'
    obtain rfl := Option.some.inj hb'
    exact ⟨b, hb, rfl, rfl, rfl, fun _ => (by simp)⟩
  · rw [List.getElem?_set_ne hij] at hb'
    exact ⟨b', hb', rfl, rfl, rfl, id⟩

theorem setRelease_releases {s t : Registry} {i : ℕ}
    {f : EndpointResource → Option EndpointResource} (hw : s.withResource i f = some t) (k : ℕ)
    (call : Release) : (t.setRelease k call).releases = s.releases.set k call := by
  obtain ⟨b, r, r', -, -, -, rfl⟩ := Registry.withResource_eq_some hw
  rfl

/-- A release moves on: it takes the handle that is in the slot, or goes from
one stage past that to another, or is over. -/
structure ReleaseSpec (s : Registry) (k : ℕ) (call : Release) (a : ReleaseAction) (s' : Registry) :
    Prop where
  resources : ResourcesStep s (.release k a) s'
  binds : SameBinds s s'
  moved : ∃ call' : Release, s'.releases = s.releases.set k call' ∧ call'.target = call.target ∧
    (call'.stage.past = true → call.stage.past = true ∨
      ∀ r, s'.resourceOf call.target = some r → r.slot = false) ∧
    (call'.held = true → call.held = true ∨
      ∃ r, s.resourceOf call.target = some r ∧ r.slot = true)

theorem releaseStep_spec {s s' : Registry} {k : ℕ} {call : Release} {a : ReleaseAction}
    (hk : s.releases[k]? = some call) (hstep : releaseStep s k call a = some s') :
    ReleaseSpec s k call a s' := by
  have hmove := releaseStep_move hstep
  cases hmove with
  | take _ hw =>
      refine ⟨.of_withResource hw rfl ?_, .of_withResource hw rfl, _,
        setRelease_releases hw k _, rfl, ?_, ?_⟩
      · rintro r r' - hf
        obtain rfl := Option.some.inj hf
        exact .taken
      · -- `take_endpoint` leaves the slot empty, whatever it found there
        intro _
        right
        intro r' hr'
        obtain ⟨b, r, r₁, hb, hr, hf, rfl⟩ := Registry.withResource_eq_some hw
        obtain rfl := Option.some.inj hf
        rw [Registry.resourceOf_set hb rfl, if_pos rfl] at hr'
        obtain rfl := Option.some.inj hr'
        rfl
      · intro hheld
        right
        obtain ⟨b, r, r₁, hb, hr, -, -⟩ := Registry.withResource_eq_some hw
        refine ⟨r, (Registry.resourceOf_eq hb).trans hr, ?_⟩
        change (s.attempts[call.target]?).elim false _ = true at hheld
        rwa [hb, Option.elim_some, hr, Option.elim_some] at hheld
  | closed hstage hw =>
      refine ⟨.of_withResource hw rfl ?_, .of_withResource hw rfl, _,
        setRelease_releases hw k _, rfl, ?_, ?_⟩
      · rintro r r' - hf
        obtain rfl := Option.some.inj hf
        exact .closed
      · exact fun _ => .inl (by rw [hstage]; rfl)
      · intro hheld
        cases hheld
  | swap hstage hw hswap =>
      have hpast : call.stage.past = true := by rw [hstage]; rfl
      refine ⟨.of_withResource hw rfl ?_, .of_withResource hw rfl, _,
        setRelease_releases hw k _, rfl, fun _ => .inl hpast, .inl⟩
      -- the first swap goes on to `release_identity`
      rintro r r' - hf
      obtain ⟨hphase, rfl⟩ := hswap r r' hf
      exact .swapped (List.mem_of_getElem? hk) hstage rfl hphase
  | late hstage =>
      have hpast : call.stage.past = true := by rw [hstage]; rfl
      exact ⟨.of_eq fun _ => rfl, .of_eq rfl, _, rfl, rfl, fun _ => .inl hpast, .inl⟩
  | leave hstage hw hsame =>
      have hpast : call.stage.past = true := by rw [hstage]; rfl
      refine ⟨.of_withResource hw rfl ?_, .of_withResource hw rfl, _,
        setRelease_releases hw k _, rfl, fun _ => .inl hpast, .inl⟩
      rintro r r' - hf
      obtain rfl := hsame r r' hf
      exact .same
  | cancel | drop =>
      exact ⟨.of_eq fun _ => rfl, .of_eq rfl, _, rfl, rfl, fun hpast => (by cases hpast),
        fun hheld => (by cases hheld)⟩

/-! ### One step of the whole -/

/-- Where a release after a step comes from: it was there, has just begun on a
resource, or has moved. -/
inductive ReleaseOrigin (s s' : Registry) (call' : Release) : Prop
  | same : call' ∈ s.releases → ReleaseOrigin s s' call'
  | begun : call'.stage = .entered → call'.held = false →
      s.resourceOf call'.target ≠ none → ReleaseOrigin s s' call'
  | moved {call : Release} : call ∈ s.releases → call'.target = call.target →
      (call'.stage.past = true → call.stage.past = true ∨
        ∀ r, s'.resourceOf call.target = some r → r.slot = false) →
      (call'.held = true → call.held = true ∨
        ∃ r, s.resourceOf call.target = some r ∧ r.slot = true) → ReleaseOrigin s s' call'

/-- Facts of every run: a release is of a resource, and whoever has looked into
its slot, or has swapped, has left it empty. -/
structure Registry.Handles (s : Registry) : Prop where
  registered : ∀ b ∈ s.attempts, b.stage = .registered → b.resource ≠ none
  target : ∀ call ∈ s.releases, s.resourceOf call.target ≠ none
  taken : ∀ call ∈ s.releases, call.stage.past = true →
    ∀ r, s.resourceOf call.target = some r → r.slot = false
  empty : ∀ (i : ℕ) (r : EndpointResource), s.resourceOf i = some r → r.phase ≠ .held →
    r.slot = false

/-- What one step does to resources and releases. -/
structure StepSpec (s : Registry) (a : RegistryAction) (s' : Registry) : Prop where
  resources : ResourcesStep s a s'
  releases : ∀ call' ∈ s'.releases, ReleaseOrigin s s' call'
  registered : ∀ b ∈ s'.attempts, b.stage = .registered → b.resource ≠ none

/-- A step that moves no bind keeps what registered binds have. -/
theorem SameBinds.registered {s s' : Registry} (h : SameBinds s s') (hs : s.Handles) :
    ∀ b ∈ s'.attempts, b.stage = .registered → b.resource ≠ none := by
  intro b' hb' hstage
  obtain ⟨j, hj⟩ := List.getElem?_of_mem hb'
  obtain ⟨b, hb, hsame, -, -, hr⟩ := h j b' hj
  exact hr (hs.registered b (List.mem_of_getElem? hb) (hsame ▸ hstage))

/-- A step that changes one resource and no release. -/
theorem StepSpec.of_withResource {s t s' : Registry} {a : RegistryAction} {i : ℕ} (hs : s.Handles)
    {f : EndpointResource → Option EndpointResource} (hw : s.withResource i f = some t)
    (hattempts : s'.attempts = t.attempts) (hreleases : s'.releases = t.releases)
    (hf : ∀ r r', s.resourceOf i = some r → f r = some r' → ResourceChange s a i r r') :
    StepSpec s a s' := by
  have hsame : t.releases = s.releases := by
    obtain ⟨b, r, r', -, -, -, rfl⟩ := Registry.withResource_eq_some hw
    rfl
  refine ⟨.of_withResource hw hattempts hf, ?_, (SameBinds.of_withResource hw hattempts).registered hs⟩
  intro call' hcall'
  rw [hreleases, hsame] at hcall'
  exact .same hcall'

/-- `endpoint_close` or an abort begins. -/
theorem StepSpec.of_begin {s s' : Registry} {a : RegistryAction} {i : ℕ} {kind : ReleaseKind}
    (hs : s.Handles) (hbegin : s.begin i kind = some s') : StepSpec s a s' := by
  obtain ⟨t, hw, rfl⟩ := Option.map_eq_some_iff.mp hbegin
  obtain ⟨b, r, r', hb, hr, -, heq⟩ := Registry.withResource_eq_some hw
  refine ⟨.of_withResource hw rfl ?_, ?_, (SameBinds.of_withResource hw rfl).registered hs⟩
  · rintro r r' - hf
    obtain rfl := Option.some.inj hf
    exact .same
  · intro call' hcall'
    rw [heq] at hcall'
    rcases List.mem_append.mp hcall' with hold | hnew
    · exact .same hold
    · obtain rfl := List.mem_singleton.mp hnew
      exact .begun rfl rfl (by rw [Registry.resourceOf_eq hb, hr]; simp)

theorem StepSpec.of_attempt {s s' : Registry} {i : ℕ} {b : BindAttempt} {a : AttemptAction}
    (h : s.Inv) (hs : s.Handles) (hb : s.attempts[i]? = some b)
    (hstep : attemptStep s i b a = some s') : StepSpec s (.attempt i a) s' := by
  have hspec := attemptStep_spec (h.tidy b (List.mem_of_getElem? hb)) hstep
  obtain ⟨b', hattempts, hregistered, hresource⟩ := hspec.resource
  have hget := Registry.resourceOf_set hb hattempts
  refine ⟨⟨?_, ?_⟩, ?_, ?_⟩
  · intro j hj
    rw [hget j]
    split
    · next heq =>
        rw [heq, Registry.resourceOf_eq hb] at hj
        rcases hresource with hsame | ⟨hnone, -⟩
        · rwa [hsame]
        · exact absurd hnone hj
    · exact hj
  · intro j r' hr'
    rw [hget j] at hr'
    split at hr'
    · next heq =>
        subst heq
        rcases hresource with hsame | ⟨hnone, hnew⟩
        · rw [hsame, ← Registry.resourceOf_eq hb] at hr'
          exact .inl ⟨r', hr', .same⟩
        · rw [hnew] at hr'
          exact .inr ⟨(Registry.resourceOf_eq hb).trans hnone, (Option.some.inj hr').symm⟩
    · exact .inl ⟨r', hr', .same⟩
  · -- the abort of a bind whose owner is gone is of the resource just made
    intro call' hcall'
    rcases hspec.releases with hsame | ⟨hstage, hnew⟩
    · rw [hsame] at hcall'
      exact .same hcall'
    · rw [hnew] at hcall'
      rcases List.mem_append.mp hcall' with hold | hnew
      · exact .same hold
      · obtain rfl := List.mem_singleton.mp hnew
        refine .begun rfl rfl ?_
        rw [Registry.resourceOf_eq hb]
        exact hs.registered b (List.mem_of_getElem? hb) hstage
  · rw [hattempts]
    refine forall_set hs.registered ?_
    intro hstage
    rcases hregistered hstage with hr | hbefore
    · exact hr
    · rcases hresource with hsame | ⟨-, hnew⟩
      · rw [hsame]
        exact hs.registered b (List.mem_of_getElem? hb) hbefore
      · simp [hnew]

theorem StepSpec.of_bind {s s' : Registry} {id : String} (hs : s.Handles)
    (hstep : registryStep s (.bind id) = some s') : StepSpec s (.bind id) s' := by
  obtain ⟨b, hattempts, hreleases, hnone, hstage⟩ : ∃ b : BindAttempt,
      s'.attempts = s.attempts ++ [b] ∧ s'.releases = s.releases ∧ b.resource = none ∧
        b.stage ≠ .registered := by
    simp only [registryStep] at hstep
    split at hstep
    · obtain rfl := Option.some.inj hstep
      exact ⟨_, rfl, rfl, rfl, by simp⟩
    · obtain rfl := Option.some.inj hstep
      exact ⟨_, rfl, rfl, rfl, by simp⟩
  refine ⟨.of_eq ?_, ?_, ?_⟩
  · intro j
    rw [Registry.resourceOf, hattempts]
    exact elim_append hnone j
  · intro call' hcall'
    rw [hreleases] at hcall'
    exact .same hcall'
  · rw [hattempts]
    exact forall_append hs.registered fun hregistered => absurd hregistered hstage

theorem registryStep_spec {s s' : Registry} {a : RegistryAction} (h : s.Inv) (hs : s.Handles)
    (hstep : registryStep s a = some s') : StepSpec s a s' := by
  cases a with
  | bind id => exact .of_bind hs hstep
  | attempt i a =>
      simp only [registryStep] at hstep
      split at hstep
      · next b hb => exact .of_attempt h hs hb hstep
      · cases hstep
  | close i => exact .of_begin hs hstep
  | abort i => exact .of_begin hs hstep
  | release k a =>
      simp only [registryStep] at hstep
      split at hstep
      · next call hk =>
          have hspec := releaseStep_spec hk hstep
          obtain ⟨call', hreleases, htarget, hpast, hheld⟩ := hspec.moved
          refine ⟨hspec.resources, ?_, hspec.binds.registered hs⟩
          intro c hc
          rw [hreleases] at hc
          rcases List.mem_or_eq_of_mem_set hc with hold | rfl
          · exact .same hold
          · exact .moved (List.mem_of_getElem? hk) htarget hpast hheld
      · cases hstep
  | remove i =>
      simp only [registryStep] at hstep
      split at hstep
      · obtain ⟨t, hw, rfl⟩ := Option.map_eq_some_iff.mp hstep
        refine .of_withResource hs hw rfl rfl ?_
        rintro r r' - hf
        split at hf
        · next hphase =>
            obtain rfl := Option.some.inj hf
            exact .removed rfl hphase
        · cases hf
      · cases hstep
  | uncount i =>
      obtain ⟨t, hw, rfl⟩ := Option.map_eq_some_iff.mp hstep
      refine .of_withResource hs hw rfl rfl ?_
      rintro r r' - hf
      split at hf
      · next hphase =>
          obtain rfl := Option.some.inj hf
          exact .uncounted hphase
      · cases hf
  | clone i =>
      refine .of_withResource hs hstep rfl rfl ?_
      rintro r r' - hf
      split at hf
      · next hslot =>
          obtain rfl := Option.some.inj hf
          exact .cloned hslot
      · cases hf
  | dropClone i =>
      refine .of_withResource hs hstep rfl rfl ?_
      rintro r r' - hf
      split at hf
      · next n hclones =>
          obtain rfl := Option.some.inj hf
          exact .dropped hclones
      · cases hf

/-- No step fills a slot again. -/
theorem ResourceChange.slot {s : Registry} {a : RegistryAction} {j : ℕ} {r r' : EndpointResource}
    (h : ResourceChange s a j r r') (hslot : r.slot = false) : r'.slot = false := by
  cases h with
  | taken => rfl
  | _ => exact hslot

theorem Registry.start_handles : Registry.start.Handles where
  registered := fun b hb => by cases hb
  target := fun call hcall => by cases hcall
  taken := fun call hcall => by cases hcall
  empty := fun i r hr => by cases hr

theorem registryStep_handles {s s' : Registry} {a : RegistryAction} (h : s.Inv) (hs : s.Handles)
    (hstep : registryStep s a = some s') : s'.Handles := by
  have hspec := registryStep_spec h hs hstep
  -- a slot that a release has found or made empty stays so
  have hkept : ∀ call ∈ s.releases, call.stage.past = true →
      ∀ r', s'.resourceOf call.target = some r' → r'.slot = false := by
    intro call hcall hpast r' hr'
    rcases hspec.resources.back _ r' hr' with ⟨r, hr, hchange⟩ | ⟨hnone, -⟩
    · exact hchange.slot (hs.taken call hcall hpast r hr)
    · exact absurd hnone (hs.target call hcall)
  refine ⟨hspec.registered, ?_, ?_, ?_⟩
  · intro call' hcall'
    apply hspec.resources.kept
    cases hspec.releases call' hcall' with
    | same hold => exact hs.target call' hold
    | begun _ _ htarget => exact htarget
    | moved hold htarget _ _ =>
        rw [htarget]
        exact hs.target _ hold
  · intro call' hcall' hpast
    cases hspec.releases call' hcall' with
    | same hold => exact hkept call' hold hpast
    | begun hstage _ _ =>
        rw [hstage] at hpast
        cases hpast
    | moved hold htarget hmoved _ =>
        rw [htarget]
        rcases hmoved hpast with hbefore | hempty
        · exact hkept _ hold hbefore
        · exact hempty
  · intro i r' hr' hphase
    rcases hspec.resources.back i r' hr' with ⟨r, hr, hchange⟩ | ⟨-, rfl⟩
    · cases hchange with
      | same => exact hs.empty i _ hr hphase
      | taken => rfl
      | closed => exact hs.empty i r hr hphase
      | swapped hcall hstage htarget _ =>
          -- the winner of the swap has looked into the slot before
          exact hs.taken _ hcall (by rw [hstage]; rfl) r (by rw [htarget]; exact hr)
      | removed _ hbefore => exact hs.empty i r hr (by simp [hbefore])
      | uncounted hbefore => exact hs.empty i r hr (by simp [hbefore])
      | cloned _ => exact hs.empty i r hr hphase
      | dropped _ => exact hs.empty i r hr hphase
    · exact absurd rfl hphase

/-! ### Released endpoints -/

/-- A resource whose identity is removed is closed or has no clone, and if
`wide` no release has its handle either. -/
def Registry.Unheld (wide : Prop) (s : Registry) : Prop :=
  ∀ (i : ℕ) (r : EndpointResource), s.resourceOf i = some r → r.owns = false →
    r.closed = true ∨ r.clones = 0 ∧
      (wide → ∀ call ∈ s.releases, call.target = i → call.held = false)

/-- A released slot is empty, so nobody takes a handle from it. -/
theorem ReleaseOrigin.unheld {s s' : Registry} {call' : Release} {i : ℕ} {r : EndpointResource}
    (horigin : ReleaseOrigin s s' call') (hr : s.resourceOf i = some r) (hslot : r.slot = false)
    (hbefore : ∀ call ∈ s.releases, call.target = i → call.held = false)
    (htarget : call'.target = i) : call'.held = false := by
  cases horigin with
  | same hold => exact hbefore call' hold htarget
  | begun _ hheld _ => exact hheld
  | moved hold hsame _ hmoved =>
      by_contra hheld
      rw [Bool.not_eq_false] at hheld
      have hcall := hsame.symm.trans htarget
      rcases hmoved hheld with hhad | ⟨r₁, hr₁, hfull⟩
      · rw [hbefore _ hold hcall] at hhad
        cases hhad
      · rw [hcall, hr] at hr₁
        obtain rfl := Option.some.inj hr₁
        rw [hslot] at hfull
        cases hfull

theorem EndpointResource.phase_of_owns {r : EndpointResource} (h : r.owns = false) :
    r.phase ≠ .held := by
  intro hphase
  rw [EndpointResource.owns, hphase] at h
  cases h

/-- The step lemma: a removal must find the endpoint closed or unheld, and no
other step gives a released endpoint a new handle. -/
theorem registryStep_unheld {wide : Prop} {s s' : Registry} {a : RegistryAction} (h : s.Inv)
    (hs : s.Handles) (hun : s.Unheld wide)
    (hG : ∀ (i : ℕ) (r : EndpointResource), a = .remove i → s.resourceOf i = some r →
      r.closed = true ∨ r.clones = 0 ∧
        (wide → ∀ call ∈ s.releases, call.target = i → call.held = false))
    (hstep : registryStep s a = some s') : s'.Unheld wide := by
  have hspec := registryStep_spec h hs hstep
  intro i r' hr' howns
  rcases hspec.resources.back i r' hr' with ⟨r, hr, hchange⟩ | ⟨-, rfl⟩
  · have hreleases : r.phase ≠ .held →
        (wide → ∀ call ∈ s.releases, call.target = i → call.held = false) →
        wide → ∀ call ∈ s'.releases, call.target = i → call.held = false := by
      intro hphase hbefore hwide call' hcall' htarget
      exact (hspec.releases call' hcall').unheld hr (hs.empty i r hr hphase) (hbefore hwide) htarget
    have hkeep : r.owns = false →
        r.closed = true ∨ r.clones = 0 ∧
          (wide → ∀ call ∈ s'.releases, call.target = i → call.held = false) := by
      intro hgone
      rcases hun i r hr hgone with hclosed | ⟨hclones, hbefore⟩
      · exact .inl hclosed
      · exact .inr ⟨hclones, hreleases (EndpointResource.phase_of_owns hgone) hbefore⟩
    cases hchange with
    | same => exact hkeep howns
    | taken => exact hkeep howns
    | closed => exact .inl rfl
    | swapped _ _ _ _ => cases howns
    | removed ha hphase =>
        -- the one place where the side condition is used
        rcases hG i r ha hr with hclosed | ⟨hclones, hbefore⟩
        · exact .inl hclosed
        · exact .inr ⟨hclones, hreleases (by simp [hphase]) hbefore⟩
    | uncounted hphase => exact hkeep (by rw [EndpointResource.owns, hphase]; rfl)
    | cloned hslot =>
        -- clones come from the slot, and the slot of a released resource is empty
        rw [hs.empty i r hr (EndpointResource.phase_of_owns howns)] at hslot
        cases hslot
    | dropped hclones =>
        rcases hkeep howns with hclosed | ⟨hzero, -⟩
        · exact .inl hclosed
        · rw [hclones] at hzero
          cases hzero
  · cases howns

/-! ### Cancelled binds -/

/-- A bind is left with an endpoint only while its supervisor has it in hand or
has just found the operation cancelled. -/
def BindAttempt.Spare (b : BindAttempt) : Prop :=
  (b.stage ≠ .supervising → b.leftover = false) ∧ (b.op.phase.owing = true → b.leftover = false)

/-- Once the identity is resolved the supervisor decides nothing more. -/
theorem BindStage.allows_complete {stage : BindStage} (h : stage.allows .complete = true) :
    stage = .supervising := by
  cases stage <;> first | rfl | cases h

/-- Every action but the decision keeps what is left, or drops it. -/
theorem BindAttempt.leftoverAfter_false {b : BindAttempt} {a : OpAction Unit} (ha : a ≠ .complete)
    (h : b.leftover = false) : b.leftoverAfter a = false := by
  cases a with
  | complete => exact absurd rfl ha
  | release => rfl
  | _ => exact h

theorem BindAttempt.Spare.opStep {b b' : BindAttempt} {a : OpAction Unit} (h : b.Spare)
    (hstep : b.opStep a = some b') : b'.Spare := by
  rw [BindAttempt.opStep] at hstep
  split at hstep
  · next hallow =>
      obtain ⟨op, hop, rfl⟩ := Option.map_eq_some_iff.mp hstep
      have hkeep : a ≠ .complete → (op.phase.owing = true → b.op.phase.owing = true) →
          BindAttempt.Spare { b with op := op, leftover := b.leftoverAfter a } := by
        intro ha howing
        exact ⟨fun hstage => b.leftoverAfter_false ha (h.1 hstage),
          fun hphase => b.leftoverAfter_false ha (h.2 (howing hphase))⟩
      cases opStep_cases hop with
      | finish _ => exact hkeep (by simp) fun hphase => hphase
      | cancel =>
          refine hkeep (by simp) ?_
          rw [b.op.cancel_frame.2.2]
          exact fun hphase => hphase
      | down _ =>
          refine hkeep (by simp) ?_
          show b.op.cancel.phase.owing = true → _
          rw [b.op.cancel_frame.2.2]
          exact fun hphase => hphase
      | notify _ => exact hkeep (by simp) fun hphase => hphase
      | selectTask _ _ => exact hkeep (by simp) fun hphase => by cases hphase
      | selectCancelled _ _ =>
          refine hkeep (by simp) fun hphase => ?_
          change (if b.op.kind.spawns then _ else _ : Phase Unit).owing = true at hphase
          split at hphase <;> cases hphase
      | join _ => exact hkeep (by simp) fun hphase => by cases hphase
      | complete hphase hrunning =>
          -- the swap succeeded, so the result goes on to be sent
          have hnone : b.leftoverAfter .complete = false := by
            simp [BindAttempt.leftoverAfter, hrunning]
          exact ⟨fun _ => hnone, fun _ => hnone⟩
      | giveUp _ _ =>
          -- here a bind is left with its endpoint, its identity still reserved
          refine ⟨fun hstage => absurd (BindStage.allows_complete hallow) hstage, fun hphase => ?_⟩
          cases hphase
      | send _ => exact hkeep (by simp) fun hphase => by cases hphase
      | demonitor _ => exact hkeep (by simp) fun hphase => by cases hphase
      | release _ => exact hkeep (by simp) fun hphase => by cases hphase
  · cases hstep

/-- A bind that is left with nothing may go anywhere. -/
theorem BindAttempt.spare_goto {b : BindAttempt} (hleft : b.leftover = false) (stage : BindStage)
    (resource : Option EndpointResource) :
    BindAttempt.Spare { b with stage := stage, resource := resource } :=
  ⟨fun _ => hleft, fun _ => hleft⟩

theorem attemptStep_spare {s s' : Registry} {i : ℕ} {b : BindAttempt} {a : AttemptAction}
    (hspare : ∀ b ∈ s.attempts, b.Spare) (hb : s.attempts[i]? = some b)
    (hG : a = .release → b.leftover = false) (hstep : attemptStep s i b a = some s') :
    ∀ b ∈ s'.attempts, b.Spare := by
  have h := hspare b (List.mem_of_getElem? hb)
  have hgo : ∀ stage resource, b.leftover = false →
      ∀ b' ∈ s.attempts.set i { b with stage := stage, resource := resource }, b'.Spare := by
    intro stage resource hleft
    exact forall_set hspare (b.spare_goto hleft stage resource)
  cases attemptStep_move hstep with
  | op hop => exact forall_set hspare (h.opStep hop)
  | release _ _ => exact hgo _ _ (hG rfl)
  | register _ hphase => exact hgo _ _ (h.2 (by rw [hphase]; rfl))
  | built hstage => exact hgo _ _ (h.1 (by simp [hstage]))
  | relayUnavailable hstage => exact hgo _ _ (h.1 (by simp [hstage]))
  | addressInvalid hstage => exact hgo _ _ (h.1 (by simp [hstage]))
  | watched hstage => exact hgo _ _ (h.1 (by simp [hstage]))
  | unwatched hstage => exact hgo _ _ (h.1 (by simp [hstage]))
  | refuse hstage => exact hgo _ _ (h.1 (by simp [hstage]))
  | keep hstage => exact hgo _ _ (h.1 (by simp [hstage]))
  | abort hstage => exact hgo _ _ (h.1 (by simp [hstage]))
  | settle hstage _ => exact hgo _ _ (h.1 (by simp [hstage]))

theorem SameBinds.spare {s s' : Registry} (h : SameBinds s s')
    (hspare : ∀ b ∈ s.attempts, b.Spare) : ∀ b ∈ s'.attempts, b.Spare := by
  intro b' hb'
  obtain ⟨j, hj⟩ := List.getElem?_of_mem hb'
  obtain ⟨b, hb, hstage, hleft, hop, -⟩ := h j b' hj
  have hbefore := hspare b (List.mem_of_getElem? hb)
  rw [BindAttempt.Spare, hstage, hleft, hop]
  exact hbefore

/-- A cancelled bind that gives its identity up only without an endpoint is
left with none. -/
theorem registryStep_spare {s s' : Registry} {a : RegistryAction}
    (hspare : ∀ b ∈ s.attempts, b.Spare) (hG : RemovesUnheld s a)
    (hstep : registryStep s a = some s') : ∀ b ∈ s'.attempts, b.Spare := by
  have hbegin : ∀ {i : ℕ} {kind : ReleaseKind}, s.begin i kind = some s' →
      ∀ b ∈ s'.attempts, b.Spare := by
    intro i kind hbegin
    obtain ⟨t, hw, rfl⟩ := Option.map_eq_some_iff.mp hbegin
    exact (SameBinds.of_withResource hw rfl).spare hspare
  cases a with
  | bind id =>
      simp only [registryStep] at hstep
      split at hstep
      · obtain rfl := Option.some.inj hstep
        exact forall_append hspare ⟨fun _ => rfl, fun _ => rfl⟩
      · obtain rfl := Option.some.inj hstep
        exact forall_append hspare ⟨fun _ => rfl, fun _ => rfl⟩
  | attempt i a =>
      simp only [registryStep] at hstep
      split at hstep
      · next b hb =>
          refine attemptStep_spare hspare hb ?_ hstep
          rintro rfl
          exact hG b hb
      · cases hstep
  | close i => exact hbegin hstep
  | abort i => exact hbegin hstep
  | release k a =>
      simp only [registryStep] at hstep
      split at hstep
      · next hk => exact (releaseStep_spec hk hstep).binds.spare hspare
      · cases hstep
  | remove i =>
      simp only [registryStep] at hstep
      split at hstep
      · obtain ⟨t, hw, rfl⟩ := Option.map_eq_some_iff.mp hstep
        exact (SameBinds.of_withResource hw rfl).spare hspare
      · cases hstep
  | uncount i =>
      obtain ⟨t, hw, rfl⟩ := Option.map_eq_some_iff.mp hstep
      exact (SameBinds.of_withResource hw rfl).spare hspare
  | clone i => exact (SameBinds.of_withResource hstep rfl).spare hspare
  | dropClone i => exact (SameBinds.of_withResource hstep rfl).spare hspare

/-! ### Exclusiveness -/

/-- Two binds do not own one identity. -/
theorem Registry.Inv.owner_unique {s : Registry} (h : s.Inv) {i j : ℕ} {b c : BindAttempt}
    (hij : i ≠ j) (hb : s.attempts[i]? = some b) (hc : s.attempts[j]? = some c) (hid : b.id = c.id)
    (howns : b.owns = true) : c.owns = false := by
  by_contra hboth
  rw [Bool.not_eq_false] at hboth
  have hle := add_le_total (f := fun d : BindAttempt => tally (d.ownsId b.id))
    (fun _ _ => tally_nonneg _) hij hb hc
  have hb' : b.ownsId b.id = true := by simp [BindAttempt.ownsId, howns]
  have hc' : c.ownsId b.id = true := by simp [BindAttempt.ownsId, hboth, hid]
  rw [h.owners, hb', hc'] at hle
  cases hmem : decide (b.id ∈ s.identities) <;> rw [hmem] at hle <;> exact absurd hle (by decide)

/-- Who owns an identity is registered. -/
theorem Registry.Inv.mem_of_owns {s : Registry} (h : s.Inv) {i : ℕ} {b : BindAttempt}
    (hb : s.attempts[i]? = some b) (howns : b.owns = true) : b.id ∈ s.identities := by
  by_contra hmem
  have hle := le_total (f := fun d : BindAttempt => tally (d.ownsId b.id))
    (fun _ _ => tally_nonneg _) (List.mem_of_getElem? hb)
  have hb' : b.ownsId b.id = true := by simp [BindAttempt.ownsId, howns]
  rw [h.owners, hb', decide_eq_false hmem] at hle
  exact absurd hle (by decide)

/-- If only owners are live, live endpoints are exclusive. -/
theorem Registry.Inv.exclusive {s : Registry} (h : s.Inv) {live : ℕ → Bool}
    (hlive : ∀ (i : ℕ) (b : BindAttempt), s.attempts[i]? = some b → b.owns = false →
      live i = false) : s.Exclusive live := by
  have howner : ∀ (i : ℕ) (b : BindAttempt), s.attempts[i]? = some b → live i = true →
      b.owns = true := by
    intro i b hb hi
    by_contra hgone
    rw [hlive i b hb (by simpa using hgone)] at hi
    cases hi
  refine ⟨?_, ?_⟩
  · intro i b hb hid
    by_contra hi
    exact hid (h.mem_of_owns hb (howner i b hb (by simpa using hi)))
  · intro i j b c hij hb hc hid hi
    have hgone := h.owner_unique hij hb hc hid (howner i b hb hi)
    exact ⟨hgone, hlive j c hc hgone⟩

theorem BindAttempt.resource_of_owns {b : BindAttempt} (h : b.owns = false) :
    b.stage ≠ .supervising ∧ ∀ r, b.resource = some r → r.owns = false := by
  rw [BindAttempt.owns, Bool.or_eq_false_iff] at h
  refine ⟨?_, ?_⟩
  · intro hstage
    rw [hstage] at h
    cases h.1
  · intro r hr
    rw [hr] at h
    exact h.2

theorem Registry.taken_eq_false {s : Registry} {i : ℕ} :
    s.taken i = false ↔ ∀ call ∈ s.releases, call.target = i → call.held = false := by
  rw [Registry.taken, List.any_eq_false]
  refine forall₂_congr fun call _ => ?_
  cases call.held <;> simp

/-- A released endpoint has nothing in its slot and no clone, or is closed. -/
theorem Registry.Unheld.not_live {wide : Prop} {s : Registry} (hun : s.Unheld wide)
    (hs : s.Handles) {i : ℕ} {r : EndpointResource} (hr : s.resourceOf i = some r)
    (howns : r.owns = false) : r.live = false := by
  rw [EndpointResource.live, hs.empty i r hr (EndpointResource.phase_of_owns howns)]
  rcases hun i r hr howns with hclosed | ⟨hclones, -⟩
  · simp [hclosed]
  · simp [hclones]

/-- What holds along a run whose removals find the endpoint closed or without
clones. -/
theorem run_uncloned {as : List RegistryAction} {s : Registry}
    (hG : Meets registryStep RemovesUncloned .start as) (hrun : run registryStep .start as = some s) :
    s.Inv ∧ s.Handles ∧ s.Unheld False := by
  refine run_invariant_of_meets (P := fun s => s.Inv ∧ s.Handles ∧ s.Unheld False) ?_ hG hrun
    ⟨Registry.start_inv, Registry.start_handles, fun i r hr => (by cases hr)⟩
  rintro s a s' ⟨h, hs, hun⟩ hG hstep
  refine ⟨registryStep_inv h hstep, registryStep_handles h hs hstep,
    registryStep_unheld h hs hun ?_ hstep⟩
  rintro i r rfl hr
  exact (hG r hr).imp_right fun hclones => ⟨hclones, False.elim⟩

/-- What holds along a run whose removals find no handle at all. -/
theorem run_unheld {as : List RegistryAction} {s : Registry}
    (hG : Meets registryStep RemovesUnheld .start as) (hrun : run registryStep .start as = some s) :
    s.Inv ∧ s.Handles ∧ s.Unheld True ∧ ∀ b ∈ s.attempts, b.Spare := by
  refine run_invariant_of_meets
    (P := fun s => s.Inv ∧ s.Handles ∧ s.Unheld True ∧ ∀ b ∈ s.attempts, b.Spare) ?_ hG hrun
    ⟨Registry.start_inv, Registry.start_handles, fun i r hr => (by cases hr),
      fun b hb => (by cases hb)⟩
  rintro s a s' ⟨h, hs, hun, hspare⟩ hG hstep
  refine ⟨registryStep_inv h hstep, registryStep_handles h hs hstep,
    registryStep_unheld h hs hun ?_ hstep, registryStep_spare hspare hG hstep⟩
  rintro i r rfl hr
  exact (hG r hr).imp_right fun hfree => ⟨hfree.1, fun _ => Registry.taken_eq_false.mp hfree.2⟩

/-- A bind that does not own its identity has no live endpoint. -/
theorem Registry.Unheld.live_eq_false {wide : Prop} {s : Registry} (hun : s.Unheld wide)
    (hs : s.Handles) {i : ℕ} {b : BindAttempt} (hb : s.attempts[i]? = some b)
    (howns : b.owns = false) : s.live i = false := by
  rw [Registry.live, Registry.resourceOf_eq hb]
  cases hr : b.resource with
  | none => rfl
  | some r =>
      exact hun.not_live hs ((Registry.resourceOf_eq hb).trans hr)
        ((BindAttempt.resource_of_owns howns).2 r hr)

/-- Once the identity is resolved the bind itself has no handle. -/
theorem BindAttempt.Spare.carries {b : BindAttempt} (h : b.Spare) (hstage : b.stage ≠ .supervising) :
    b.carries = false := by
  rw [BindAttempt.carries, h.1 hstage, Bool.false_or]
  split
  · next hsupervising => exact absurd hsupervising hstage
  · rfl

/-- A bind that does not own its identity has no handle left anywhere. -/
theorem Registry.Unheld.held_eq_false {s : Registry} (hun : s.Unheld True) (hs : s.Handles) {i : ℕ}
    {b : BindAttempt} (hb : s.attempts[i]? = some b) (hspare : b.Spare) (howns : b.owns = false) :
    s.held i = false := by
  obtain ⟨hstage, hgone⟩ := BindAttempt.resource_of_owns howns
  rw [Registry.held, hb, Registry.resourceOf_eq hb, Option.elim_some, hspare.carries hstage,
    Bool.false_or]
  cases hr : b.resource with
  | none => rfl
  | some r =>
      have hri := (Registry.resourceOf_eq hb).trans hr
      rw [Option.elim_some, hun.not_live hs hri (hgone r hr), Bool.false_or]
      -- what is left is the handle a close or an abort has taken
      rcases hun i r hri (hgone r hr) with hclosed | ⟨-, htaken⟩
      · simp [hclosed]
      · rw [Registry.taken_eq_false.mpr (htaken trivial), Bool.and_false]

/-- **One live endpoint for each identity**: in every run in which each removal
finds the endpoint closed or without clones, no endpoint is live through its
slot or a clone once its identity is free, and none beside it.  If the removals
find no handle at all, the same holds for endpoints live in any way. -/
theorem live_endpoint_exclusive (as : List RegistryAction) (s : Registry)
    (hrun : run registryStep .start as = some s) :
    (Meets registryStep RemovesUncloned .start as → s.Exclusive s.live) ∧
    (Meets registryStep RemovesUnheld .start as → s.Exclusive s.held) := by
  refine ⟨?_, ?_⟩
  · intro hG
    obtain ⟨h, hs, hun⟩ := run_uncloned hG hrun
    apply h.exclusive
    intro i b hb howns
    exact hun.live_eq_false hs hb howns
  · intro hG
    obtain ⟨h, hs, hun, hspare⟩ := run_unheld hG hrun
    apply h.exclusive
    intro i b hb howns
    exact hun.held_eq_false hs hb (hspare b (List.mem_of_getElem? hb)) howns

/-- An endpoint is closed while a connect still has a clone of its handle, and
its identity is bound a second time. -/
theorem live_endpoint_exclusive_sample :
    ∃ s : Registry,
      run registryStep .start
        [.bind "a", .attempt 0 (.build .built), .attempt 0 (.watch true),
         .attempt 0 (.op (.finish (.value ()))), .attempt 0 (.op .selectTask),
         .attempt 0 (.op .complete), .attempt 0 .register, .attempt 0 (.monitor true), .clone 0,
         .close 0, .release 0 .take, .release 0 .closed, .release 0 .swap, .remove 0,
         .bind "a"] = some s ∧
      s.identities = {"a"} ∧ s.Exclusive s.live ∧ s.Exclusive s.held := by
  obtain ⟨s, hrun, hids⟩ : ∃ s : Registry,
      run registryStep .start
        [.bind "a", .attempt 0 (.build .built), .attempt 0 (.watch true),
         .attempt 0 (.op (.finish (.value ()))), .attempt 0 (.op .selectTask),
         .attempt 0 (.op .complete), .attempt 0 .register, .attempt 0 (.monitor true), .clone 0,
         .close 0, .release 0 .take, .release 0 .closed, .release 0 .swap, .remove 0,
         .bind "a"] = some s ∧ s.identities = {"a"} := ⟨_, rfl, rfl⟩
  obtain ⟨hlive, hheld⟩ := live_endpoint_exclusive _ s hrun
  -- the removal is the one step with a condition, and `close()` has completed before it
  have hmeets : Meets registryStep RemovesUnheld .start
      [.bind "a", .attempt 0 (.build .built), .attempt 0 (.watch true),
       .attempt 0 (.op (.finish (.value ()))), .attempt 0 (.op .selectTask),
       .attempt 0 (.op .complete), .attempt 0 .register, .attempt 0 (.monitor true), .clone 0,
       .close 0, .release 0 .take, .release 0 .closed, .release 0 .swap, .remove 0,
       .bind "a"] :=
    meets_cons trivial rfl <| meets_cons trivial rfl <| meets_cons trivial rfl <|
      meets_cons trivial rfl <| meets_cons trivial rfl <| meets_cons trivial rfl <|
      meets_cons trivial rfl <| meets_cons trivial rfl <| meets_cons trivial rfl <|
      meets_cons trivial rfl <| meets_cons trivial rfl <| meets_cons trivial rfl <|
      meets_cons trivial rfl <|
      meets_cons (fun r hr => .inl (by obtain rfl := Option.some.inj hr; rfl)) rfl <|
      meets_cons trivial rfl (meets_nil _)
  exact ⟨s, hrun, hids, hlive (hmeets.mono fun _ _ => RemovesUnheld.uncloned), hheld hmeets⟩

/-- A connect has a clone of the handle when the endpoint is aborted.  The
identity is removed and bound again, and both endpoints are live. -/
theorem second_bind_beside_live :
    ¬ ∀ (as : List RegistryAction) (s : Registry), run registryStep .start as = some s →
      s.Exclusive s.live := by
  intro hclaim
  have hexclusive := (hclaim
    [.bind "a", .attempt 0 (.build .built), .attempt 0 (.watch true),
     .attempt 0 (.op (.finish (.value ()))), .attempt 0 (.op .selectTask),
     .attempt 0 (.op .complete), .attempt 0 .register, .attempt 0 (.monitor true), .clone 0,
     .abort 0, .release 0 .take, .release 0 .swap, .remove 0, .uncount 0, .release 0 .leave,
     .release 0 .drop, .bind "a", .attempt 1 (.build .built), .attempt 1 (.watch true),
     .attempt 1 (.op (.finish (.value ()))), .attempt 1 (.op .selectTask),
     .attempt 1 (.op .complete), .attempt 1 .register] _ rfl).2
  have hsecond := (hexclusive 0 1 _ _ (by decide) rfl rfl rfl rfl).2
  cases hsecond

end IrohBeam
