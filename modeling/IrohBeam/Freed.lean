/-
IrohBeam/Freed.lean

What an endpoint leaves behind when it has ended.

However the process of an endpoint ends, the endpoint is aborted: `terminate/2`
of `lib/iroh_beam/endpoint.ex` calls `endpoint_abort`, also after a close that
has timed out, and the `down` of the monitor does it for a process that was
killed.  The question is whether the same identity can be bound again then.

An abort that finds the endpoint already in release does not wait for it: the
first to swap `released` is the one to remove the identity, and every other
release returns.  So the abort of a process whose `endpoint_close` has run out
of time may return while the task of that close is about to remove the identity.
`aborted_endpoint_freed` says that this is all that can be left: an endpoint
whose abort has returned is in no slot, and its identity is free, or a release
that has won the swap is still to remove it, which nothing can keep it from.
-/
import IrohBeam.Exclusive

namespace IrohBeam

open Transition Ledger

/-! ### The winner of the swap -/

/-- A release has swapped: it has won, has found that another has, or, being an
abort, which is never cancelled, has come to its end. -/
def Release.swapped (call : Release) : Bool :=
  match call.kind, call.stage with
  | _, .waiting | _, .dropping | .abort, .done => true
  | _, _ => false

/-- The release of the endpoint of attempt `i` that has won the swap is under
way. -/
def Registry.Winner (s : Registry) (i : ℕ) : Prop :=
  ∃ call ∈ s.releases, call.target = i ∧ call.stage = .waiting

/-- An abort of the endpoint of attempt `i` has returned. -/
def Registry.Aborted (s : Registry) (i : ℕ) : Prop :=
  ∃ call ∈ s.releases, call.target = i ∧ call.kind = .abort ∧ call.stage = .done

/-- No step takes `released` back. -/
theorem ResourceChange.not_held {s : Registry} {a : RegistryAction} {j : ℕ}
    {r r' : EndpointResource} (h : ResourceChange s a j r r') (hr : r.phase ≠ .held) :
    r'.phase ≠ .held := by
  cases h with
  | swapped _ _ _ hheld => exact absurd hheld hr
  | removed | uncounted => simp
  | _ => exact hr

theorem ResourceChange.released {s : Registry} {a : RegistryAction} {j : ℕ}
    {r r' : EndpointResource} (h : ResourceChange s a j r r') (hr : r.phase = .released) :
    r'.phase = .released := by
  cases h with
  | swapped _ _ _ hheld =>
      rw [hr] at hheld
      cases hheld
  | removed _ hswapped =>
      rw [hr] at hswapped
      cases hswapped
  | uncounted => rfl
  | _ => exact hr

/-! ### One step -/

/-- Every endpoint that was not in release is not. -/
def KeepsHeld (s s' : Registry) : Prop :=
  ∀ i r r', s.resourceOf i = some r → s'.resourceOf i = some r' → r.phase = .held →
    r'.phase = .held

theorem KeepsHeld.of_eq {s s' : Registry} (h : s'.attempts = s.attempts) : KeepsHeld s s' := by
  intro i r r' hr hr' hheld
  rw [Registry.resourceOf, h] at hr'
  obtain rfl := Option.some.inj (hr.symm.trans hr')
  exact hheld

theorem KeepsHeld.of_withResource {s t s' : Registry} {i : ℕ}
    {f : EndpointResource → Option EndpointResource} (hw : s.withResource i f = some t)
    (hs' : s'.attempts = t.attempts)
    (hf : ∀ r r', f r = some r' → r.phase = .held → r'.phase = .held) : KeepsHeld s s' := by
  obtain ⟨b, r₀, r₁, hb, hr₀, hfr, rfl⟩ := Registry.withResource_eq_some hw
  intro j r r' hr hr' hheld
  rw [Registry.resourceOf_set hb hs'] at hr'
  split at hr'
  · next hj =>
      subst hj
      obtain rfl := Option.some.inj (hr.symm.trans ((Registry.resourceOf_eq hb).trans hr₀))
      obtain rfl := Option.some.inj hr'
      exact hf r r₁ hfr hheld
  · obtain rfl := Option.some.inj (hr.symm.trans hr')
    exact hheld

/-- What one step does to the releases: the winner leaves only when all is done,
whoever puts an endpoint in release is a winner, and whoever has swapped has
found it in release. -/
structure ReleasesStep (s s' : Registry) : Prop where
  waiting : ∀ call ∈ s.releases, call.stage = .waiting → call ∈ s'.releases ∨
    ∀ r, s.resourceOf call.target = some r → r.phase = .released
  won : ∀ i r r', s.resourceOf i = some r → s'.resourceOf i = some r' → r.phase = .held →
    r'.phase ≠ .held → s'.Winner i
  swapped : ∀ call' ∈ s'.releases, call'.swapped = true →
    (∃ call ∈ s.releases, call.target = call'.target ∧ call.swapped = true) ∨
      ∀ r', s'.resourceOf call'.target = some r' → r'.phase ≠ .held

/-- A step that puts no endpoint in release and moves no release. -/
theorem ReleasesStep.of_kept {s s' : Registry} (hheld : KeepsHeld s s')
    (hreleases : s'.releases = s.releases ∨
      ∃ i kind, s'.releases = s.releases ++ [⟨i, kind, false, .entered⟩]) : ReleasesStep s s' := by
  refine ⟨?_, ?_, ?_⟩
  · intro call hcall _
    left
    rcases hreleases with hsame | ⟨i, kind, hnew⟩
    · rwa [hsame]
    · rw [hnew]
      exact List.mem_append_left _ hcall
  · intro i r r' hr hr' hphase hphase'
    exact absurd (hheld i r r' hr hr' hphase) hphase'
  · intro call' hcall' hswapped
    left
    rcases hreleases with hsame | ⟨i, kind, hnew⟩
    · rw [hsame] at hcall'
      exact ⟨call', hcall', rfl, hswapped⟩
    · rw [hnew] at hcall'
      rcases List.mem_append.mp hcall' with hold | hfresh
      · exact ⟨call', hold, rfl, hswapped⟩
      · obtain rfl := List.mem_singleton.mp hfresh
        cases kind <;> cases hswapped

/-- A step of one release. -/
theorem ReleasesStep.of_set {s s' : Registry} {k : ℕ} {call call' : Release}
    (hk : s.releases[k]? = some call) (hreleases : s'.releases = s.releases.set k call')
    (htarget : call'.target = call.target)
    (hleft : call.stage = .waiting →
      ∀ r, s.resourceOf call.target = some r → r.phase = .released)
    (hwon : KeepsHeld s s' ∨ call'.stage = .waiting ∧ ∀ i r r', i ≠ call.target →
      s.resourceOf i = some r → s'.resourceOf i = some r' → r.phase = .held → r'.phase = .held)
    (hswapped : call'.swapped = true → call.swapped = true ∨
      ∀ r', s'.resourceOf call.target = some r' → r'.phase ≠ .held) : ReleasesStep s s' := by
  have hlt := (List.getElem?_eq_some_iff.mp hk).1
  have hmem : call' ∈ s'.releases := by
    rw [hreleases]
    exact List.mem_set hlt call'
  refine ⟨?_, ?_, ?_⟩
  · intro c hc hstage
    obtain ⟨j, hj⟩ := List.getElem?_of_mem hc
    by_cases hjk : k = j
    · subst hjk
      obtain rfl := Option.some.inj (hk.symm.trans hj)
      exact .inr (hleft hstage)
    · left
      have hset : (s.releases.set k call')[j]? = some c := by rw [List.getElem?_set_ne hjk, hj]
      exact hreleases ▸ List.mem_of_getElem? hset
  · intro i r r' hr hr' hphase hphase'
    rcases hwon with hheld | ⟨hstage, hothers⟩
    · exact absurd (hheld i r r' hr hr' hphase) hphase'
    · by_cases hi : i = call.target
      · exact ⟨call', hmem, htarget.trans hi.symm, hstage⟩
      · exact absurd (hothers i r r' hi hr hr' hphase) hphase'
  · intro c hc hstage
    rw [hreleases] at hc
    rcases List.mem_or_eq_of_mem_set hc with hold | rfl
    · exact .inl ⟨c, hold, rfl, hstage⟩
    · rcases hswapped hstage with hbefore | hphase
      · exact .inl ⟨call, List.mem_of_getElem? hk, htarget.symm, hbefore⟩
      · exact .inr (by rwa [htarget])

theorem releaseStep_releases {s s' : Registry} {k : ℕ} {call : Release} {a : ReleaseAction}
    (hk : s.releases[k]? = some call) (hstep : releaseStep s k call a = some s') :
    ReleasesStep s s' := by
  have hnot : call.stage ≠ .waiting → call.stage = .waiting →
      ∀ r, s.resourceOf call.target = some r → r.phase = .released := fun h h' => absurd h' h
  cases a with
  | take =>
      simp only [releaseStep] at hstep
      split at hstep
      · next hstage =>
          obtain ⟨t, hw, rfl⟩ := Option.map_eq_some_iff.mp hstep
          refine .of_set hk (setRelease_releases hw k _) rfl (hnot (by simp [hstage]))
            (.inl (.of_withResource hw rfl ?_)) ?_
          · intro r r' hf hheld
            obtain rfl := Option.some.inj hf
            exact hheld
          · -- a release that has looked into the slot has not swapped yet
            intro hswapped
            cases hkind : call.kind <;>
              cases hslot : (s.attempts[call.target]?).elim false fun b =>
                b.resource.elim false EndpointResource.slot <;>
              simp [Release.swapped, hkind, hslot, ReleaseKind.afterTake] at hswapped
      · cases hstep
  | closed =>
      simp only [releaseStep] at hstep
      split at hstep
      · next hstage =>
          obtain ⟨t, hw, rfl⟩ := Option.map_eq_some_iff.mp hstep
          refine .of_set hk (setRelease_releases hw k _) rfl (hnot (by simp [hstage]))
            (.inl (.of_withResource hw rfl ?_)) ?_
          · intro r r' hf hheld
            obtain rfl := Option.some.inj hf
            exact hheld
          · intro hswapped
            cases hkind : call.kind <;> simp [Release.swapped] at hswapped
      · cases hstep
  | cancel =>
      simp only [releaseStep] at hstep
      split at hstep
      · next hkind hstage =>
          obtain rfl := Option.some.inj hstep
          refine .of_set hk rfl rfl (hnot (by simp [hstage])) (.inl (.of_eq rfl)) ?_
          intro hswapped
          simp [Release.swapped, hkind] at hswapped
      · next hkind hstage =>
          obtain rfl := Option.some.inj hstep
          refine .of_set hk rfl rfl (hnot (by simp [hstage])) (.inl (.of_eq rfl)) ?_
          intro hswapped
          simp [Release.swapped, hkind] at hswapped
      · cases hstep
  | swap =>
      simp only [releaseStep] at hstep
      split at hstep
      · next hstage =>
          split at hstep
          · next t hw =>
              obtain rfl := Option.some.inj hstep
              obtain ⟨b, r₀, r₁, hb, hr₀, hf, rfl⟩ := Registry.withResource_eq_some hw
              have hset : ∀ j, ((s.setAttempt call.target { b with resource := some r₁ }).setRelease k
                  { call with stage := .waiting }).resourceOf j =
                    if j = call.target then some r₁ else s.resourceOf j := by
                intro j
                rw [Registry.resourceOf_set hb rfl]
              refine .of_set hk rfl rfl (hnot (by simp [hstage])) (.inr ⟨rfl, ?_⟩) (fun _ => .inr ?_)
              · intro i r r' hi hr hr' hheld
                rw [hset, if_neg hi, hr] at hr'
                obtain rfl := Option.some.inj hr'
                exact hheld
              · intro r' hr'
                rw [hset, if_pos rfl] at hr'
                obtain rfl := Option.some.inj hr'
                split at hf
                · obtain rfl := Option.some.inj hf
                  simp
                · cases hf
          · next hw =>
              obtain rfl := Option.some.inj hstep
              refine .of_set hk rfl rfl (hnot (by simp [hstage])) (.inl (.of_eq rfl))
                (fun _ => .inr ?_)
              -- somebody else has swapped before
              intro r' hr' hheld
              change s.resourceOf call.target = some r' at hr'
              cases hb : s.attempts[call.target]? with
              | none => simp [Registry.resourceOf, hb] at hr'
              | some b =>
                  rw [Registry.resourceOf_eq hb] at hr'
                  simp [Registry.withResource, hb, hr', hheld] at hw
      · cases hstep
  | leave =>
      simp only [releaseStep] at hstep
      split at hstep
      · next hstage =>
          obtain ⟨t, hw, rfl⟩ := Option.map_eq_some_iff.mp hstep
          have hswapped : call.swapped = true := by
            cases hkind : call.kind <;> simp [Release.swapped, hkind, hstage]
          refine .of_set hk (setRelease_releases hw k _) rfl (fun _ => ?_)
            (.inl (.of_withResource hw rfl ?_)) (fun _ => .inl hswapped)
          · intro r hr
            obtain ⟨b, r₀, r₁, hb, hr₀, hf, rfl⟩ := Registry.withResource_eq_some hw
            obtain rfl := Option.some.inj (hr.symm.trans ((Registry.resourceOf_eq hb).trans hr₀))
            split at hf
            · next hphase => exact hphase
            · cases hf
          · intro r r' hf hheld
            split at hf
            · obtain rfl := Option.some.inj hf
              exact hheld
            · cases hf
      · cases hstep
  | drop =>
      simp only [releaseStep] at hstep
      split at hstep
      · next hstage =>
          obtain rfl := Option.some.inj hstep
          have hswapped : call.swapped = true := by
            cases hkind : call.kind <;> simp [Release.swapped, hkind, hstage]
          exact .of_set hk rfl rfl (hnot (by simp [hstage])) (.inl (.of_eq rfl))
            (fun _ => .inl hswapped)
      · cases hstep

/-- An attempt moves no release and puts no endpoint in release. -/
theorem attemptStep_releases {s s' : Registry} {i : ℕ} {b : BindAttempt} {a : AttemptAction}
    (h : s.Inv) (hb : s.attempts[i]? = some b) (hstep : attemptStep s i b a = some s') :
    ReleasesStep s s' := by
  have hspec := attemptStep_spec (h.tidy b (List.mem_of_getElem? hb)) hstep
  obtain ⟨b', hattempts, -, hresource⟩ := hspec.resource
  refine .of_kept ?_ (hspec.releases.imp_right fun hnew => ⟨i, .abort, hnew.2⟩)
  intro j r r' hr hr' hheld
  rw [Registry.resourceOf_set hb hattempts] at hr'
  split at hr'
  · next hj =>
      rw [hj, Registry.resourceOf_eq hb] at hr
      rcases hresource with hsame | ⟨hnone, -⟩
      · rw [hsame, hr] at hr'
        obtain rfl := Option.some.inj hr'
        exact hheld
      · rw [hr] at hnone
        cases hnone
  · obtain rfl := Option.some.inj (hr.symm.trans hr')
    exact hheld

theorem begin_releases {s s' : Registry} {i : ℕ} {kind : ReleaseKind}
    (hbegin : s.begin i kind = some s') : ReleasesStep s s' := by
  obtain ⟨t, hw, rfl⟩ := Option.map_eq_some_iff.mp hbegin
  have hsame : t.releases = s.releases := by
    obtain ⟨b, r, r', -, -, -, rfl⟩ := Registry.withResource_eq_some hw
    rfl
  refine .of_kept (.of_withResource hw rfl ?_) (.inr ⟨i, kind, by rw [← hsame]; rfl⟩)
  intro r r' hf hheld
  obtain rfl := Option.some.inj hf
  exact hheld

/-- A step that changes a resource outside the releases. -/
theorem withResource_releases {s t s' : Registry} {i : ℕ}
    {f : EndpointResource → Option EndpointResource} (hw : s.withResource i f = some t)
    (hattempts : s'.attempts = t.attempts) (hreleases : s'.releases = t.releases)
    (hf : ∀ r r', f r = some r' → r.phase = .held → r'.phase = .held) : ReleasesStep s s' := by
  refine .of_kept (.of_withResource hw hattempts hf) (.inl ?_)
  obtain ⟨b, r, r', -, -, -, rfl⟩ := Registry.withResource_eq_some hw
  exact hreleases

theorem registryStep_releases {s s' : Registry} {a : RegistryAction} (h : s.Inv)
    (hstep : registryStep s a = some s') : ReleasesStep s s' := by
  cases a with
  | bind id =>
      obtain ⟨t, b, ht, hattempts, -, -⟩ := registryStep_bind s id
      obtain rfl := Option.some.inj (ht.symm.trans hstep)
      have hreleases : t.releases = s.releases := by
        simp only [registryStep] at hstep
        split at hstep <;> exact Option.some.inj hstep ▸ rfl
      refine .of_kept ?_ (.inl hreleases)
      intro j r r' hr hr' hheld
      have hlt : j < s.attempts.length := by
        by_contra hge
        rw [Registry.resourceOf, List.getElem?_eq_none (not_lt.mp hge)] at hr
        cases hr
      rw [Registry.resourceOf, hattempts, List.getElem?_append_left hlt] at hr'
      obtain rfl := Option.some.inj (hr.symm.trans hr')
      exact hheld
  | attempt i a =>
      simp only [registryStep] at hstep
      split at hstep
      · next b hb => exact attemptStep_releases h hb hstep
      · cases hstep
  | close i => exact begin_releases hstep
  | abort i => exact begin_releases hstep
  | release k a =>
      simp only [registryStep] at hstep
      split at hstep
      · next call hk => exact releaseStep_releases hk hstep
      · cases hstep
  | remove i =>
      simp only [registryStep] at hstep
      split at hstep
      · obtain ⟨t, hw, rfl⟩ := Option.map_eq_some_iff.mp hstep
        refine withResource_releases hw rfl rfl ?_
        intro r r' hf hheld
        simp [hheld] at hf
      · cases hstep
  | uncount i =>
      obtain ⟨t, hw, rfl⟩ := Option.map_eq_some_iff.mp hstep
      refine withResource_releases hw rfl rfl ?_
      intro r r' hf hheld
      simp [hheld] at hf
  | clone i =>
      refine withResource_releases hstep rfl rfl ?_
      intro r r' hf hheld
      split at hf
      · obtain rfl := Option.some.inj hf
        exact hheld
      · cases hf
  | dropClone i =>
      refine withResource_releases hstep rfl rfl ?_
      intro r r' hf hheld
      split at hf
      · obtain rfl := Option.some.inj hf
        exact hheld
      · cases hf

/-! ### The invariant -/

/-- An endpoint in release has a winner until its release is finished, and
whoever has swapped has left it in release. -/
structure Registry.Progress (s : Registry) : Prop where
  winner : ∀ i r, s.resourceOf i = some r → r.phase ≠ .held → r.phase ≠ .released → s.Winner i
  swapped : ∀ call ∈ s.releases, call.swapped = true →
    ∀ r, s.resourceOf call.target = some r → r.phase ≠ .held

theorem Registry.start_progress : Registry.start.Progress where
  winner := fun i r hr => by cases hr
  swapped := fun call hcall => by cases hcall

theorem registryStep_progress {s s' : Registry} {a : RegistryAction} (h : s.Inv) (hs : s.Handles)
    (hp : s.Progress) (hstep : registryStep s a = some s') : s'.Progress := by
  have hspec := registryStep_spec h hs hstep
  have hreleases := registryStep_releases h hstep
  refine ⟨?_, ?_⟩
  · intro i r' hr' hheld hreleased
    rcases hspec.resources.back i r' hr' with ⟨r, hr, hchange⟩ | ⟨-, rfl⟩
    · by_cases hbefore : r.phase = .held
      · exact hreleases.won i r r' hr hr' hbefore hheld
      · have hunfinished : r.phase ≠ .released := fun hdone => hreleased (hchange.released hdone)
        obtain ⟨call, hcall, rfl, hstage⟩ := hp.winner i r hr hbefore hunfinished
        rcases hreleases.waiting call hcall hstage with hstill | hdone
        · exact ⟨call, hstill, rfl, hstage⟩
        · exact absurd (hdone r hr) hunfinished
    · exact absurd rfl hheld
  · intro call' hcall' hswapped r' hr'
    rcases hreleases.swapped call' hcall' hswapped with ⟨call, hcall, htarget, hbefore⟩ | hphase
    · rw [← htarget] at hr'
      rcases hspec.resources.back _ r' hr' with ⟨r, hr, hchange⟩ | ⟨hnone, -⟩
      · exact hchange.not_held (hp.swapped call hcall hbefore r hr)
      · exact absurd hnone (hs.target call hcall)
    · exact hphase r' hr'

theorem run_progress {as : List RegistryAction} {s : Registry}
    (hrun : run registryStep .start as = some s) : s.Inv ∧ s.Handles ∧ s.Progress := by
  have hstep : ∀ (s : Registry) (a : RegistryAction) (s' : Registry),
      s.Inv ∧ s.Handles ∧ s.Progress → registryStep s a = some s' →
        s'.Inv ∧ s'.Handles ∧ s'.Progress := by
    rintro s a s' ⟨h, hs, hp⟩ hstep
    exact ⟨registryStep_inv h hstep, registryStep_handles h hs hstep,
      registryStep_progress h hs hp hstep⟩
  exact run_invariant hstep hrun
    ⟨Registry.start_inv, Registry.start_handles, Registry.start_progress⟩

/-! ### What is left -/

/-- What is left of the endpoint of attempt `i`. -/
structure Registry.Freed (s : Registry) (i : ℕ) (b : BindAttempt) (r : EndpointResource) : Prop where
  /-- No operation begins on it any more. -/
  unused : r.slot = false ∧ registryStep s (.clone i) = none
  /-- The winner is about to remove the identity, and can. -/
  removing : r.phase = .swapped → s.Winner i ∧
    ∃ s', registryStep s (.remove i) = some s' ∧ b.id ∉ s'.identities
  /-- After that a bind of the identity is refused only on account of another. -/
  rebind : r.phase ≠ .swapped → ∀ s', registryStep s (.bind b.id) = some s' →
    ∃ c, s'.attempts = s.attempts ++ [c] ∧ c.id = b.id ∧
      (c.found = true ↔ ∃ (j : ℕ) (c' : BindAttempt), j ≠ i ∧ s.attempts[j]? = some c' ∧
        c'.id = b.id ∧ c'.owns = true)
  counted : ¬ s.Winner i → b.counted = false

/-- Whose identity is registered is owned by somebody. -/
theorem Registry.Inv.mem_iff_owner {s : Registry} (h : s.Inv) {id : String} :
    id ∈ s.identities ↔
      ∃ (j : ℕ) (c : BindAttempt), s.attempts[j]? = some c ∧ c.id = id ∧ c.owns = true := by
  constructor
  · intro hmem
    have hcount := h.exact.owners id
    rw [if_pos hmem] at hcount
    obtain ⟨c, hc, howns⟩ := List.countP_pos_iff.mp (by rw [hcount]; exact Nat.one_pos)
    obtain ⟨j, hj⟩ := List.getElem?_of_mem hc
    simp only [BindAttempt.ownsId, Bool.and_eq_true, beq_iff_eq] at howns
    exact ⟨j, c, hj, howns.1, howns.2⟩
  · rintro ⟨j, c, hc, rfl, howns⟩
    exact h.mem_of_owns hc howns

/-- **An aborted endpoint is freed**, whatever other releases of it are under
way. -/
theorem aborted_endpoint_freed (as : List RegistryAction) (s : Registry)
    (hrun : run registryStep .start as = some s) (i : ℕ) (b : BindAttempt) (r : EndpointResource)
    (hb : s.attempts[i]? = some b) (hr : b.resource = some r) (haborted : s.Aborted i) :
    s.Freed i b r := by
  obtain ⟨h, hs, hp⟩ := run_progress hrun
  have hri : s.resourceOf i = some r := (Registry.resourceOf_eq hb).trans hr
  have hresolved : b.stage.unresolved = false :=
    (h.tidy b (List.mem_of_getElem? hb)).resource (by simp [hr])
  have hphase : r.phase ≠ .held := by
    obtain ⟨call, hcall, rfl, hkind, hstage⟩ := haborted
    exact hp.swapped call hcall (by simp [Release.swapped, hkind, hstage]) r hri
  have hslot := hs.empty i r hri hphase
  refine ⟨⟨hslot, ?_⟩, ?_, ?_, ?_⟩
  · simp [registryStep, Registry.withResource, hb, hr, hslot]
  · intro hswapped
    refine ⟨hp.winner i r hri hphase (by simp [hswapped]), ?_⟩
    exact ⟨_, by simp only [registryStep, Registry.withResource, hb, hr, hswapped]; rfl,
      Finset.notMem_erase _ _⟩
  · intro hremoved s' hstep
    obtain ⟨t, c, ht, hattempts, hid, hfound⟩ := registryStep_bind s b.id
    obtain rfl := Option.some.inj (ht.symm.trans hstep)
    refine ⟨c, hattempts, hid, ?_⟩
    have hgone : b.owns = false := by
      cases hcase : r.phase with
      | held => exact absurd hcase hphase
      | swapped => exact absurd hcase hremoved
      | removed | released => simp [BindAttempt.owns, hresolved, hr, EndpointResource.owns, hcase]
    rw [hfound, h.mem_iff_owner]
    constructor
    · rintro ⟨j, c', hc', hid', howns⟩
      refine ⟨j, c', ?_, hc', hid', howns⟩
      rintro rfl
      obtain rfl := Option.some.inj (hb.symm.trans hc')
      rw [hgone] at howns
      cases howns
    · rintro ⟨j, c', -, hc', hid', howns⟩
      exact ⟨j, c', hc', hid', howns⟩
  · intro hnone
    have hreleased : r.phase = .released := by
      by_contra hother
      exact hnone (hp.winner i r hri hphase hother)
    simp [BindAttempt.counted, hr, EndpointResource.counted, hreleased]

/-- The close has run out of time with its task behind the swap, and the abort of
the process has returned: the identity is still registered, and may be removed. -/
theorem aborted_endpoint_freed_sample :
    ∃ s : Registry,
      run registryStep .start
        [.bind "a", .attempt 0 (.build .built), .attempt 0 (.watch true),
         .attempt 0 (.op (.finish (.value ()))), .attempt 0 (.op .selectTask),
         .attempt 0 (.op .complete), .attempt 0 .register, .attempt 0 (.monitor true), .close 0,
         .release 0 .take, .release 0 .closed, .release 0 .swap, .abort 0, .release 1 .take,
         .release 1 .swap, .release 1 .drop] = some s ∧
      s.identities = {"a"} ∧
      ∃ s', registryStep s (.remove 0) = some s' ∧ "a" ∉ s'.identities := by
  obtain ⟨s, hrun, hids, b, hb, hid, r, hr, hphase, hdone⟩ : ∃ s : Registry,
      run registryStep .start
        [.bind "a", .attempt 0 (.build .built), .attempt 0 (.watch true),
         .attempt 0 (.op (.finish (.value ()))), .attempt 0 (.op .selectTask),
         .attempt 0 (.op .complete), .attempt 0 .register, .attempt 0 (.monitor true), .close 0,
         .release 0 .take, .release 0 .closed, .release 0 .swap, .abort 0, .release 1 .take,
         .release 1 .swap, .release 1 .drop] = some s ∧
      s.identities = {"a"} ∧ ∃ b, s.attempts[0]? = some b ∧ b.id = "a" ∧
        ∃ r, b.resource = some r ∧ r.phase = .swapped ∧
          ⟨0, .abort, false, .done⟩ ∈ s.releases :=
    ⟨_, rfl, rfl, _, rfl, rfl, _, rfl, rfl, List.mem_cons_of_mem _ List.mem_cons_self⟩
  have hfreed := aborted_endpoint_freed _ s hrun 0 b r hb hr ⟨_, hdone, rfl, rfl, rfl⟩
  obtain ⟨-, s', hremove, hgone⟩ := hfreed.removing hphase
  exact ⟨s, hrun, hids, s', hremove, hid ▸ hgone⟩

end IrohBeam
