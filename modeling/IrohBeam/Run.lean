/-
IrohBeam/Run.lean

Labelled transition systems given by a partial step function

    step : σ → α → Option σ

where `step s a = none` says that the action `a` is not enabled in `s`.  A
schedule is a list of actions, a run is the Kleisli fold of the step along
it, and every interleaving of several parties is some schedule.

Five induction rules carry everything built on this file:

* `run_invariant` — a property that every enabled step keeps holds in every
  state a run reaches;
* `run_simulated` — a relation to another system that every enabled step keeps,
  with some steps of the other, holds of what a run reaches;
* `run_invariant_of_meets` — the same for the runs all of whose steps meet
  a side condition `G`.  The rule is the one to use where a system keeps a
  property only as long as some bad step is not taken;
* `run_iff_meets` — where a step that misses `G` also destroys the property
  for good, the runs that keep it are exactly those that meet `G`;
* `always_iff_meets` — the same for every state on the way, where the
  property may come back later.

A system that records what has happened does so in a list, oldest first;
`Before` is the order of two events in such a history.

Nothing here mentions a particular system.
-/
import Mathlib.Data.List.Basic

namespace Transition

variable {σ α : Type*}

/-! ### Runs -/

/-- Run `step` along a schedule; `none` as soon as an action is disabled. -/
def run (step : σ → α → Option σ) (s : σ) (as : List α) : Option σ :=
  as.foldlM step s

/-- `s'` is reached from `s` by some schedule. -/
def Reaches (step : σ → α → Option σ) (s s' : σ) : Prop :=
  ∃ as, run step s as = some s'

variable {step : σ → α → Option σ}

@[simp] theorem run_nil (s : σ) : run step s [] = some s := rfl

theorem run_cons (s : σ) (a : α) (as : List α) :
    run step s (a :: as) = (step s a).bind fun s' => run step s' as := rfl

theorem run_cons_of_step {s s' : σ} {a : α} (as : List α) (h : step s a = some s') :
    run step s (a :: as) = run step s' as := by
  rw [run_cons, h]
  rfl

/-- A run along `a :: as` is one enabled step followed by a run along `as`. -/
theorem run_cons_eq_some {s s' : σ} {a : α} {as : List α}
    (h : run step s (a :: as) = some s') :
    ∃ t, step s a = some t ∧ run step t as = some s' :=
  Option.bind_eq_some_iff.mp h

theorem run_append (s : σ) (as bs : List α) :
    run step s (as ++ bs) = (run step s as).bind fun s' => run step s' bs :=
  List.foldlM_append

/-- A map between states that commutes with every step commutes with every run. -/
theorem run_map {τ : Type*} {step' : τ → α → Option τ} {f : σ → τ}
    (h : ∀ s a, step' (f s) a = (step s a).map f) (s : σ) (as : List α) :
    run step' (f s) as = (run step s as).map f := by
  induction as generalizing s with
  | nil => rfl
  | cons a as ih =>
      rw [run_cons, run_cons, h]
      cases step s a with
      | none => rfl
      | some s' => exact ih s'

theorem Reaches.refl (s : σ) : Reaches step s s := ⟨[], rfl⟩

theorem Reaches.single {s s' : σ} {a : α} (h : step s a = some s') : Reaches step s s' :=
  ⟨[a], by rw [run_cons_of_step [] h]; rfl⟩

theorem Reaches.trans {s t u : σ} (h₁ : Reaches step s t) (h₂ : Reaches step t u) :
    Reaches step s u := by
  obtain ⟨as, has⟩ := h₁
  obtain ⟨bs, hbs⟩ := h₂
  exact ⟨as ++ bs, by rw [run_append, has]; exact hbs⟩

theorem Reaches.tail {s t u : σ} {a : α} (h : Reaches step s t) (hstep : step t a = some u) :
    Reaches step s u :=
  h.trans (.single hstep)

/-! ### Invariants -/

/-- **Invariant rule**: what every enabled step keeps, every run keeps. -/
theorem run_invariant {P : σ → Prop}
    (hstep : ∀ s a s', P s → step s a = some s' → P s')
    {s s' : σ} {as : List α} (h : run step s as = some s') (hs : P s) : P s' := by
  induction as generalizing s with
  | nil => exact Option.some.inj h ▸ hs
  | cons a as ih =>
      obtain ⟨t, ht, hrest⟩ := run_cons_eq_some h
      exact ih hrest (hstep s a t hs ht)

theorem Reaches.invariant {P : σ → Prop}
    (hstep : ∀ s a s', P s → step s a = some s' → P s')
    {s s' : σ} (h : Reaches step s s') (hs : P s) : P s' := by
  obtain ⟨as, has⟩ := h
  exact run_invariant hstep has hs

/-- **Simulation rule**: where every step from related states is matched by some
steps of another system, every run is. -/
theorem run_simulated {τ β : Type*} {step' : τ → β → Option τ} {R : σ → τ → Prop}
    (hstep : ∀ s t a s', R s t → step s a = some s' → ∃ t', Reaches step' t t' ∧ R s' t')
    {s s' : σ} {t : τ} {as : List α} (h : run step s as = some s') (hs : R s t) :
    ∃ t', Reaches step' t t' ∧ R s' t' := by
  refine run_invariant (P := fun u => ∃ t', Reaches step' t t' ∧ R u t') ?_ h ⟨t, .refl t, hs⟩
  rintro u a u' ⟨t', hreach, hu⟩ hua
  obtain ⟨t'', hreach', hu'⟩ := hstep u t' a u' hu hua
  exact ⟨t'', hreach.trans hreach', hu'⟩

/-! ### Runs under a side condition -/

/-- `Meets step G s as`: along the run of `as` from `s`, every action is
taken in a state in which it meets the side condition `G`. -/
def Meets (step : σ → α → Option σ) (G : σ → α → Prop) : σ → List α → Prop
  | _, [] => True
  | s, a :: as => G s a ∧ ∀ s', step s a = some s' → Meets step G s' as

theorem meets_nil {G : σ → α → Prop} (s : σ) : Meets step G s [] := trivial

theorem meets_cons {G : σ → α → Prop} {s s' : σ} {a : α} {as : List α} (hG : G s a)
    (h : step s a = some s') (hrest : Meets step G s' as) : Meets step G s (a :: as) := by
  refine ⟨hG, ?_⟩
  intro t ht
  rw [h] at ht
  exact Option.some.inj ht ▸ hrest

/-- Actions that meet the side condition in any state meet it along any run. -/
theorem meets_of_forall {G : σ → α → Prop} {as : List α} (h : ∀ a ∈ as, ∀ s, G s a) (s : σ) :
    Meets step G s as := by
  induction as generalizing s with
  | nil => exact trivial
  | cons a as ih =>
      refine ⟨h a List.mem_cons_self s, ?_⟩
      intro t _
      exact ih (fun b hb => h b (List.mem_cons_of_mem a hb)) t

/-- The side condition along two schedules, one after the other. -/
theorem Meets.append {G : σ → α → Prop} {s t : σ} {as bs : List α} (has : Meets step G s as)
    (h : run step s as = some t) (hbs : Meets step G t bs) : Meets step G s (as ++ bs) := by
  induction as generalizing s with
  | nil =>
      obtain rfl := Option.some.inj h
      exact hbs
  | cons a as ih =>
      obtain ⟨u, hu, hrest⟩ := run_cons_eq_some h
      exact meets_cons has.1 hu (ih (has.2 u hu) hrest)

/-- A stronger side condition is met where a weaker one is asked for. -/
theorem Meets.mono {G H : σ → α → Prop} (hGH : ∀ s a, G s a → H s a) {s : σ} {as : List α}
    (h : Meets step G s as) : Meets step H s as := by
  induction as generalizing s with
  | nil => exact trivial
  | cons a as ih => exact ⟨hGH s a h.1, fun t ht => ih (h.2 t ht)⟩

/-- **Invariant rule under a side condition**: what every step that meets
`G` keeps, every run whose steps all meet `G` keeps. -/
theorem run_invariant_of_meets {G : σ → α → Prop} {P : σ → Prop}
    (hstep : ∀ s a s', P s → G s a → step s a = some s' → P s')
    {s s' : σ} {as : List α} (hG : Meets step G s as)
    (h : run step s as = some s') (hs : P s) : P s' := by
  induction as generalizing s with
  | nil => exact Option.some.inj h ▸ hs
  | cons a as ih =>
      obtain ⟨t, ht, hrest⟩ := run_cons_eq_some h
      exact ih (hG.2 t ht) hrest (hstep s a t hs hG.1 ht)

/-- **Exact rule**: where the steps that keep `P` are exactly those that meet
`G`, so are the runs. -/
theorem run_iff_meets {G : σ → α → Prop} {I P : σ → Prop}
    (hinv : ∀ s a s', I s → step s a = some s' → I s')
    (hstep : ∀ s a s', I s → step s a = some s' → (P s' ↔ P s ∧ G s a))
    {s s' : σ} {as : List α} (h : run step s as = some s') (hs : I s) :
    P s' ↔ P s ∧ Meets step G s as := by
  induction as generalizing s with
  | nil =>
      obtain rfl := Option.some.inj h
      exact (and_iff_left trivial).symm
  | cons a as ih =>
      obtain ⟨t, ht, hrest⟩ := run_cons_eq_some h
      rw [ih hrest (hinv s a t hs ht), hstep s a t hs ht]
      constructor
      · rintro ⟨⟨hP, hG⟩, hmeets⟩
        exact ⟨hP, meets_cons hG ht hmeets⟩
      · rintro ⟨hP, hG, hmeets⟩
        exact ⟨⟨hP, hG⟩, hmeets t ht⟩

/-! ### Every state of a run -/

/-- `P` holds in every state along the run of `as` from `s`. -/
def Always (step : σ → α → Option σ) (P : σ → Prop) (s : σ) (as : List α) : Prop :=
  ∀ bs t, bs <+: as → run step s bs = some t → P t

theorem always_nil {P : σ → Prop} (s : σ) : Always step P s [] ↔ P s := by
  constructor
  · intro h
    exact h [] s List.prefix_rfl rfl
  · intro h bs t hbs ht
    obtain rfl := List.prefix_nil.mp hbs
    exact Option.some.inj ht ▸ h

theorem always_cons {P : σ → Prop} {s t : σ} {a : α} (as : List α) (h : step s a = some t) :
    Always step P s (a :: as) ↔ P s ∧ Always step P t as := by
  constructor
  · intro halways
    refine ⟨halways [] s List.nil_prefix rfl, ?_⟩
    intro bs u hbs hu
    exact halways (a :: bs) u (List.cons_prefix_cons.mpr ⟨rfl, hbs⟩) (by rw [run_cons_of_step bs h, hu])
  · rintro ⟨hs, halways⟩ bs u hbs hu
    cases bs with
    | nil => exact Option.some.inj hu ▸ hs
    | cons b bs =>
        obtain ⟨rfl, htail⟩ := List.cons_prefix_cons.mp hbs
        rw [run_cons_of_step bs h] at hu
        exact halways bs u htail hu

/-- **Exact rule for every state**: where the steps that lead from `P` to `P`
are exactly those that meet `G`, the runs that stay in `P` are those that
meet `G`. -/
theorem always_iff_meets {G : σ → α → Prop} {I P : σ → Prop}
    (hinv : ∀ s a s', I s → step s a = some s' → I s')
    (hstep : ∀ s a s', I s → P s → step s a = some s' → (P s' ↔ G s a))
    {s s' : σ} {as : List α} (h : run step s as = some s') (hI : I s) (hP : P s) :
    Always step P s as ↔ Meets step G s as := by
  induction as generalizing s with
  | nil => exact ⟨fun _ => trivial, fun _ => (always_nil s).mpr hP⟩
  | cons a as ih =>
      obtain ⟨t, ht, hrest⟩ := run_cons_eq_some h
      rw [always_cons as ht]
      have hiff := hstep s a t hI hP ht
      constructor
      · rintro ⟨-, halways⟩
        have hPt : P t := halways [] t List.nil_prefix rfl
        exact meets_cons (hiff.mp hPt) ht ((ih hrest (hinv s a t hI ht) hPt).mp halways)
      · rintro ⟨hG, hmeets⟩
        exact ⟨hP, (ih hrest (hinv s a t hI ht) (hiff.mpr hG)).mpr (hmeets t ht)⟩

/-! ### Histories -/

section History

variable {ε : Type*} {l : List ε} {a b e : ε}

/-- In the history `l` the event `a` comes before the event `b`. -/
def Before (l : List ε) (a b : ε) : Prop := [a, b].Sublist l

instance [DecidableEq ε] (l : List ε) (a b : ε) : Decidable (Before l a b) :=
  inferInstanceAs (Decidable ([a, b].Sublist l))

theorem Before.mem_left (h : Before l a b) : a ∈ l := h.subset List.mem_cons_self

theorem Before.mem_right (h : Before l a b) : b ∈ l :=
  h.subset (List.mem_cons_of_mem a List.mem_cons_self)

theorem Before.append_right (h : Before l a b) (l' : List ε) : Before (l ++ l') a b :=
  List.Sublist.trans h (List.sublist_append_left l l')

theorem before_cons : Before (e :: l) a b ↔ Before l a b ∨ e = a ∧ b ∈ l := by
  constructor
  · intro h
    cases h with
    | cons _ h => exact .inl h
    | cons_cons _ h => exact .inr ⟨rfl, List.singleton_sublist.mp h⟩
  · rintro (h | ⟨rfl, h⟩)
    · exact h.cons e
    · exact (List.singleton_sublist.mpr h).cons_cons e

/-- A new event comes after everything that has happened. -/
theorem before_concat : Before (l ++ [e]) a b ↔ Before l a b ∨ a ∈ l ∧ b = e := by
  induction l with
  | nil => simp [Before]
  | cons c l ih =>
      rw [List.cons_append, before_cons, before_cons, ih]
      grind

/-- A new event leaves the order of the others as it was. -/
theorem before_concat_of_mem (hb : b ∈ l) (he : e ∉ l) : Before (l ++ [e]) a b ↔ Before l a b := by
  rw [before_concat]
  apply or_iff_left
  rintro ⟨-, rfl⟩
  exact he hb

/-! Where no event happens twice, `Before` is a strict order. -/

theorem Before.asymm (hl : l.Nodup) (h : Before l a b) : ¬ Before l b a := by
  induction l with
  | nil => cases h
  | cons c l ih =>
      obtain ⟨hc, hl⟩ := List.nodup_cons.mp hl
      intro h'
      rcases before_cons.mp h with h | ⟨rfl, hb⟩
      · rcases before_cons.mp h' with h' | ⟨rfl, -⟩
        · exact ih hl h h'
        · exact hc h.mem_right
      · rcases before_cons.mp h' with h' | ⟨rfl, ha⟩
        · exact hc h'.mem_right
        · exact hc hb

theorem Before.trans {c : ε} (hl : l.Nodup) (hab : Before l a b) (hbc : Before l b c) :
    Before l a c := by
  induction l with
  | nil => cases hab
  | cons d l ih =>
      obtain ⟨hd, hl⟩ := List.nodup_cons.mp hl
      rcases before_cons.mp hbc with hbc | ⟨rfl, -⟩
      · rcases before_cons.mp hab with hab | ⟨rfl, -⟩
        · exact (ih hl hab hbc).cons d
        · exact before_cons.mpr (.inr ⟨rfl, hbc.mem_right⟩)
      · -- `b` is the oldest event, so nothing is before it
        rcases before_cons.mp hab with hab | ⟨rfl, hb⟩
        · exact absurd hab.mem_right hd
        · exact absurd hb hd

end History

end Transition
