/-
IrohBeam/HighWater.lean

High-water marks kept without a lock.

Many callers move a shared level, each by one atomic operation, and a second
shared variable is to hold the greatest level there has been.  A caller that
raises the level takes the value it has raised it to through a loop of
compare-and-swaps on the mark

    seen := mark
    while value > seen
      if compare_exchange(mark, seen, value) then break else seen := mark

in which an exchange may also fail where the mark is what the caller has seen.
A `Meter` is the level, the mark and the loops that are not over; a `Move` is
one atomic operation.

The mark may stay behind the greatest level for as long as the caller that
raised to it is in its loop, and `Meter.Inv` says that this is the only reason.
`Tracks` is what a system has to show of its steps; its runs then have
`Tracks.mark_mono` and `Tracks.mark_spec`.

Nothing here mentions a particular system.
-/
import IrohBeam.Run
import Mathlib.Order.Bounds.Basic
import Mathlib.Logic.Function.Basic

namespace HighWater

open Transition

/-! ### Meters -/

/-- A loop that raises the mark to `value`: yet to read the mark, or about to
exchange the one it has `seen`. -/
inductive Raise (α : Type*) where
  | load (value : α)
  | exchange (value seen : α)
  deriving DecidableEq, Repr

def Raise.value {α : Type*} : Raise α → α
  | .load value | .exchange value _ => value

/-- The level, the mark and the loops of the callers. -/
structure Meter (ι α : Type*) where
  level : α
  mark : α
  raising : ι → Option (Raise α)

section Update

variable {ι α : Type*} [DecidableEq ι] {m : Meter ι α} {i j : ι} {next : Option (Raise α)}
  {r : Raise α}

/-- The loop of caller `i` goes on to `next`. -/
def Meter.setRaising (m : Meter ι α) (i : ι) (next : Option (Raise α)) : Meter ι α :=
  { m with raising := Function.update m.raising i next }

theorem Meter.raising_setRaising (m : Meter ι α) (i : ι) (next : Option (Raise α)) (j : ι) :
    (m.setRaising i next).raising j = if j = i then next else m.raising j :=
  Function.update_apply ..

theorem Meter.setRaising_cases (h : (m.setRaising i next).raising j = some r) :
    next = some r ∨ m.raising j = some r := by
  rw [Meter.raising_setRaising] at h
  split at h
  · exact Or.inl h
  · exact Or.inr h

theorem Meter.setRaising_of_ne (hj : j ≠ i) (h : m.raising j = some r) :
    (m.setRaising i next).raising j = some r :=
  (Function.update_of_ne hj ..).trans h

end Update

section Order

variable {ι α : Type*} [LinearOrder α]

/-- The head of the loop: `none` when it is over. -/
def Raise.head (value seen : α) : Option (Raise α) :=
  if seen < value then some (.exchange value seen) else none

/-- What the head of the loop leads to: the loop is over, or a try at the mark. -/
theorem Raise.head_cases (value seen : α) :
    seen < value ∧ Raise.head value seen = some (.exchange value seen) ∨
      value ≤ seen ∧ Raise.head value seen = none := by
  rcases lt_or_ge seen value with hlt | hle
  · exact Or.inl ⟨hlt, if_pos hlt⟩
  · exact Or.inr ⟨hle, if_neg (not_lt_of_ge hle)⟩

/-- No caller is in its loop. -/
def Meter.Idle (m : Meter ι α) : Prop := ∀ i, m.raising i = none

/-- A loop comes from a test that `value` is above the mark, and `value` is at
most the greatest level `top`. -/
def Raise.Valid (top : α) : Raise α → Prop
  | .load value => value ≤ top
  | .exchange value seen => value ≤ top ∧ seen < value

theorem Raise.Valid.value_le {top : α} {r : Raise α} (h : r.Valid top) : r.value ≤ top := by
  cases r with
  | load value => exact h
  | exchange value seen => exact h.1

theorem Raise.Valid.mono {top top' : α} (hle : top ≤ top') {r : Raise α} (h : r.Valid top) :
    r.Valid top' := by
  cases r with
  | load value => exact le_trans h hle
  | exchange value seen => exact ⟨h.1.trans hle, h.2⟩

/-- `top` is the greatest level there has been: it is the mark, or the value of
a loop that is not over. -/
structure Meter.Inv (top : α) (m : Meter ι α) : Prop where
  level_le : m.level ≤ top
  mark_le : m.mark ≤ top
  valid : ∀ i r, m.raising i = some r → r.Valid top
  reached : m.mark = top ∨ ∃ i r, m.raising i = some r ∧ r.value = top

variable {m m' : Meter ι α} {top : α}

theorem Meter.Inv.start (hmark : m.mark = m.level) (hidle : m.Idle) : m.Inv m.level where
  level_le := le_rfl
  mark_le := hmark.le
  valid i r h := by rw [hidle i] at h; cases h
  reached := Or.inl hmark

/-- Without a loop the mark is the greatest level. -/
theorem Meter.Inv.mark_eq (h : m.Inv top) (hidle : m.Idle) : m.mark = top := by
  rcases h.reached with hmark | ⟨i, r, hr, -⟩
  · exact hmark
  · rw [hidle i] at hr
    cases hr

end Order

/-! ### Moves -/

variable {ι α : Type*} [DecidableEq ι] [LinearOrder α]

/-- One atomic operation. -/
inductive Move : Meter ι α → Meter ι α → Prop
  | raise {m : Meter ι α} {i : ι} (value : α) (hidle : m.raising i = none) :
      Move m ({ m with level := value }.setRaising i (some (.load value)))
  | lower {m : Meter ι α} (value : α) (hle : value ≤ m.level) : Move m { m with level := value }
  | load {m : Meter ι α} {i : ι} {value : α} (h : m.raising i = some (.load value)) :
      Move m (m.setRaising i (Raise.head value m.mark))
  | exchange {m : Meter ι α} {i : ι} {value : α}
      (h : m.raising i = some (.exchange value m.mark)) :
      Move m ({ m with mark := value }.setRaising i none)
  | retry {m : Meter ι α} {i : ι} {value seen : α}
      (h : m.raising i = some (.exchange value seen)) :
      Move m (m.setRaising i (Raise.head value m.mark))

variable {m m' : Meter ι α} {top : α} {i : ι} {r : Raise α}

theorem Meter.Inv.setRaising (h : m.Inv top) {next : Option (Raise α)}
    (hnext : ∀ r, next = some r → r.Valid top)
    (hold : ∀ r, m.raising i = some r → r.value = top →
      m.mark = top ∨ ∃ r', next = some r' ∧ r'.value = top) :
    (m.setRaising i next).Inv top := by
  refine ⟨h.level_le, h.mark_le, ?_, ?_⟩
  · intro j r hr
    rcases Meter.setRaising_cases hr with hr | hr
    · exact hnext r hr
    · exact h.valid j r hr
  · rcases h.reached with hmark | ⟨j, r, hr, htop⟩
    · exact Or.inl hmark
    · by_cases hj : j = i
      · subst hj
        rcases hold r hr htop with hmark | ⟨r', hr', htop'⟩
        · exact Or.inl hmark
        · exact Or.inr ⟨j, r', (Function.update_self ..).trans hr', htop'⟩
      · exact Or.inr ⟨j, r, Meter.setRaising_of_ne hj hr, htop⟩

/-- The head of the loop keeps the invariant: a loop whose value is the greatest
level ends only at that mark. -/
theorem Meter.Inv.head (h : m.Inv top) (hr : m.raising i = some r) :
    (m.setRaising i (Raise.head r.value m.mark)).Inv top := by
  have hvalue : r.value ≤ top := (h.valid i r hr).value_le
  rcases Raise.head_cases r.value m.mark with ⟨hlt, hhead⟩ | ⟨hle, hhead⟩
  · rw [hhead]
    refine h.setRaising ?_ ?_
    · intro r' hr'
      obtain rfl := Option.some.inj hr'
      exact ⟨hvalue, hlt⟩
    · intro r' hr' htop
      obtain rfl := Option.some.inj (hr.symm.trans hr')
      exact Or.inr ⟨_, rfl, htop⟩
  · rw [hhead]
    refine h.setRaising (by simp) ?_
    intro r' hr' htop
    obtain rfl := Option.some.inj (hr.symm.trans hr')
    exact Or.inl (le_antisymm h.mark_le (htop ▸ hle))

/-- The level is raised to `value`, which is the greatest if it is above `top`. -/
theorem Meter.Inv.raise (h : m.Inv top) (hidle : m.raising i = none) (value : α) :
    ({ m with level := value }.setRaising i (some (.load value))).Inv (max top value) := by
  refine ⟨le_max_right _ _, h.mark_le.trans (le_max_left _ _), ?_, ?_⟩
  · intro j r hr
    rcases Meter.setRaising_cases hr with hr | hr
    · obtain rfl := Option.some.inj hr
      exact le_max_right _ _
    · exact (h.valid j r hr).mono (le_max_left _ _)
  · rcases le_total top value with hle | hle
    · -- the new loop is the one that will bring the mark there
      exact Or.inr ⟨i, _, Function.update_self .., (max_eq_right hle).symm⟩
    · rw [max_eq_left hle]
      rcases h.reached with hmark | ⟨j, r, hr, htop⟩
      · exact Or.inl hmark
      · have hj : j ≠ i := by
          rintro rfl
          rw [hidle] at hr
          cases hr
        exact Or.inr ⟨j, r, (Function.update_of_ne hj ..).trans hr, htop⟩

/-- An exchange puts a greater value in the place of the mark. -/
theorem Meter.Inv.exchange (h : m.Inv top) {value : α}
    (hr : m.raising i = some (.exchange value m.mark)) :
    ({ m with mark := value }.setRaising i none).Inv top := by
  obtain ⟨hvalue, hlt⟩ := h.valid i _ hr
  refine ⟨h.level_le, hvalue, ?_, ?_⟩
  · intro j r hr
    rcases Meter.setRaising_cases hr with hr | hr
    · cases hr
    · exact h.valid j r hr
  · rcases h.reached with hmark | ⟨j, r, hr', htop⟩
    · -- nothing is above a mark that is the greatest level
      exact absurd hvalue (not_le_of_gt (hmark ▸ hlt))
    · by_cases hj : j = i
      · subst hj
        obtain rfl := Option.some.inj (hr'.symm.trans hr)
        exact Or.inl htop
      · exact Or.inr ⟨j, r, (Function.update_of_ne hj ..).trans hr', htop⟩

/-- **Step lemma.**  The greatest level takes in the new one. -/
theorem Meter.Inv.move (h : m.Inv top) (hmove : Move m m') : m'.Inv (max top m'.level) := by
  cases hmove with
  | raise value hidle => exact h.raise hidle value
  | lower value hle =>
      have hlevel : value ≤ top := hle.trans h.level_le
      show Meter.Inv (max top value) _
      rw [max_eq_left hlevel]
      exact { h with level_le := hlevel }
  | load hr =>
      show Meter.Inv (max top m.level) _
      rw [max_eq_left h.level_le]
      exact h.head hr
  | exchange hr =>
      show Meter.Inv (max top m.level) _
      rw [max_eq_left h.level_le]
      exact h.exchange hr
  | retry hr =>
      show Meter.Inv (max top m.level) _
      rw [max_eq_left h.level_le]
      exact h.head hr

/-- The loop of a caller takes effect once, with its last operation, and then as
a maximum. -/
theorem Meter.Inv.effect (h : m.Inv top) (hmove : Move m m') :
    m'.mark = m.mark ∨
      ∃ i r, m.raising i = some r ∧ m'.raising i = none ∧ m'.mark = max m.mark r.value := by
  cases hmove with
  | raise | lower | load | retry => exact Or.inl rfl
  | @exchange i value hr =>
      refine Or.inr ⟨i, _, hr, Function.update_self .., ?_⟩
      exact (max_eq_right (h.valid i _ hr).2.le).symm

theorem Meter.Inv.mark_le_move (h : m.Inv top) (hmove : Move m m') : m.mark ≤ m'.mark := by
  rcases h.effect hmove with hmark | ⟨-, r, -, -, hmark⟩
  · exact hmark.ge
  · rw [hmark]
    exact le_max_left _ _

/-! ### Systems with a meter -/

section Levels

variable {σ α β : Type*} {step : σ → β → Option σ}

/-- The levels in the states of the run of `as` from `s`. -/
def Levels (step : σ → β → Option σ) (level : σ → α) (s : σ) (as : List β) : Set α :=
  {v | ∃ bs t, bs <+: as ∧ run step s bs = some t ∧ level t = v}

theorem levels_nil (level : σ → α) (s : σ) : Levels step level s [] = {level s} := by
  ext v
  constructor
  · rintro ⟨bs, t, hbs, ht, rfl⟩
    obtain rfl := List.prefix_nil.mp hbs
    obtain rfl := Option.some.inj ht
    rfl
  · rintro rfl
    exact ⟨[], s, List.prefix_rfl, rfl, rfl⟩

theorem level_mem_levels (level : σ → α) (s : σ) (as : List β) :
    level s ∈ Levels step level s as :=
  ⟨[], s, List.nil_prefix, rfl, rfl⟩

theorem levels_cons (level : σ → α) {s t : σ} {b : β} (h : step s b = some t) (as : List β) :
    Levels step level s (b :: as) = insert (level s) (Levels step level t as) := by
  ext v
  constructor
  · rintro ⟨bs, u, hbs, hu, rfl⟩
    cases bs with
    | nil =>
        obtain rfl := Option.some.inj hu
        exact Set.mem_insert _ _
    | cons b' bs =>
        obtain ⟨rfl, htail⟩ := List.cons_prefix_cons.mp hbs
        rw [run_cons_of_step bs h] at hu
        exact Set.mem_insert_of_mem _ ⟨bs, u, htail, hu, rfl⟩
  · rintro (rfl | ⟨bs, u, hbs, hu, rfl⟩)
    · exact level_mem_levels level s _
    · exact ⟨b :: bs, u, List.cons_prefix_cons.mpr ⟨rfl, hbs⟩, by rw [run_cons_of_step bs h, hu],
        rfl⟩

end Levels

variable {σ β : Type*} {step : σ → β → Option σ} {I : σ → Prop} {view : σ → Meter ι α}
  {s s' : σ} {as : List β}

/-- Under `I`, every step of the system is a move of the meter that `view` finds
in its state. -/
structure Tracks (step : σ → β → Option σ) (I : σ → Prop) (view : σ → Meter ι α) : Prop where
  inv : ∀ s b s', I s → step s b = some s' → I s'
  move : ∀ s b s', I s → step s b = some s' → Move (view s) (view s')

theorem Tracks.run_inv (h : Tracks step I view) (hrun : run step s as = some s') (hI : I s)
    (htop : (view s).Inv top) :
    ∃ top', IsGreatest (insert top (Levels step (fun t => (view t).level) s as)) top' ∧
      (view s').Inv top' := by
  induction as generalizing s top with
  | nil =>
      obtain rfl := Option.some.inj hrun
      refine ⟨top, ⟨Set.mem_insert _ _, ?_⟩, htop⟩
      rw [levels_nil]
      rintro v (rfl | rfl)
      · exact le_rfl
      · exact htop.level_le
  | cons b as ih =>
      obtain ⟨t, ht, hrest⟩ := run_cons_eq_some hrun
      have hlevel : (view t).level ∈ Levels step (fun t => (view t).level) t as :=
        level_mem_levels _ t as
      obtain ⟨top', ⟨hmem, hle⟩, hinv⟩ :=
        ih hrest (h.inv s b t hI ht) (htop.move (h.move s b t hI ht))
      have hmax : max top (view t).level ≤ top' := hle (Set.mem_insert _ _)
      refine ⟨top', ⟨?_, ?_⟩, hinv⟩
      · rw [levels_cons _ ht]
        rcases hmem with rfl | hmem
        · rcases le_total top (view t).level with hle | hle
          · rw [max_eq_right hle]
            exact Or.inr (Or.inr hlevel)
          · exact Or.inl (max_eq_left hle)
        · exact Or.inr (Or.inr hmem)
      · -- what came before is below what the induction found
        rw [levels_cons _ ht]
        rintro v (rfl | rfl | hv)
        · exact (le_max_left _ _).trans hmax
        · exact htop.level_le.trans ((le_max_left _ _).trans hmax)
        · exact hle (Or.inr hv)

/-- The mark never falls. -/
theorem Tracks.mark_mono (h : Tracks step I view) (hrun : run step s as = some s') (hI : I s)
    (htop : (view s).Inv top) : (view s).mark ≤ (view s').mark := by
  induction as generalizing s top with
  | nil =>
      obtain rfl := Option.some.inj hrun
      exact le_rfl
  | cons b as ih =>
      obtain ⟨t, ht, hrest⟩ := run_cons_eq_some hrun
      have hmove : Move (view s) (view t) := h.move s b t hI ht
      exact (htop.mark_le_move hmove).trans (ih hrest (h.inv s b t hI ht) (htop.move hmove))

/-- From an idle meter with its mark at the level, the invariant is about the
greatest level so far. -/
theorem Tracks.mark_spec (h : Tracks step I view) (hrun : run step s as = some s') (hI : I s)
    (hmark : (view s).mark = (view s).level) (hidle : (view s).Idle) :
    ∃ top, IsGreatest (Levels step (fun t => (view t).level) s as) top ∧ (view s').Inv top := by
  obtain ⟨top, hgreatest, hinv⟩ := h.run_inv hrun hI (Meter.Inv.start hmark hidle)
  have hlevel : (view s).level ∈ Levels step (fun t => (view t).level) s as :=
    level_mem_levels _ s as
  exact ⟨top, Set.insert_eq_of_mem hlevel ▸ hgreatest, hinv⟩

end HighWater
