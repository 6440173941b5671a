/-
IrohBeam/Monitors.lean

Monitors on the owners of things.

A monitor of a thing watches the process that owns it.  On a process that is
dead none can be put; when a process dies each of its monitors turns into a
message, and the message is delivered at any time later, once.

`own` gives the owner of a thing.  It may come to say more as new things are
made (`Extends`), and never says something else.  `Watch.Inv` is what a run of
these operations keeps: a monitor that is up has an owner that is alive, and a
message is about an owner that is dead.

Nothing here mentions a particular system.
-/
import Mathlib.Data.Finset.Basic
import Mathlib.Data.Finset.Filter

namespace Monitors

variable {η ω : Type*}

/-- The processes that have died, the things with a monitor up, and the things
for which there is a message under way. -/
structure Watch (η ω : Type*) where
  dead : Finset ω
  live : Finset η
  fired : Finset η

def Watch.start : Watch η ω := ⟨∅, ∅, ∅⟩

/-- A monitor of the thing has been put up, and its message has not arrived. -/
def Watch.Has (w : Watch η ω) (h : η) : Prop := h ∈ w.live ∨ h ∈ w.fired

/-- Every thing that has an owner keeps it. -/
def Extends (own own' : η → Option ω) : Prop := ∀ h o, own h = some o → own' h = some o

/-- What is watched is alive, and what there is a message about is dead. -/
structure Watch.Inv (own : η → Option ω) (w : Watch η ω) : Prop where
  live : ∀ h ∈ w.live, ∃ o, own h = some o ∧ o ∉ w.dead
  fired : ∀ h ∈ w.fired, ∃ o, own h = some o ∧ o ∈ w.dead

variable {own own' : η → Option ω} {w : Watch η ω} {h : η} {o : ω}

theorem Watch.start_inv (own : η → Option ω) : (start : Watch η ω).Inv own where
  live _ hmem := absurd hmem (Finset.notMem_empty _)
  fired _ hmem := absurd hmem (Finset.notMem_empty _)

theorem Watch.Inv.mono (hw : w.Inv own) (hext : Extends own own') : w.Inv own' where
  live h hmem := by
    obtain ⟨o, hown, halive⟩ := hw.live h hmem
    exact ⟨o, hext h o hown, halive⟩
  fired h hmem := by
    obtain ⟨o, hown, hdead⟩ := hw.fired h hmem
    exact ⟨o, hext h o hown, hdead⟩

/-- No monitor is up on a process that is dead. -/
theorem Watch.Inv.live_ne (hw : w.Inv own) (hdead : o ∈ w.dead) (hmem : h ∈ w.live) :
    own h ≠ some o := by
  intro hown
  obtain ⟨o', hown', halive⟩ := hw.live h hmem
  rw [hown] at hown'
  obtain rfl := Option.some.inj hown'
  exact halive hdead

/-! ### Up and down -/

section Things

variable [DecidableEq η]

/-- A monitor is put up. -/
def Watch.add (w : Watch η ω) (h : η) : Watch η ω := { w with live := insert h w.live }

/-- The message arrives. -/
def Watch.deliver (w : Watch η ω) (h : η) : Watch η ω := { w with fired := w.fired.erase h }

theorem Watch.Has.add (hw : w.Has h) (h' : η) : (w.add h').Has h :=
  hw.imp_left (Finset.mem_insert_of_mem ·)

theorem Watch.has_add (w : Watch η ω) (h : η) : (w.add h).Has h := .inl (Finset.mem_insert_self h _)

theorem Watch.Has.deliver {h' : η} (hw : w.Has h) (hne : h ≠ h') : (w.deliver h').Has h :=
  hw.imp_right fun hfired => Finset.mem_erase.mpr ⟨hne, hfired⟩

theorem Watch.Inv.add (hw : w.Inv own) (hown : own h = some o) (halive : o ∉ w.dead) :
    (w.add h).Inv own where
  live h' hmem := by
    rcases Finset.mem_insert.mp hmem with rfl | hmem
    · exact ⟨o, hown, halive⟩
    · exact hw.live h' hmem
  fired := hw.fired

theorem Watch.Inv.deliver (hw : w.Inv own) (h : η) : (w.deliver h).Inv own where
  live := hw.live
  fired h' hmem := hw.fired h' (Finset.mem_of_mem_erase hmem)

end Things

/-! ### Death -/

section Death

variable [DecidableEq η] [DecidableEq ω]

/-- The process dies. -/
def Watch.die (w : Watch η ω) (own : η → Option ω) (o : ω) : Watch η ω :=
  { dead := insert o w.dead
    live := w.live.filter fun h => own h ≠ some o
    fired := w.fired ∪ w.live.filter fun h => own h = some o }

theorem Watch.Has.die (hw : w.Has h) (own : η → Option ω) (o : ω) : (w.die own o).Has h := by
  rcases hw with hlive | hfired
  · by_cases hown : own h = some o
    · exact .inr (Finset.mem_union_right _ (Finset.mem_filter.mpr ⟨hlive, hown⟩))
    · exact .inl (Finset.mem_filter.mpr ⟨hlive, hown⟩)
  · exact .inr (Finset.mem_union_left _ hfired)

theorem Watch.Inv.die (hw : w.Inv own) (o : ω) : (w.die own o).Inv own where
  live h hmem := by
    obtain ⟨hlive, hne⟩ := Finset.mem_filter.mp hmem
    obtain ⟨o', hown, halive⟩ := hw.live h hlive
    refine ⟨o', hown, fun hdead => ?_⟩
    rcases Finset.mem_insert.mp hdead with rfl | hdead
    · exact hne hown
    · exact halive hdead
  fired h hmem := by
    rcases Finset.mem_union.mp hmem with hfired | hnew
    · obtain ⟨o', hown, hdead⟩ := hw.fired h hfired
      exact ⟨o', hown, Finset.mem_insert_of_mem hdead⟩
    · exact ⟨o, (Finset.mem_filter.mp hnew).2, Finset.mem_insert_self o _⟩

end Death

end Monitors
