/-
IrohBeam/Lock.lean

A flag that guards a resource, and the party that has set it.

The parties are indexed by any type, and where each of them stands is a
function from the index; `owns` picks the stages between setting the flag and
clearing it.  `Owned flag owns` says that the flag is set exactly while one
party is at such a stage.  A step of one party sets the flag when it was clear,
clears it, or touches neither (`Turn`), and keeps the property whatever the
others do (`Owned.step`).
-/
import Mathlib.Logic.Function.Basic

namespace Lock

variable {ι σ : Type*}

/-- The flag is set exactly while one party owns it. -/
structure Owned (flag : Bool) (owns : ι → Prop) : Prop where
  set : ∀ i, owns i → flag = true
  unique : ∀ i j, owns i → owns j → i = j
  owner : flag = true → ∃ i, owns i

theorem Owned.clear {owns : ι → Prop} (h : ∀ i, ¬ owns i) : Owned false owns where
  set i hi := absurd hi (h i)
  unique i _ hi := absurd hi (h i)
  owner h := by cases h

/-- What one step of a party does to the flag and to its own claim on it. -/
inductive Turn (flag flag' : Bool) (owned owned' : Prop) : Prop
  | acquire : flag = false → flag' = true → owned' → Turn flag flag' owned owned'
  | release : owned → flag' = false → ¬ owned' → Turn flag flag' owned owned'
  | neither : flag' = flag → (owned' ↔ owned) → Turn flag flag' owned owned'

/-- **A step of one party keeps the flag owned.** -/
theorem Owned.step [DecidableEq ι] {flag flag' : Bool} {stage : ι → σ} {owns : σ → Prop}
    (h : Owned flag fun i => owns (stage i)) {i : ι} {next : σ}
    (hturn : Turn flag flag' (owns (stage i)) (owns next)) :
    Owned flag' fun j => owns (Function.update stage i next j) := by
  have hself : ∀ {j}, j = i → (owns (Function.update stage i next j) ↔ owns next) := by
    rintro j rfl
    rw [Function.update_self]
  have hother : ∀ {j}, j ≠ i → (owns (Function.update stage i next j) ↔ owns (stage j)) := by
    intro j hj
    rw [Function.update_of_ne hj]
  cases hturn with
  | acquire hclear hset hnext =>
      -- nobody owned it before, so the party that has set it is the only owner
      have hnone : ∀ j, ¬ owns (stage j) := by
        intro j hj
        rw [h.set j hj] at hclear
        cases hclear
      have honly : ∀ j, owns (Function.update stage i next j) → j = i := by
        intro j hj
        by_contra hne
        exact hnone j ((hother hne).mp hj)
      exact ⟨fun _ _ => hset, fun j k hj hk => (honly j hj).trans (honly k hk).symm,
        fun _ => ⟨i, (hself rfl).mpr hnext⟩⟩
  | release hown hclear hnext =>
      rw [hclear]
      apply Owned.clear
      intro j hj
      by_cases hji : j = i
      · exact hnext ((hself hji).mp hj)
      · exact hji (h.unique j i ((hother hji).mp hj) hown)
  | neither hflag hnext =>
      have hiff : ∀ j, owns (Function.update stage i next j) ↔ owns (stage j) := by
        intro j
        by_cases hji : j = i
        · rw [hself hji, hnext, hji]
        · exact hother hji
      rw [hflag]
      refine ⟨fun j hj => h.set j ((hiff j).mp hj), ?_, ?_⟩
      · intro j k hj hk
        exact h.unique j k ((hiff j).mp hj) ((hiff k).mp hk)
      · intro hset
        obtain ⟨j, hj⟩ := h.owner hset
        exact ⟨j, (hiff j).mpr hj⟩

end Lock
