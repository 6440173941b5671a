/-
IrohBeam/Ledger.lean

Totals over a list whose entries change one at a time.

A counter shared by many objects is right when it equals the sum of what each
object contributes to it.  `total f l` is that sum for the objects `l`, and the
lemmas say how it moves when an object is added or replaced, so that one atomic
operation on the counter is compared with the change of one entry.
-/
import Mathlib.Algebra.BigOperators.Group.List.Basic
import Mathlib.Algebra.Order.BigOperators.Group.List
import Mathlib.Tactic.Ring

namespace Ledger

variable {α : Type*} {l : List α} {i : ℕ} {x y : α}

/-- The sum of the contributions of all entries. -/
def total (f : α → ℤ) (l : List α) : ℤ := (l.map f).sum

@[simp] theorem total_nil (f : α → ℤ) : total f [] = 0 := rfl

@[simp] theorem total_append (f : α → ℤ) (l l' : List α) :
    total f (l ++ l') = total f l + total f l' := by
  rw [total, List.map_append, List.sum_append, total, total]

@[simp] theorem total_singleton (f : α → ℤ) (x : α) : total f [x] = f x := by
  simp [total]

theorem total_cons (f : α → ℤ) (x : α) (l : List α) : total f (x :: l) = f x + total f l := by
  simp [total]

/-- Replacing one entry moves the total by the difference of the two. -/
theorem total_set (f : α → ℤ) (h : l[i]? = some x) (y : α) :
    total f (l.set i y) = total f l + (f y - f x) := by
  induction l generalizing i with
  | nil => cases h
  | cons a l ih =>
      cases i with
      | zero =>
          obtain rfl := Option.some.inj h
          rw [List.set_cons_zero, total_cons, total_cons]
          ring
      | succ i =>
          rw [List.set_cons_succ, total_cons, total_cons, ih h]
          ring

/-- Replacing an entry by one that contributes the same changes no total. -/
theorem total_set_of_eq {f : α → ℤ} (h : l[i]? = some x) (hf : f y = f x) :
    total f (l.set i y) = total f l := by
  rw [total_set f h, hf, sub_self, add_zero]

theorem total_nonneg {f : α → ℤ} (hf : ∀ x ∈ l, 0 ≤ f x) : 0 ≤ total f l := by
  apply List.sum_nonneg
  intro z hz
  obtain ⟨x, hx, rfl⟩ := List.mem_map.mp hz
  exact hf x hx

/-- Where nothing contributes a negative amount, an entry contributes at most
the total. -/
theorem le_total {f : α → ℤ} (hf : ∀ x ∈ l, 0 ≤ f x) (hx : x ∈ l) : f x ≤ total f l := by
  apply List.single_le_sum
  · intro z hz
    obtain ⟨x, hx, rfl⟩ := List.mem_map.mp hz
    exact hf x hx
  · exact List.mem_map_of_mem hx

/-- Two entries together contribute at most the total. -/
theorem add_le_total {f : α → ℤ} (hf : ∀ x ∈ l, 0 ≤ f x) {j : ℕ} (hij : i ≠ j)
    (hx : l[i]? = some x) (hy : l[j]? = some y) : f x + f y ≤ total f l := by
  induction l generalizing i j with
  | nil => cases hx
  | cons a l ih =>
      have htail : ∀ x ∈ l, 0 ≤ f x := fun x hx => hf x (List.mem_cons_of_mem _ hx)
      rw [total_cons]
      cases i with
      | zero =>
          obtain rfl := Option.some.inj hx
          cases j with
          | zero => exact absurd rfl hij
          | succ j => exact add_le_add_right (le_total htail (List.mem_of_getElem? hy)) _
      | succ i =>
          cases j with
          | zero =>
              obtain rfl := Option.some.inj hy
              rw [add_comm]
              exact add_le_add_right (le_total htail (List.mem_of_getElem? hx)) _
          | succ j =>
              have hrest := ih htail (fun h => hij (congrArg Nat.succ h)) hx hy
              exact le_add_of_nonneg_of_le (hf a List.mem_cons_self) hrest

/-- Nothing is the total of entries that contribute nothing. -/
theorem total_eq_zero {f : α → ℤ} (hf : ∀ x ∈ l, f x = 0) : total f l = 0 := by
  apply List.sum_eq_zero
  intro z hz
  obtain ⟨x, hx, rfl⟩ := List.mem_map.mp hz
  exact hf x hx

/-! ### Counting -/

/-- `1` for an entry that counts. -/
def tally (b : Bool) : ℤ := if b then 1 else 0

theorem tally_nonneg (b : Bool) : 0 ≤ tally b := by
  cases b <;> decide

/-- The total of tallies is a count. -/
theorem total_tally (p : α → Bool) (l : List α) : total (fun x => tally (p x)) l = l.countP p := by
  induction l with
  | nil => rfl
  | cons a l ih =>
      rw [total_cons, ih, List.countP_cons]
      cases p a <;> simp [tally, Int.add_comm]

/-! ### Entries one at a time -/

theorem forall_set {P : α → Prop} (h : ∀ x ∈ l, P x) (hy : P y) : ∀ x ∈ l.set i y, P x := by
  intro x hx
  rcases List.mem_or_eq_of_mem_set hx with hx | rfl
  · exact h x hx
  · exact hy

theorem forall_append {P : α → Prop} (h : ∀ x ∈ l, P x) (hy : P y) : ∀ x ∈ l ++ [y], P x := by
  intro x hx
  rcases List.mem_append.mp hx with hx | hx
  · exact h x hx
  · rw [List.mem_singleton.mp hx]
    exact hy

/-- An entry after one is replaced is the new one or was there before. -/
theorem getElem?_set_cases {j : ℕ} {z : α} (h : (l.set i y)[j]? = some z) :
    j = i ∧ z = y ∨ l[j]? = some z := by
  by_cases hij : i = j
  · subst hij
    rw [List.getElem?_set_self'] at h
    obtain ⟨-, -, rfl⟩ := Option.map_eq_some_iff.mp h
    exact .inl ⟨rfl, rfl⟩
  · rw [List.getElem?_set_ne hij] at h
    exact .inr h

/-- An entry after one is added is the last one or was there before. -/
theorem getElem?_concat_cases {j : ℕ} {z : α} (h : (l ++ [y])[j]? = some z) :
    l[j]? = some z ∨ j = l.length := by
  rcases lt_or_ge j l.length with hlt | hge
  · rw [List.getElem?_append_left hlt] at h
    exact .inl h
  · right
    have hlt := (List.getElem?_eq_some_iff.mp h).1
    rw [List.length_append, List.length_singleton] at hlt
    exact Nat.le_antisymm (Nat.le_of_lt_succ hlt) hge

/-- Adding entries keeps the ones that are there. -/
theorem getElem?_of_prefix {l' : List α} (h : l <+: l') (hx : l[i]? = some x) :
    l'[i]? = some x := by
  obtain ⟨rest, rfl⟩ := h
  rw [List.getElem?_append_left (List.getElem?_eq_some_iff.mp hx).1]
  exact hx

/-- Replacing an entry by one that is related to whatever the old one is. -/
theorem pairwise_set {R : α → α → Prop} (h : l.Pairwise R) (hx : l[i]? = some x)
    (hleft : ∀ z, R x z → R y z) (hright : ∀ z, R z x → R z y) : (l.set i y).Pairwise R := by
  induction l generalizing i with
  | nil => cases hx
  | cons a l ih =>
      obtain ⟨ha, hl⟩ := List.pairwise_cons.mp h
      cases i with
      | zero =>
          obtain rfl := Option.some.inj hx
          exact List.pairwise_cons.mpr ⟨fun z hz => hleft z (ha z hz), hl⟩
      | succ i =>
          have hrest : ∀ z ∈ l.set i y, R a z :=
            forall_set ha (hright a (ha x (List.mem_of_getElem? hx)))
          exact List.pairwise_cons.mpr ⟨hrest, ih hl hx⟩

/-- Replacing an entry by one with the same image changes no image. -/
theorem map_set_of_eq {β : Type*} {f : α → β} (h : l[i]? = some x) (hf : f y = f x) :
    (l.set i y).map f = l.map f := by
  obtain ⟨hlt, rfl⟩ := List.getElem?_eq_some_iff.mp h
  rw [List.map_set, hf, ← List.getElem_map f (h := by simpa using hlt), List.set_getElem_self]

/-- A value read off one entry, after that entry is replaced. -/
theorem elim_set {β : Type*} {f : α → β} {d : β} (h : l[i]? = some x) (j : ℕ) :
    ((l.set i y)[j]?).elim d f = if j = i then f y else (l[j]?).elim d f := by
  by_cases hij : j = i
  · subst hij
    rw [List.getElem?_set_self (List.getElem?_eq_some_iff.mp h).1, if_pos rfl]
    rfl
  · rw [List.getElem?_set_ne (Ne.symm hij), if_neg hij]

/-- A new entry with the default value changes no value. -/
theorem elim_append {β : Type*} {f : α → β} {d : β} (hf : f y = d) (j : ℕ) :
    ((l ++ [y])[j]?).elim d f = (l[j]?).elim d f := by
  rcases lt_trichotomy j l.length with hj | rfl | hj
  · rw [List.getElem?_append_left hj]
  · rw [List.getElem?_concat_length, List.getElem?_eq_none (le_refl _)]
    exact hf
  · rw [List.getElem?_eq_none (by simp; omega), List.getElem?_eq_none hj.le]

/-- A list ends with its last entry. -/
theorem take_append_last (h : l[i]? = some x) (hlast : i + 1 = l.length) : l = l.take i ++ [x] := by
  have htake := List.take_add_one (l := l) (i := i)
  rw [h, hlast, List.take_length] at htake
  exact htake

end Ledger
