/-
IrohBeam/SortedSet.lean

Sets over a linear order, kept as their elements in increasing order: what a
B-tree set is to a program that builds one from a list and iterates over it.

A list in increasing order is determined by its members (`eq_of_mem_iff`), so a
set built again from what it lists is the same set (`ofList_elems`).  Nothing
here mentions a particular system.
-/
import Mathlib.Data.List.Sort
import Mathlib.Data.List.Dedup

/-- The elements in increasing order, each once. -/
structure SortedSet (α : Type*) [LinearOrder α] where
  elems : List α
  sorted : elems.Pairwise (· < ·)

namespace SortedSet

variable {α : Type*} [LinearOrder α]

/-- Two increasing lists with the same members are the same list. -/
theorem eq_of_mem_iff {l l' : List α} (hl : l.Pairwise (· < ·)) (hl' : l'.Pairwise (· < ·))
    (hmem : ∀ a, a ∈ l ↔ a ∈ l') : l = l' := by
  have hnodup : l.Nodup := hl.imp fun h => ne_of_lt h
  have hnodup' : l'.Nodup := hl'.imp fun h => ne_of_lt h
  have hperm : l.Perm l' := (List.perm_ext_iff_of_nodup hnodup hnodup').mpr hmem
  refine hperm.eq_of_pairwise ?_ hl hl'
  intro a b _ _ hab hba
  exact absurd hab (lt_asymm hba)

/-- The set of the members of a list. -/
def ofList (l : List α) : SortedSet α where
  elems := l.dedup.insertionSort (· ≤ ·)
  sorted := by
    have hnodup : (l.dedup.insertionSort (· ≤ ·)).Nodup :=
      (l.dedup.perm_insertionSort (· ≤ ·)).nodup_iff.mpr l.nodup_dedup
    have hsorted := l.dedup.pairwise_insertionSort (· ≤ ·)
    exact (hsorted.and hnodup).imp fun h => lt_of_le_of_ne h.1 h.2

@[simp] theorem mem_ofList {l : List α} {a : α} : a ∈ (ofList l).elems ↔ a ∈ l := by
  rw [ofList, List.mem_insertionSort, List.mem_dedup]

/-- Building a set from what it lists gives the set back. -/
theorem ofList_elems (s : SortedSet α) : ofList s.elems = s := by
  have heq : (ofList s.elems).elems = s.elems :=
    eq_of_mem_iff (ofList s.elems).sorted s.sorted fun a => mem_ofList
  cases s
  simpa [ofList] using heq

end SortedSet
