/-
IrohBeam/Turns.lean

A log that several parties write in turns.

Each party has at most one turn, and what it adds to the log it adds during
that turn.  `Record order part log` says so of the parties that have had their
turn, in the order of the turns, and of the part each of them has added: the
log is these parts one after the other, so no part is split by another
(`Record.split`).

A turn begins behind all others (`Record.begin`) and only the last party adds
to the log (`Record.extend`).  Where every party has a text to add and adds a
prefix of it, and all but the last are done, the log is the texts in order and
the prefix the last one has come to (`Record.log_of_done`).

Nothing here mentions a particular system.
-/
import Mathlib.Data.List.Nodup
import Mathlib.Logic.Function.Basic

namespace Turns

variable {ι α : Type*} {order : List ι} {part : ι → List α} {log : List α} {i : ι}

/-- The parties of `order` have had their turns in that order, and each of them
has added its part to the log. -/
structure Record (order : List ι) (part : ι → List α) (log : List α) : Prop where
  nodup : order.Nodup
  outside : ∀ i, i ∉ order → part i = []
  log : log = order.flatMap part

theorem Record.init (hpart : ∀ i, part i = []) : Record [] part ([] : List α) where
  nodup := List.nodup_nil
  outside i _ := hpart i
  log := rfl

/-! ### Turns -/

/-- A party that has not had a turn begins one: it has added nothing yet. -/
theorem Record.begin (h : Record order part log) (hi : i ∉ order) :
    Record (order ++ [i]) part log where
  nodup := by
    rw [← List.concat_eq_append]
    exact h.nodup.concat hi
  outside j hj := h.outside j fun hmem => hj (List.mem_append_left _ hmem)
  log := by
    rw [List.flatMap_append, List.flatMap_singleton, h.outside i hi, List.append_nil]
    exact h.log

/-- The last of the order, as its end. -/
theorem eq_append_of_getLast? (h : order.getLast? = some i) : order = order.dropLast ++ [i] :=
  (List.dropLast_append_getLast? i h).symm

/-- The part of another party does not matter to a list without it. -/
theorem flatMap_update_of_notMem [DecidableEq ι] {l : List ι} (hi : i ∉ l) (xs : List α) :
    l.flatMap (Function.update part i xs) = l.flatMap part := by
  apply List.flatMap_congr
  intro j hj
  apply Function.update_of_ne
  rintro rfl
  exact hi hj

/-- **The last party adds to its part**, and so to the end of the log. -/
theorem Record.extend [DecidableEq ι] (h : Record order part log)
    (hlast : order.getLast? = some i) (xs : List α) :
    Record order (Function.update part i (part i ++ xs)) (log ++ xs) where
  nodup := h.nodup
  outside j hj := by
    rw [Function.update_of_ne]
    · exact h.outside j hj
    · rintro rfl
      exact hj (List.mem_of_getLast? hlast)
  log := by
    have hsplit := eq_append_of_getLast? hlast
    -- the party is at the end and, having one turn, nowhere else
    have hi : i ∉ order.dropLast := by
      have hnodup := h.nodup
      rw [hsplit, List.nodup_append] at hnodup
      intro hmem
      exact hnodup.2.2 i hmem i List.mem_cons_self rfl
    rw [h.log]
    rw [hsplit, List.flatMap_append, List.flatMap_append, flatMap_update_of_notMem hi,
      List.flatMap_singleton, List.flatMap_singleton, Function.update_self, List.append_assoc]

/-! ### What the log is -/

/-- **No part is split**: what comes before it in the log is added by the
parties before, and what comes after it by the parties after. -/
theorem Record.split (h : Record order part log) (hi : i ∈ order) :
    ∃ before after, order = before ++ i :: after ∧
      log = before.flatMap part ++ part i ++ after.flatMap part := by
  obtain ⟨before, after, hsplit⟩ := List.append_of_mem hi
  refine ⟨before, after, hsplit, ?_⟩
  rw [h.log, hsplit, List.flatMap_append, List.flatMap_cons, List.append_assoc]

/-- A party that is not the last has added all it will: the log is the texts of
the parties that are done, and what the last one has added of its own. -/
theorem Record.log_of_done (h : Record order part log) {text : ι → List α}
    (hdone : ∀ j ∈ order.dropLast, part j = text j) (hlast : order.getLast? = some i) :
    log = order.dropLast.flatMap text ++ part i := by
  rw [h.log]
  nth_rewrite 1 [eq_append_of_getLast? hlast]
  rw [List.flatMap_append, List.flatMap_singleton, List.flatMap_congr hdone]

end Turns
