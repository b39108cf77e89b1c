/-
Comparison of answers.

Texts that are no spelling of null are compared as they are, and an empty text counts as null.
-/

import Rulebook.Grading.Grade
import Rulebook.Proofs.Record
import Rulebook.Script.Program

namespace Rulebook.Grading

@[simp] theorem agrees_self (v) : agrees v v = true := beq_self_eq_true _

theorem not_agrees_bool_null (b) : ¬ agrees (.bool b) .null = true := by
  cases b <;> decide

theorem comparable_str_of_length (h : t.length ≠ 4) : comparable (.str t) = t := by
  have hspelling : ∀ s ∈ nullSpellings, s.length = 4 := by decide
  have hnot : t ∉ nullSpellings := fun hmem => h (hspelling t hmem)
  rw [comparable, Value.text, if_neg hnot]
  exact nofun

theorem agrees_str_iff (ht : t.length ≠ 4) (hu : u.length ≠ 4) :
    agrees (.str t) (.str u) = true ↔ t = u := by
  rw [agrees, comparable_str_of_length ht, comparable_str_of_length hu, beq_iff_eq]

theorem comparable_clearEmpty (r key key') :
    comparable ((Script.clearEmpty r key).get key') = comparable (r.get key') := by
  by_cases hempty : (r.get key).equal (.str "") = true
  · rw [Script.clearEmpty, if_pos hempty]
    by_cases hkey : key' = key
    · subst hkey
      rw [Record.get_put_self, Value.equal_str_iff.mp hempty]
      decide
    · rw [Record.get_put_of_ne hkey]
  · rw [Script.clearEmpty, if_neg hempty]

theorem comparable_foldl_clearEmpty (keys : List String) (r key) :
    comparable ((keys.foldl Script.clearEmpty r).get key) = comparable (r.get key) := by
  induction keys generalizing r with
  | nil => rfl
  | cons k keys ih => rw [List.foldl_cons, ih, comparable_clearEmpty]

theorem agrees_foldl_clearEmpty (keys : List String) (r key v) :
    agrees ((keys.foldl Script.clearEmpty r).get key) v = agrees (r.get key) v := by
  rw [agrees, agrees, comparable_foldl_clearEmpty]

end Rulebook.Grading
