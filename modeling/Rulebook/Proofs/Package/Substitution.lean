/-
Computed columns inside the formulas of a generated package.

A variable that holds a computed column takes the place of its member in the text of a formula.
`Loses` describes a change of text by the dots that go.
-/

import Rulebook.Package.Document
import Rulebook.Proofs.Outcome
import Rulebook.Proofs.Text

namespace Rulebook.Package

open List Text

variable {p : Prop} {member old new cs cs' ds : List Char}
  {found : List Char → Option (List Char × List Char)}

/-- A text that loses dots, if at all, where a member occurs in it. -/
def MayLose (member cs cs' : List Char) : Prop :=
  cs' = cs ∨ member <:+: cs ∧ cs'.count '.' < cs.count '.'

theorem MayLose.le (h : MayLose member cs cs') : cs'.count '.' ≤ cs.count '.' := by
  rcases h with rfl | ⟨_, h⟩
  · exact le_rfl
  · exact h.le

theorem MayLose.trans (h : MayLose member cs cs') (h' : MayLose member cs' ds) :
    MayLose member cs ds := by
  rcases h with rfl | ⟨hm, h⟩
  · exact h'
  · exact .inr ⟨hm, h'.le.trans_lt h⟩

end Rulebook.Package
