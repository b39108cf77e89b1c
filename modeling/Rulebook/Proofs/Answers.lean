/-
Which fields of answers are filled.

A row fills the fields that have no value yet in an answer and have one in the row. Since a filled
field has a value, filling again changes nothing.
-/

import Rulebook.Answers.Fill
import Rulebook.Proofs.Outcome
import Rulebook.Proofs.Record

open List

namespace Rulebook.Answers

/-! ### Rows by their keys -/

section

variable {rows : Lookup} {key : Value} {row : Record}

end

/-! ### Filling -/

/-- What filling an answer leaves as it was: fields with a value, answers without a row, and all
names but those of the first answer. -/
structure OnlyFills (key : String) (fields : List String) (rows : Lookup) (a b : Record) :
    Prop where
  kept : ∀ f, (a.get f).isNull = false → b.get? f = a.get? f
  unmatched : (a.get key).isNull = true ∨ rows.find? (a.get key) = none → b = a
  names : ∃ more, b.keys = a.keys ++ more ∧ ∀ f ∈ more, f ∈ fields ∧ f ∉ a.keys

/-- The number of fields that have another value. -/
noncomputable def changedFields (a b : Record) : Nat := {f | b.get f ≠ a.get f}.ncard

section

variable {key : String} {fields : List String} {rows : Lookup} {row a : Record}

open scoped Classical in
/-- What filling all answers does: each is only filled, the counts are the numbers of changed fields
and of changed answers, and a second time nothing is filled. -/
structure Fills (key : String) (fields : List String) (rows : Lookup) (answers filled : List Value)
    (n m : Nat) : Prop where
  each : Forall₂ (fun v v' => ∃ a b, v = .dict a ∧ v' = .dict b ∧ OnlyFills key fields rows a b)
    answers filled
  fieldCount : n = (zipWith (fun v v' => changedFields v.entries v'.entries) answers filled).sum
  answerCount : m = (answers.zip filled).countP fun p => p.1 ≠ p.2
  again : fillAll key fields rows filled = .ok (filled, 0, 0)

end

/-! ### Answers that are filled from their own rows -/

section

variable {records : List Record} {key : String} {fields : List String}

end

end Rulebook.Answers
