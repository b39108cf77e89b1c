/-
The graph substrate: every answer comes with an explanation of how it was found.
-/

import Rulebook.Graph.Spec
import Rulebook.Substrate.Basic

namespace Rulebook.Substrate.Graph

open Workspace Substrate

def generate : Run Unit := do
  if ← cleaning ["generated/explain_spec.json"]
      "ExplainDAG substrate: Removes generated spec files" then
    return
  let book ← introduce "ExplainDAG Execution Substrate - AST Template Generator" "template"
  say "Generating explain_spec.json..."
  let spec ← Graph.Spec.ofBook book
  for warning in spec.entities.flatMap fun e => e.2.warnings do
    say warning
  let folder := Path.join (← get).here "generated"
  makeFolder folder false
  let path := Path.join folder "explain_spec.json"
  writeJson path spec.toValue
  say s!"Wrote: {path}"
  blankLine
  say "Template Summary:"
  for (entity, s) in spec.entities do
    let broken := s.entries.filter fun e => e.2 matches .broken ..
    say s!"  {entity}: {s.entries.length} templates, {broken.length} errors"
  blankLine
  heading 70 "Generation complete!"

def planFor (entities : Record) (bookHash : Value) (entity : String) :
    Except Fault (Option Graph.Plan) :=
  match entities.find? fun e => Names.snake e.1 = Names.snake entity with
  | none => .ok none
  | some (_, spec) => do
    let plan ← Graph.Plan.ofValue spec
    return some { plan with bookHash := bookHash }

def answerFile (plan : Option Graph.Plan) (source answers explanations entity : String) :
    Run (Option Nat) := do
  let records ← readJson source
  match plan with
  | none =>
    writeJson answers records
    let n ← records.size
    say s!"  -> {entity}: {n} records (no calculated fields)"
    return none
  | some p =>
    let rows ← records.iterate
    let done ← p.run entity rows
    writeJson answers (.list (done.map (.dict ·.1)))
    writeText explanations (String.join (done.map fun d => Json.write .line d.2 ++ "\n"))
    say s!"  -> {entity}: {rows.length} records with explanations"
    return some rows.length

def answer : Run Unit := do
  let here := (← get).here
  let folder := Path.joinAll (Path.parent (Path.parent here)) ["testing", "blank-tests"]
  let answers := Path.join here "test-answers"
  let explanations := Path.join here "test-explanations"
  let specPath := Path.joinAll here ["generated", "explain_spec.json"]
  if !(← isThere specPath) then
    say s!"Error: {specPath} not found. Run inject-into-explain-dag.py first."
    quit 1
  let spec ← (← readJson specPath).table "get"
  let entities ← (spec.getD "entities" (.dict [])).table "keys"
  let bookHash := (← (spec.getD "rulebook" (.dict [])).table "get").getD "rulebook_hash" (.str "")
  makeFolder answers false
  makeFolder explanations false
  let mut total := 0
  let mut count := 0
  for file in ← testFiles folder true do
    let entity := entityOf file
    let plan ← planFor entities bookHash entity
    match ← answerFile plan (Path.join folder file) (Path.join answers file)
        (Path.join explanations (entity ++ ".jsonl")) entity with
    | none => pure ()
    | some n =>
      total := total + n
      count := count + 1
  say s!"ExplainDAG substrate: Processed {count} entities, {total} total records"
  say s!"Explanations written to: {explanations}"

end Rulebook.Substrate.Graph
