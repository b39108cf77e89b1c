/-
The YAML substrate: a schema describes the calculated fields.
-/

import Rulebook.Candidate
import Rulebook.Script.Document
import Rulebook.Shipped.Candidates
import Rulebook.Substrate.Basic

namespace Rulebook.Substrate.Script

open Workspace Substrate

/-! ### The script substrate -/

def generate : Run Unit := do
  if ← cleaning ["erb_calc.py"] "Python substrate: Removes generated calculation library" then
    return
  let book ← introduce "Python Execution Substrate - Multi-Entity Formula Compiler" "compile"
  say "Generating erb_calc.py..."
  let sections ← Script.sectionsOf book
  for warning in sections.flatMap Script.Section.warnings do
    say warning
  writeGenerated (Path.join (← get).here "erb_calc.py") (Script.document sections)
  blankLine
  heading 70 "Generation complete!"

def completeFile (source target entity : String) : Run Nat := do
  let records ← (← readJson source).iterate
  let done ← (records.mapM fun r => do
    Value.dict <$> Shipped.candidateProgram.run (some entity) (← r.toRecord) :
    Except Fault (List Value))
  writeJson target (.list done)
  return done.length

/-- Answers all tests; `announce` runs between the preparations and the tests. -/
def answerAll (name : String) (announce : Run Unit) : Run Unit := do
  let here := (← get).here
  let folder := Path.joinAll here ["..", "..", "testing", "blank-tests"]
  let target := Path.join here "test-answers"
  requireFolder folder
  makeFolder target true
  announce
  let counts ← (← testFiles folder false).mapM fun file => do
    let n ← completeFile (Path.join folder file) (Path.join target file) (entityOf file)
    say s!"  -> {entityOf file}: {n} records"
    return n
  sayProcessed name counts

def answer : Run Unit := answerAll "Python" (pure ())

def answerSingle : Run Unit := do
  requireFile (Path.join (← get).here "test-answers.json")
  throw (.ofType "process_entity() missing 1 required positional argument: 'entity_name'")

def showFirst : Run Unit := do
  let path := Path.join (← get).here rulebookPath
  if !(← isThere path) then
    say s!"Rulebook not found at: {path}"
    return
  let book ← (← readJson path).table "get"
  let (candidates, arguments) ← loadCandidates book
  say s!"Loaded {candidates.length} language candidates"
  say s!"Loaded {arguments.length} argument steps"
  blankLine
  match ← firstBySortOrder candidates with
  | none => return
  | some c =>
    say s!"First candidate: {c.name.text}"
    for (k, v) in ← c.view do
      say s!"  {k}: {v.text}"
where
  rank (c : Candidate) : Value := if c.sortOrder.truthy then c.sortOrder else .int 999
  firstBySortOrder (cs : List Candidate) : Except Fault (Option Candidate) :=
    match cs with
    | [] => .ok none
    | c :: rest => some <$> rest.foldlM (fun best c => do
        return if ← Value.order .lt (rank c) (rank best) then c else best) c

end Rulebook.Substrate.Script

namespace Rulebook.Substrate.Yaml

open Workspace Substrate

structure Leveled where
  level : Value
  name : String
  entries : Record

def insert (f : Leveled) : List Leveled → Except Fault (List Leveled)
  | [] => .ok [f]
  | g :: rest => do
    if ← Value.order .lt f.level g.level then return f :: g :: rest
    else return g :: (← insert f rest)

def sortByLevel (fields : List Leveled) : Except Fault (List Leveled) :=
  fields.foldlM (fun sorted f => insert f sorted) []

def fieldsOf (entity : Value) : Except Fault (List Leveled) := do
  if !(← entity.holds "calculated_fields") then return []
  let fields ← (← entity.member "calculated_fields").table "items"
  sortByLevel (fields.filterMap fun (name, v) =>
    match v with
    | .dict es => some ⟨Record.getD es "dag_level" (.int 99), name, es⟩
    | _ => none)

def calculatedFields (schema : Value) : Except Fault (List Leveled) := do
  if !(← schema.holds "entities") then return []
  let entities ← (← schema.member "entities").table "items"
  return (← entities.mapM fun e => fieldsOf e.2).flatten

def preview (f : Leveled) : String :=
  let text := Text.trim (Text.replace (f.entries.getD "formula" (.str "N/A")).text "\n" " ")
  if 50 < text.length then Text.takeFront text 47 ++ "..." else text

def describeSchema : Run Unit := do
  let w ← get
  let path := Path.join w.here "schema.yaml"
  if w.services.schemaReader && (← isThere path) then
    let fields ← calculatedFields (← readJson path)
    say s!"YAML substrate: Loaded schema with {fields.length} calculated fields"
    for f in fields.take 5 do
      say s!"  - {f.name}: {preview f}"
    if 5 < fields.length then say ("  ... and " ++ toString (fields.length - 5) ++ " more")

def startUp : Run Unit := do
  let w ← get
  if w.standalone && !w.services.schemaReader then
    say "Warning: PyYAML not installed. Schema details will not be logged."

def answer : Run Unit := do
  startUp
  Script.answerAll "YAML" describeSchema

def answerSingle : Run Unit := do
  let path := Path.join (← get).here "test-answers.json"
  requireFile path
  describeSchema
  let data ← readJson path
  let count ← data.size
  say s!"YAML substrate: Processing {count} records..."
  let records ← ((← data.iterate).mapM Value.toRecord : Except Fault (List Record))
  writeJson path (.list (records.map .dict))
  say s!"YAML substrate: Saved results to {path}"

def generated : List String := ["test-answers.json", "test-results.md"]

def clean : Run Unit := do
  let done ← cleaning generated
    "YAML substrate: Removes test outputs (no code generation - uses shared erb_calc.py)"
  if !done then
    say "YAML substrate clean script"
    say "Usage: python3 clean.py --clean"
    blankLine
    say "Files that will be removed:"
    for file in generated do
      say s!"  - {file}"

end Rulebook.Substrate.Yaml
