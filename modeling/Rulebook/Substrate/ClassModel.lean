/-
The class model substrate: answers are derived by evaluating derivation rules.
-/

import Rulebook.Constraint.Document
import Rulebook.Substrate.Ontology

namespace Rulebook.ClassModel

open Text

/-! ### Class and object diagrams -/

def valueText : Value → String
  | .null => "null"
  | .bool b => if b then "true" else "false"
  | .int n => toString n
  | .float x => Numeral.floatText x
  | .nan _ => Numeral.floatText Numeral.notANumber
  | v =>
    let s := v.text
    let s := if s.length > 30 then takeFront s 27 ++ "..." else s
    "\"" ++ s ++ "\""

def classLines (t : Table) : Except Fault (List String) := do
  let stored ← (t.columns.filter fun c => !c.isCalculated).mapM fun c => do
    let type ← c.declaredType
    return "  +" ++ (← c.requiredName) ++ ": " ++ type.classType
  let derived ← (t.columns.filter Column.isCalculated).mapM fun c => do
    let type ← c.declaredType
    return "  /" ++ (← c.requiredName) ++ s!": {type.classType}  \x7bderived\x7d"
  return [s!"class {t.name} \x7b"] ++ stored ++ ["  --"] ++ derived ++ ["\x7d", ""]

def classDiagram (tables : List Table) : Except Fault String := do
  let classes ← tables.mapM classLines
  return join "\n"
    (["@startuml", "skinparam classAttributeIconSize 0", ""] ++ classes.flatten ++ ["@enduml"])

def objectLines (t : Table) (index : Nat) (row : Value) : Except Fault (List String) := do
  let entries ← row.table "get"
  let id := t.name ++ "_" ++ toString index
  let slots := (t.columns.filter fun c => !c.isCalculated).filterMap fun c =>
    let v := entries.get c.name
    if v.isNull then none else some s!"  {c.name} = {valueText v}"
  return ["object \"" ++ (entries.getD "Name" (.str id)).text ++ s!"\" as {id} \x7b"]
    ++ slots ++ ["\x7d", ""]

def objectDiagram (tables : List Table) : Except Fault String := do
  let objects ← tables.mapM fun t =>
    t.rows.zipIdx.mapM fun r => objectLines t r.2 r.1
  return join "\n" (["@startuml", ""] ++ objects.flatten.flatten ++ ["@enduml"])

def attributeValue (c : Column) : Value :=
  .dict ([("name", c.entries.getD "name" (.str "")),
    ("type", c.entries.getD "datatype" (.str "string"))] ++
    (if c.isDerived then [("formula", c.formula)] else []))

def classValue (t : Table) : Value :=
  .dict [("attributes", .list ((t.columns.filter fun c => !c.isDerived).map attributeValue)),
    ("derived", .list ((t.columns.filter Column.isDerived).map attributeValue))]

def instanceValue (t : Table) (index : Nat) (row : Value) : Except Fault Value := do
  let entries ← row.table "get"
  return .dict [("class", .str t.name), ("id", .str (t.name ++ "_" ++ toString index)),
    ("values", .dict (Record.ofEntries ((t.columns.filter fun c => !c.isCalculated).map fun c =>
      (c.name, entries.get c.name))))]

def modelValue (tables : List Table) : Except Fault Value := do
  let instances ← tables.mapM fun t => t.rows.zipIdx.mapM fun r => instanceValue t r.2 r.1
  return .dict [("classes", .dict (tables.map fun t => (t.name, classValue t))),
    ("instances", .list instances.flatten)]

end Rulebook.ClassModel

namespace Rulebook.Substrate.ClassModel

open Workspace Substrate

def generate : Run Unit := do
  if ← cleaning ["class-diagram.puml", "objects.puml", "model.json", "constraints.ocl",
      "test-answers.json", "test-results.md"]
      "UML substrate: Removes generated PlantUML diagrams, model, and OCL constraints" then
    return
  heading 70 "UML Execution Substrate - Formula-to-OCL Compiler"
  blankLine
  say "Loading rulebook..."
  let book ← (← requireRulebook "ERROR").table "items"
  let tables := Ontology.describedTables book
  Ontology.announce tables
  let read := tablesOf tables
  Ontology.writePart "class-diagram.puml" "PlantUML class diagram"
    (read >>= ClassModel.classDiagram)
  Ontology.writePart "objects.puml" "PlantUML object diagram"
    (read >>= ClassModel.objectDiagram)
  Ontology.writePart "model.json" "structured model"
    (do return Json.write .pretty (← ClassModel.modelValue (← read)))
  Ontology.writePart "constraints.ocl" "OCL derive expressions" (read >>= Constraint.document)
  blankLine
  heading 70 "Generation complete!"

def answerFile (classes : Constraint.ClassTable) (source target entity : String) : Run Nat := do
  let rows ← (← readJson source).iterate
  let (done, warnings) := Constraint.completeRecords classes entity rows
  for warning in warnings do
    say warning
  let done ← done
  writeJson target (.list (done.map .dict))
  say s!"  -> {entity}: {done.length} records (via OCL)"
  return done.length

def ruleCount (classes : Constraint.ClassTable) : Nat :=
  Numeral.total (classes.map fun c => c.2.length)

def answer : Run Unit := do
  let here := (← get).here
  let folder ← blankTests
  let target := Path.join here "test-answers"
  let rules := Path.join here "constraints.ocl"
  if !(← isThere rules) then
    say s!"Error: {rules} not found"
    say "Run: python inject-into-uml.py first"
    quit 1
  let classes := Constraint.readClasses (← readText rules)
  makeFolder target true
  heading 70 "UML Execution Substrate - Multi-Entity Test Execution (OCL)"
  blankLine
  say s!"Loaded {(ruleCount classes)} OCL constraints from constraints.ocl"
  blankLine
  let counts ← (← testFiles folder false).mapM fun file =>
    answerFile classes (Path.join folder file) (Path.join target file) (entityOf file)
  sayProcessed "\nUML" counts
  say (Text.times 70 "=")

def answerInstance (rules : Constraint.Derivations) (values : Record) : Record × List String :=
  let start := Record.ofEntries (values.map fun e => (Names.snake e.1, e.2))
  let (record, warnings) := Constraint.deriveRecord (Constraint.evaluationOrder rules)
    (Constraint.attributes values) start
  let cleared := if (record.get "family_feud_mismatch").equal (.str "") then
      record.put "family_feud_mismatch" .null
    else record
  (cleared, warnings)

def answerSingle : Run Unit := do
  let here := (← get).here
  let target := Path.join here "test-answers.json"
  heading 70 "UML Execution Substrate - Test Execution"
  blankLine
  let model := Path.join here "model.json"
  let rules := Path.join here "constraints.ocl"
  for path in [model, rules] do
    if !(← isThere path) then
      say s!"ERROR: Required file not found: {path}"
      say "Run: python inject-into-uml.py first"
      quit 1
  say "Loading model..."
  let instances ← (← readJson model).member "instances"
  let count ← instances.size
  say s!"   Loaded {count} instances"
  say "\nLoading OCL constraints..."
  let classes := Constraint.readClasses (← readText rules)
  say s!"   Loaded {(ruleCount classes)} derived attribute definitions"
  say "\nEvaluating OCL expressions..."
  say "   (This is where computation happens - in the OCL interpreter)"
  let mut results := #[]
  for i in ← instances.iterate do
    let kind ← i.member "class"
    if kind.equal (.str "LanguageCandidates") then
      let values ← (← i.member "values").table "items"
      let (record, warnings) :=
        answerInstance ((classes.lookup "LanguageCandidates").getD []) values
      for warning in warnings do
        say warning
      results := results.push (Value.dict record)
  say s!"   Evaluated {results.size} records"
  say s!"\nSaving results to: {target}"
  writeJson target (.list results.toList)
  blankLine
  heading 70 "Test execution complete!"

end Rulebook.Substrate.ClassModel
