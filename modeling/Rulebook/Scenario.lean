/-
Scenarios: parts of the library run end to end over inputs of a chosen size.
-/

import Rulebook.Candidate
import Rulebook.Grading.Answers
import Rulebook.Graph.Eval
import Rulebook.Native.Pack
import Rulebook.Prose.Prompt
import Rulebook.Script.Document
import Rulebook.Shipped.Rulebook
import Rulebook.Substrate.ClassModel

namespace Rulebook.Scenario

open Shipped

/-! ### Inputs of a chosen size -/

def cycle {α : Type} (items : List α) (n : Nat) : List (α × Nat) :=
  (List.range n).filterMap fun i => (items[i % items.length]?).map fun x => (x, i)

def numbered (id : Value) (i : Nat) : Value := .str (id.text ++ "-" ++ toString i)

def candidateRows (n : Nat) : Except Fault (List Record) :=
  (cycle entered n).mapM fun (e, i) => do
    let row ← e.row
    let row := row.put "LanguageCandidateId" (numbered (row.get "LanguageCandidateId") i)
    let row := row.put "Name" (.str ((row.get "Name").text ++ " #" ++ toString i))
    return row.put "SortOrder" (.int i)

def argumentSteps (n : Nat) : List Record :=
  (cycle (textRecords argumentColumns argumentRows) n).map fun (r, i) =>
    r.put "IsEverythingALanguageId" (.str s!"arg{i}")

def book (n : Nat) : Except Fault Record := do
  return bookWith (← candidateRows n) (argumentSteps (max 1 (n / 4)))

def tables (n : Nat) : Except Fault (List Table) := do
  tablesOf ((← book n).filter fun e => e.2.entries.has "schema")

def answerKey (n : Nat) : Except Fault (List Record) :=
  (cycle (entered.mergeSort fun a b => a.id ≤ b.id) n).mapM fun (e, i) => do
    let answer ← e.answer
    return answer.put "language_candidate_id" (numbered (answer.get "language_candidate_id") i)

def calculatedColumns : List Column := candidateColumns.filter (·.kind = some "calculated")

def calculatedKeys : List String := calculatedColumns.map (Names.snake ·.name)

def blankRecords (n : Nat) : Except Fault (List Record) := do
  return (← answerKey n).map fun r =>
    r.map fun (k, v) => (k, if calculatedKeys.contains k then .null else v)

def sortedPairs (r : Record) : Value :=
  .list ((r.mergeSort fun a b => a.1 ≤ b.1).map fun (k, v) => .list [.str k, v])

def sizeOf (text : String) : Value := .int text.length

/-! ### Sample formulas -/

def formula (text : String) : String :=
  Text.replace (Text.replace text "[" "\x7b\x7b") "]" "\x7d\x7d"

def samples : List String := List.map formula [
  "=AND([HasSyntax], [IsParsed], NOT([CanBeHeld]), NOT([HasIdentity]))",
  "=OR([IsOpenWorld], [IsClosedWorld], [HasSyntax] = TRUE())",
  "=IF([DistanceFromConcept] = 1, \"IsMirrorOf\", \"IsDescriptionOf\")",
  "=IF([DistanceFromConcept] >= 2, \"far\", IF([DistanceFromConcept] <= 0, \"z\", \"near\"))",
  "=IF([HasSyntax], \"yes\")",
  "=\"Is \" & [Name] & \" a language?\"",
  "=[DistanceFromConcept] > 1",
  "=[DistanceFromConcept] < 10",
  "=[DistanceFromConcept] <> -5",
  "=[Name] = \"Foo\"",
  "=\"Foo\" = [Name]",
  "=[HasSyntax] = TRUE()",
  "=[HasSyntax] = FALSE",
  "=[HasSyntax] = [IsParsed]",
  "=NOT([HasSyntax])",
  "=NOT(AND([HasSyntax], [IsParsed]))",
  "=LOWER([Category])",
  "=FIND(\"lang\", LOWER([Category]))",
  "=CAST([SortOrder])",
  "=CAST([HasSyntax])",
  "=CAST([Name])",
  "=CAST(5)",
  "=([DistanceFromConcept] >= 2)",
  "=TRUE",
  "=FALSE()",
  "=42",
  "=\"a\\\"b\" & [Name] & CAST([SortOrder]) & IF([HasSyntax], \"y\", \"n\") & \"$`end\"",
  "=AND([HasSyntax], OR([IsParsed], NOT([CanBeHeld])), [DistanceFromConcept] = 2, [Name] <> \"x\")",
  "=IF(NOT([HasSyntax] = [IsParsed]), [Name] & \" mismatch\", \"\")"]

def malformed : List String := List.map formula [
  "=", "=IF(", "=AND([A]", "=\"abc", "=[A", "=1 +",
  "=)", "=[A] [B]", "=FOO(1)", "=NOT()", "=#"]

def fieldTypes : Record :=
  Shipped.candidateColumns.map fun c => (c.name, .str (c.datatype.getD "string"))

def compiled (text : String) : Except Fault Value := do
  let tokens ← (Formula.tokenize text).mapError (·.fault)
  let e ← Formula.parse text
  let emit := fun (d : Emit.Dialect) => (Emit.render d e).mapError Emit.Error.fault
  return .list [.int tokens.length, .str (← emit Emit.Script.dialect),
    .str (← emit (Emit.Browser.dialect "obj")), .str (← emit (Emit.Struct.dialect "tc" fieldTypes)),
    .list (e.fields.map .str)]

def compileSamples (n : Nat) : Except Fault Value :=
  let texts := (cycle samples n).map Prod.fst ++ malformed
  .ok (.list (texts.map fun t => (compiled t).toOption.getD (.str "err")))

def written (d : Emit.Dialect) (text : String) : Option String :=
  (do (Emit.render d (← Formula.parse text)).mapError Emit.Error.fault : Except Fault _).toOption

def sampleCandidate : Record := [("has_syntax", .bool true), ("is_parsed", .bool false),
  ("can_be_held", .bool false), ("has_identity", .bool false), ("is_open_world", .bool false),
  ("is_closed_world", .bool false), ("name", .str "x"), ("category", .str "LANG"),
  ("sort_order", .int 5), ("distance_from_concept", .int 2)]

def graphValue (record : Record) (field text : String) : Except Fault Value := do
  return (← Graph.evaluate (Graph.ofExpr (← Formula.parse text) field) record).1

/-! ### Scenarios that evaluate formulas over candidates -/

def calculations : List (String × String) :=
  calculatedColumns.map fun c => (c.name, c.formulaText)

def graphs (n : Nat) : Except Fault Value := do
  let rows ← (← blankRecords n).mapM fun r => do
    let values ← calculations.mapM fun (name, text) => do
      return (name, ← graphValue r name text)
    return sortedPairs (r ++ values)
  let shown ← samples.mapM (graphValue sampleCandidate "F")
  return .list (rows ++ shown)

def evaluatedRow (d : Sheet.Dialect) (row : Record) : Except Fault Record :=
  calculations.foldlM (fun r (name, text) => do
    return r.put name (← Sheet.evalOn d r (.str text))) row

def exportedRows (n : Nat) : Except Fault Value := do
  return .list (← (← candidateRows n).mapM fun r => do
    return sortedPairs (← evaluatedRow Sheet.exportDialect r))

def cellsOf (letters : List (String × String)) (row : Record) : Record :=
  letters.map fun (name, letter) => (letter, row.get name)

def cellValues (d : Sheet.Dialect) (rows : List Record) : Except Fault (List Value) := do
  let letters := Sheet.columnMap (Shipped.candidateColumns.map Column.name)
  let values ← rows.zipIdx.mapM fun (row, i) => calculations.mapM fun (_, text) =>
    Sheet.evalOn d (cellsOf letters row) (.str (Sheet.toCells letters (toString (i + 2)) text))
  return values.flatten

def sheets (n : Nat) : Except Fault Value := do
  let rows ← candidateRows n
  let preview ← rows.mapM fun r => do
    return sortedPairs (← evaluatedRow Sheet.previewDialect r)
  return .list (preview ++ (← cellValues Sheet.flatDialect rows)
    ++ (← cellValues Sheet.cellDialect rows))

def viewed (r : Record) : Candidate where
  id := r.get "language_candidate_id"
  name := r.get "name"
  category := r.get "category"
  canBeHeld := r.get "can_be_held"
  meaningIsSerialized := r.get "has_linear_decoding_pressure"
  requiresParsing := r.get "is_parsed"
  isOntologyDescriptor := r.get "is_stable_ontology_reference"
  hasSyntax := r.get "has_syntax"
  chosen := r.get "is_language"
  sortOrder := r.get "sort_order"
  hasIdentity := r.get "has_identity"
  distance := r.get "distance_from_concept"

def argumentNames : List Value :=
  (List.range 5).map fun i =>
    Record.get (argumentOf [("Name", .str s!"N{i}")]) "name"

def views (n : Nat) : Except Fault Value := do
  let pairs ← (← blankRecords n).mapM fun r => do
    let c := viewed r
    return [(← c.view).get "family_feud_mismatch", c.isLanguage]
  return .list (pairs.flatten ++ argumentNames)

def packing (n : Nat) : Except Fault Value := do
  let shape := Native.shape (← Native.typedNames Shipped.candidateColumns)
  let packed ← (← blankRecords n).mapM (Native.pack shape)
  return .list [.int shape.total, .int (Numeral.total (packed.map (·.bytes.length))),
    .int (Numeral.total (packed.map (·.texts.length)))]

/-! ### Scenarios that generate documents -/

def ontology (n : Nat) : Except Fault Value := do
  let tables ← tables n
  let query := fun text => ((written Emit.Query.dialect text).map Value.str).getD .null
  return .list [sizeOf (← Ontology.classes tables), sizeOf (← Ontology.individuals tables),
    sizeOf (Ontology.rules tables), .list (samples.map query)]

def constraintProbes : List String := ["-6 / 2", "self.name.toUpper()", "self.name.size()",
  "self.name.substring(0, 2)", "self.name.indexOf('zzz')", "true",
  "if false then 'y' else 'n' endif", "4 / 4"]

def probeValues (records : List Record) : Except Fault (List Value) := do
  match records with
  | [] => throw ⟨.index, "list index out of range"⟩
  | r :: _ => constraintProbes.mapM (Constraint.evaluate (Constraint.attributes r))

def classModel (n : Nat) : Except Fault Value := do
  let tables ← tables n
  let constraints ← Constraint.document tables
  let records ← blankRecords n
  let (done, _) := Constraint.completeRecords (Constraint.readClasses constraints)
    "language_candidates" (records.map .dict)
  let computed := (← done).map fun r => sortedPairs (r.filter fun e => calculatedKeys.contains e.1)
  return .list [sizeOf (← ClassModel.classDiagram tables),
    sizeOf (← ClassModel.objectDiagram tables),
    sizeOf (Json.write .pretty (← ClassModel.modelValue tables)), sizeOf constraints,
    .list (computed ++ (← probeValues records)
      ++ (samples.filterMap (written Emit.Constraint.dialect)).map .str)]

def script (n : Nat) : Except Fault Value := do
  let sections ← Script.sectionsOf (← book n)
  let program := Script.Program.ofSections sections
  let done ← (← blankRecords n).mapM (program.run (some "language_candidates"))
  return .list [sizeOf (Script.document sections),
    .list (done.map fun r => r.get "predicted_answer")]

open Schema

/-! ### Scenarios about schemas and grades -/

def wideField (i : Nat) : Record :=
  let name := "f" ++ toString i
  let kind := if i % 3 = 0 then "calculated" else "raw"
  [("name", .str name), ("datatype", .str "string"), ("type", .str kind),
    ("Description", .str s!"d{i}")]
  ++ (if i % 3 = 0 then [("formula", .str "=\x7b\x7bf1\x7d\x7d > 10")] else [])

def wideTable (n : Nat) : Value :=
  let row : Record := (List.range n).map fun i => ("f" ++ toString i, .str s!"v{i}")
  .dict [("schema", .list ((List.range n).map fun i => .dict (wideField i))),
    ("data", .list [.dict row])]

def emptyTable : Value := .dict [("schema", .list []), ("data", .list [])]

def schemas (n : Nat) : Except Fault Value := do
  let book := (← book 1) ++ [("Big", wideTable n), ("EmptyEntity", emptyTable)]
  let schema ← schemaOf .loose book "Big"
  let data ← dataOf book "Big"
  let columns ← computedColumns schema
  let rows ← (← data.iterate).mapM fun r => r.table "get"
  let values := rows.flatMap fun r => columns.map r.get
  return .list ([.list ((entities book).map .str),
    .int (← Substrate.calculatedFields schema).length, .int (← Prose.enteredFields schema).length,
    ((← primaryKey schema).map Value.str).getD .null, .list (columns.map .str),
    .int (← schema.size), .int (← data.size), sizeOf (← Prose.schemaText schema),
    .list ((← Prose.computedNames schema).map .str)] ++ values)

def entity : String := "language_candidates"

def flawed (answers : List Record) : List Record :=
  answers.zipIdx.map fun (r, i) => if i % 3 = 2 then r.put "question" (.str "?") else r

def leftFiles (key : List Record) : Record :=
  let all := fun (rs : List Record) => Value.list (rs.map .dict)
  let answers := fun substrate => s!"execution-substrates/{substrate}/test-answers"
  [(s!"testing/blank-tests/{entity}.json", all key),
    (answers "csv" ++ s!"/{entity}.json", all (flawed key)),
    (answers "err" ++ s!"/{entity}.json", .str "broken"),
    (answers "legacy" ++ ".json", all key),
    (answers "owl" ++ s!"/{entity}.json", all key),
    (answers "python" ++ s!"/{entity}.json", all key)]

def grades (n : Nat) : Except Fault Value := do
  let key ← answerKey n
  let book ← book n
  let start := (Workspace.empty "/project" "/project").withFiles "/project" (leftFiles key)
  let keys : Record := [(entity, .list (key.map .dict))]
  let shown ← ["csv", "err", "legacy", "owl", "python"].mapM fun substrate => do
    let g ← (start.perform (Grading.gradeSubstrate substrate keys book)).1
    return Value.list [.str substrate, .int g.passed, .int g.failed]
  return .list shown

end Rulebook.Scenario

namespace Rulebook

structure Scenario where
  parameter : String
  run : Nat → Except Fault Value

namespace Scenario

def all : List (String × Scenario) := [
  ("formula_parser_compile", ⟨"n_formulas", compileSamples⟩),
  ("owl_generate", ⟨"n_rows", ontology⟩),
  ("uml_generate_and_interpret", ⟨"n_rows", classModel⟩),
  ("python_generate_and_compute", ⟨"n_rows", script⟩),
  ("erb_sdk_views", ⟨"n_rows", views⟩),
  ("explain_dag_evaluate", ⟨"n_rows", graphs⟩),
  ("xlsx_formula_engines", ⟨"n_rows", sheets⟩),
  ("csv_generate", ⟨"n_rows", exportedRows⟩),
  ("test_orchestrator_grade", ⟨"n_rows", grades⟩),
  ("shared_and_english_schema", ⟨"n_fields", schemas⟩),
  ("binary_take_test_pack", ⟨"n_rows", packing⟩)]

def runNamed (name : String) (parameters : Record) : Except Fault Value := do
  match all.lookup name with
  | none => throw ⟨.unsupported, name⟩
  | some s =>
    match parameters.get s.parameter with
    | .int n => s.run n.toNat
    | v => throw (.ofType s!"'{v.typeName}' object cannot be interpreted as an integer")

end Scenario

end Rulebook
