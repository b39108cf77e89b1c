/-
The answers of a substrate.

A substrate leaves one file of answers for each entity, or a single file, whose entity is the first
one whose primary key its first record has.
-/

import Rulebook.Grading.Grade
import Rulebook.Substrate.Basic

namespace Rulebook.Grading

open Schema Workspace

/-! ### Blank tests -/

def blankRecord (columns : List String) (r : Record) : Record :=
  r.map fun (k, v) => (k, if columns.contains k then .null else v)

structure BlankTest where
  entity : String
  key : String
  columns : List String
  records : List Record

def blankTest (book : Record) (entity : String) (answers : Value) :
    Except Fault (Option BlankTest) := do
  let schema ← schemaOf .close book entity
  let columns ← computedColumns schema
  match ← primaryKey schema, columns with
  | some key, _ :: _ =>
    let records ← (← answers.iterate).mapM Value.toRecord
    return some ⟨entity, key, columns, records.map (blankRecord columns)⟩
  | _, _ => return none

def BlankTest.toValue (t : BlankTest) : Value := .list (t.records.map .dict)

def BlankTest.metadata (t : BlankTest) : Value :=
  .dict [("primary_key", .str t.key), ("computed_columns", .list (t.columns.map .str)),
    ("record_count", .int t.records.length)]

def testingFolder : Run String := return Path.join (← get).root "testing"

def blankFolder : Run String := return Path.join (← testingFolder) "blank-tests"

def freshFolder (path : String) : Run Unit := do
  if ← isThere path then
    if ← isFile path then throw (fileFault .notDirectory 20 "Not a directory" path)
    let p ← locate path
    modify (·.withoutTree p)
  makeFolder path true

def writeBlankTest (book : Record) (folder : String) (key : String × Value) :
    Run (Option BlankTest) := do
  let (entity, answers) := key
  match ← blankTest book entity answers with
  | none =>
    say s!"  -> {entity}: No computed columns (skipping blank test)"
    return none
  | some t =>
    writeJson (Path.join folder (entity ++ ".json")) t.toValue
    say (s!"  -> {entity}: Nulled {t.columns.length} columns: "
      ++ Text.join ", " t.columns)
    return some t

def writeBlankTests (keys book : Record) : Run (List BlankTest) := do
  say "Step 2: Generating blank tests..."
  let folder ← blankFolder
  freshFolder folder
  let tests ← keys.filterMapM (writeBlankTest book folder)
  writeJson (Path.join (← testingFolder) "_metadata.json")
    (.dict (tests.map fun t => (t.entity, t.metadata)))
  say s!"  -> Entity metadata: {tests.length} entities -> testing/_metadata.json"
  return tests

def substratesFolder : Run String := return Path.join (← get).root "execution-substrates"

def substrateFolder (substrate : String) : Run String :=
  return Path.join (← substratesFolder) substrate

def substrates : Run (List String) := do
  let folder ← substratesFolder
  let names ← namesEnding folder ""
  names.filterM fun n => do return !Text.startsWith n "." && (← isFolder (Path.join folder n))

def jsonFiles (folder : String) : Run (List String) := do
  return (← namesEnding folder ".json").filter (!Text.startsWith · ".")

def readableFiles (folder : String) : Run Record := do
  let mut found : Record := []
  for file in ← jsonFiles folder do
    match ← attempted (readJson (Path.join folder file)) with
    | .ok v => found := found.put (Substrate.entityOf file) v
    | .error _ => pure ()
  return found

def firstItem : Value → Except Fault Value
  | .list (x :: _) => .ok x
  | .str s => match s.toList with
    | c :: _ => .ok (.str c.toString)
    | [] => .error ⟨.index, "string index out of range"⟩
  | .list [] => .error ⟨.index, "list index out of range"⟩
  | .dict _ => .error ⟨.key, "0"⟩
  | v => .error (.ofType ("'" ++ v.typeName ++ "' object is not subscriptable"))

def matching (book : Record) (sample : Value) : List String → Except Fault (Option String)
  | [] => .ok none
  | entity :: rest => do
    match ← primaryKey (← schemaOf .close book entity) with
    | some key => if key ≠ "" && (← sample.holds key) then return some entity
    | none => pure ()
    matching book sample rest

def singleAnswers (book : Record) (path : String) : Run Record := do
  let answers ← readJson path
  if !answers.truthy then return []
  let sample ← firstItem answers
  let entities := (← jsonFiles (← blankFolder)).map Substrate.entityOf
  match ← matching book sample entities, entities with
  | some entity, _ => return [(entity, answers)]
  | none, entity :: _ => return [(entity, answers)]
  | none, [] => return []

def answersOf (book : Record) (substrate : String) : Run Record := do
  let folder ← substrateFolder substrate
  let answers ← readableFiles (Path.join folder "test-answers")
  if !answers.isEmpty then return answers
  let path := Path.join folder "test-answers.json"
  if !(← isThere path) then return []
  match ← attempted (singleAnswers book path) with
  | .ok answers => return answers
  | .error _ => return []

def prepare (substrate : String) : Run Nat := do
  freshFolder (Path.join (← substrateFolder substrate) "test-answers")
  let folder ← blankFolder
  if ← isFile folder then throw (fileFault .notDirectory 20 "Not a directory" folder)
  if !(← isFolder folder) then throw (noFile folder)
  return (← Substrate.testFiles folder true).length

def gradeSubstrate (substrate : String) (keys book : Record) : Run Grades := do
  let answers ← answersOf book substrate
  gradeAll substrate keys book answers

/-!
### The history of test runs

A run that a user skipped leaves no trace; a run counts as successful only when every field passed.
-/

structure TestRun where
  succeeded : Bool
  tested : Int
  passed : Int
  failed : Int
  elapsed : Value
  error : Option String
  skipped : Bool

namespace TestRun

def score (t : TestRun) : Score := ⟨t.passed, t.tested⟩

def isSuccess (t : TestRun) : Bool := t.succeeded && t.score.isPerfect

def record (t : TestRun) : Value :=
  .dict ([("status", .str (if t.succeeded then "success" else "failure")),
    ("duration_seconds", t.elapsed), ("exit_code", .int (if t.succeeded then 0 else 1)),
    ("score", .float t.score.percent)]
    ++ match t.error.filter (· ≠ "") with
      | some e => [("error_message", .str e)]
      | none => [])

def successRecord (t : TestRun) : Value :=
  .dict [("duration_seconds", t.elapsed), ("status", .str "success"),
    ("test_results", .dict [("total_fields_tested", .int t.tested),
      ("fields_passed", .int t.passed), ("fields_failed", .int t.failed),
      ("score", .float t.score.percent)])]

def ofGrades (grades : Record) (succeeded : Bool) (error : Option String) :
    Except Fault TestRun := do
  return {
    succeeded, error
    tested := ← countOf (grades.getD "total_fields_tested" (.int 0))
    passed := ← countOf (grades.getD "fields_passed" (.int 0))
    failed := ← countOf (grades.getD "fields_failed" (.int 0))
    elapsed := grades.getD "elapsed_seconds" (.float 0.0)
    skipped := (grades.get "skipped").truthy }

end TestRun

namespace History

def noRuns : Record := [("last_run", .null), ("last_successful_run", .null)]

def entryOf (history : Record) (substrate : String) : Value :=
  history.getD substrate (.dict noRuns)

def withRun (t : TestRun) (entry : Record) : Record :=
  let entry := entry.put "last_run" t.record
  if t.isSuccess then entry.put "last_successful_run" t.successRecord else entry

def update (history : Record) (substrate : String) (t : TestRun) : Except Fault Record :=
  if t.skipped then .ok history
  else
    match entryOf history substrate with
    | .dict entry => .ok (history.put substrate (.dict (withRun t entry)))
    | v => .error (.ofType ("'" ++ v.typeName ++ "' object does not support item assignment"))

def path : Run String := return Path.join (← testingFolder) "_substrate_results.json"

def load : Run Record := do
  let path ← path
  if ← isThere path then
    let stored ← readJson path
    stored.table "get"
  else return []

def store (substrate : String) (t : TestRun) : Run Unit := do
  if t.skipped then return
  let history ← load
  let after ← update history substrate t
  writeJson (← path) (.dict after)

end History

end Rulebook.Grading
