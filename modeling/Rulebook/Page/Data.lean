/-
The data of the report page.

The substrate from which the answer keys come is first in the list and right by definition.
-/

import Rulebook.Grading.Report

namespace Rulebook.Page

open Schema Workspace
open Grading (testingFolder substrateFolder jsonFiles rulebookPath)

def keySource : String := "postgres"

def readOr (path : String) (default : Value) : Run Value := do
  if ← isThere path then readJson path else return default

def loadRulebook : Run Value := do readOr (← rulebookPath) (.dict [])

def loadMetadata : Run Value := do
  readOr (Path.join (← testingFolder) "_metadata.json") (.dict [])

def loadAnswerKeys : Run Record := do
  let folder := Path.join (← testingFolder) "answer-keys"
  let mut keys : Record := []
  for file in ← jsonFiles folder do
    let key ← readJson (Path.join folder file)
    keys := keys.put (Substrate.entityOf file) key
  return keys

def loadAnswers (substrate : String) : Run Record := do
  if substrate = keySource then loadAnswerKeys
  else Grading.readableFiles (Path.join (← substrateFolder substrate) "test-answers")

def noGrades (substrate : String) : Record :=
  [("substrate", .str substrate), ("total_fields_tested", .int 0), ("fields_passed", .int 0),
   ("fields_failed", .int 0), ("elapsed_seconds", .float 0.0), ("entities", .dict []),
   ("error", .str "No results found")]

def readStored (path : String) : Run Value := do
  match ← content path with
  | .data v => return v
  | .text "" => throw ⟨.endOfInput, "Ran out of input"⟩
  | _ => throw ⟨.stored, "invalid load key"⟩

def loadGrades (substrate : String) : Run Value := do
  let folder ← substrateFolder substrate
  let stored := Path.join folder ".grades.pkl"
  if ← isThere stored then return ← readStored stored
  let report := Path.join folder "test-results.md"
  if ← isThere report then return (← Grading.Report.readPage substrate report).toValue
  return .dict (noGrades substrate)

def loadHistory (substrate : String) : Run Value := do
  let path ← Grading.History.path
  if ← isThere path then
    let history ← readJson path
    return ← history.getOr substrate (.dict Grading.History.noRuns)
  let own := Path.join (← substrateFolder substrate) "_run_metadata.json"
  readOr own (.dict Grading.History.noRuns)

def fieldCount (metadata : Value) : Except Fault (Value × Value) := do
  let columns ← metadata.getOr "computed_columns" (.list [])
  let records ← metadata.getOr "record_count" (.int 0)
  return (columns, ← Value.arith .mul (.int (← columns.size)) records)

def sum (vs : List Value) : Except Fault Value := vs.foldlM (Value.arith .add) (.int 0)

def keyGrades (metadata : Record) : Except Fault Record := do
  let counted ← metadata.mapM fun (entity, m) => return (entity, ← fieldCount m)
  let total ← sum (counted.map fun c => c.2.2)
  return [("substrate", .str keySource), ("is_answer_key", .bool true),
    ("total_fields_tested", total), ("fields_passed", total), ("fields_failed", .int 0),
    ("elapsed_seconds", .float 0.0),
    ("entities", .dict (counted.map fun (entity, columns, n) => (entity,
      .dict [("fields_tested", n), ("fields_passed", n), ("fields_failed", .int 0),
        ("failures", .list []), ("computed_columns", columns)]))),
    ("error", .null), ("run_metadata", .dict Grading.History.noRuns)]

def withHistory (grades history : Value) : Except Fault Record := do
  match grades with
  | .dict g =>
    let g := Record.put g "run_metadata" history
    let success ← history.getOr "last_successful_run" .null
    if success.truthy then
      if ← success.holds "duration_seconds" then
        return g.put "elapsed_seconds" (← success.member "duration_seconds")
    return g
  | v => throw (.ofType s!"'{v.typeName}' object does not support item assignment")

def gradesFor (metadata : Value) (substrate : String) : Run Record := do
  if substrate = keySource then
    let entries ← metadata.table "items"
    keyGrades entries
  else
    let grades ← loadGrades substrate
    let history ← loadHistory substrate
    withHistory grades history

def shareOf (passed tested : Value) : Except Fault Value := do
  if ← tested.order .gt (.int 0) then
    Value.arith .mul (← Value.arith .div passed tested) (.int 100)
  else return .int 0

def isPassing (grades : Record) : Except Fault Bool := do
  let failed ← (Value.dict grades).member "fields_failed"
  if !failed.equal (.int 0) then return false
  (← (Value.dict grades).member "total_fields_tested").order .gt (.int 0)

def column (all : List (String × Record)) (key : String) : Except Fault (List Value) :=
  all.mapM fun g => (Value.dict g.2).member key

def entityData (book : Record) (schemas keys : Record) (entity : String) (metadata : Value) :
    Except Fault Value := do
  let m ← metadata.table "get"
  let columns := m.getD "computed_columns" (.list [])
  let infos ← (← columns.iterate).mapM fun c => do
    let name ← c.asText "split"
    return Value.dict [("name", c), ("formula", ← fieldFormula book entity name),
      ("description", ← fieldDescription book entity name)]
  return .dict [("primary_key", m.get "primary_key"), ("computed_columns", columns),
    ("computed_columns_info", .list infos), ("record_count", m.getD "record_count" (.int 0)),
    ("schema", schemas.getD entity (.list [])),
    ("description", ← (entityValue book entity).getOr "Description" (.str "")),
    ("answer_key", keys.getD entity (.list []))]

def allGrades (metadata : Value) (names : List String) : Run (List (String × Record)) := do
  let mut all : Record := []
  for name in names do
    let grades ← gradesFor metadata name
    all := all.put name (.dict grades)
  return all.map fun (n, g) => (n, g.entries)

def summaryData (names : List String) (metadata : Record) (all : List (String × Record)) :
    Except Fault Record := do
  let passing ← all.filterM fun g => isPassing g.2
  let columns ← metadata.mapM fun m => do (← m.2.getOr "computed_columns" (.list [])).size
  let records ← metadata.mapM fun m => m.2.getOr "record_count" (.int 0)
  return [("total_substrates", .int names.length), ("passing_substrates", .int passing.length),
    ("total_entities", .int metadata.length),
    ("total_computed_columns", .int (Numeral.total columns)),
    ("total_records", ← sum records)]

def totalsData (all : List (String × Record)) : Except Fault Record := do
  let passed ← sum (← column all "fields_passed")
  let failed ← sum (← column all "fields_failed")
  let tested ← sum (← column all "total_fields_tested")
  let time ← sum (all.map fun g => g.2.getD "elapsed_seconds" (.int 0))
  return [("overall_score", ← shareOf passed tested), ("total_runtime_seconds", time),
    ("total_fields_tested", tested), ("total_passed", passed), ("total_failed", failed)]

def collect : Run Value := do
  let stored ← loadRulebook
  let metadata ← loadMetadata
  let keys ← loadAnswerKeys
  let names := keySource :: (← Grading.substrates)
  let book ← stored.table "items"
  let schemas := Record.ofEntries ((entities book).map fun e =>
    (Names.snake e, (book.get e).entries.getD "schema" (.list [])))
  let all ← allGrades metadata names
  let root := (← get).root
  let path ← rulebookPath
  let entries ← metadata.table "items"
  let title := book.getD "Name" (.str (Path.name root))
  let summary ← summaryData names entries all
  let infos ← (entries.mapM fun (e, m) => return (e, ← entityData book schemas keys e m) :
    Except Fault Record)
  let totals ← totalsData all
  return .dict [
    ("meta", .dict [("project_name", title), ("directory_name", .str (Path.name root)),
      ("rulebook_path", .str path), ("rulebook_name", title),
      ("rulebook_description", book.getD "Description" (.str ""))]),
    ("summary", .dict (summary ++ totals)), ("entities", .dict infos),
    ("substrates", .dict (all.map fun g => (g.1, .dict g.2))), ("answer_keys", .dict keys)]

end Rulebook.Page
