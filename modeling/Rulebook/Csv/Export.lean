/-
Tables as CSV files.

Every table becomes a file, and a further file lists all fields with their formulas.
-/

import Rulebook.Schema.Table
import Rulebook.Workspace.Files

namespace Rulebook.Csv

open Text

/-!
### CSV text

A field is quoted only when it holds a comma, a quote or a line end, or when it is empty and alone
in its row. A quote inside is doubled.
-/

def needsQuotes (c : Char) : Bool := c = ',' || c = '"' || c = '\r' || c = '\n'

def doubled : List Char → List Char
  | [] => []
  | c :: cs => if c = '"' then '"' :: '"' :: doubled cs else c :: doubled cs

def enclosed (s : String) : String := "\"" ++ String.ofList (doubled s.toList) ++ "\""

def field (s : String) : String := if s.toList.any needsQuotes then enclosed s else s

def row : List String → String
  | [""] => "\"\"\r\n"
  | fields => join "," (fields.map field) ++ "\r\n"

def document (rows : List (List String)) : String := String.join (rows.map row)

def fieldOf : Value → String
  | .null => ""
  | v => v.text

/-!
### Reading CSV text

A quote opens a quoted field only at the start of a field; after the closing quote further
characters are taken as they are. A blank line is a row without fields.
-/

inductive Scan where
  | record
  | start
  | plain
  | quoted
  | closing

/-- Scans rows. `cell` holds the characters of the current field in reverse and `fields`
the finished fields of the current row in reverse. -/
def scan : Scan → List Char → List String → List Char → List (List String)
  | .record, _, _, [] => []
  | _, cell, fields, [] => [(String.ofList cell.reverse :: fields).reverse]
  | .quoted, cell, fields, c :: cs =>
    if c = '"' then scan .closing cell fields cs else scan .quoted (c :: cell) fields cs
  | state, cell, fields, c :: cs =>
    let finished := String.ofList cell.reverse :: fields
    if c = '\n' then
      match state with
      | .record => [] :: scan .record [] [] cs
      | _ => finished.reverse :: scan .record [] [] cs
    else if c = '"' then
      match state with
      | .plain => scan .plain (c :: cell) fields cs
      | .closing => scan .quoted (c :: cell) fields cs
      | _ => scan .quoted cell fields cs
    else if c = ',' then scan .start [] finished cs
    else scan .plain (c :: cell) fields cs

def rows (text : String) : List (List String) := scan .record [] [] text.toList

structure Entry where
  fields : Record
  extra : List String

/-- A row under a header. Names without a field have no value; of equal names the last wins. -/
def entryOf (header row : List String) : Entry where
  fields := .ofEntries (header.zipIdx.map fun (name, i) =>
    (name, match row[i]? with
      | some s => .str s
      | none => .null))
  extra := row.drop header.length

def entries (text : String) : List Entry :=
  match rows text with
  | [] => []
  | header :: body => (body.filter (!·.isEmpty)).map (entryOf header)

open Workspace

/-! ### Tables as files -/

def hasFormula (field : Record) : Bool :=
  (field.getD "type" (.str "raw")).equal (.str "calculated") && field.has "formula"

def cellOf (d : Sheet.Dialect) (field : Record) (row : Value) : Except Fault Value := do
  let name ← (Value.dict field).member "name"
  if hasFormula field then
    Sheet.evalContent d (fun n => row.getOr (.ofList n) .null) (field.get "formula")
  else
    let record ← row.table "get"
    match name with
    | .str s => return record.get s
    | .list _ | .dict _ => throw (.ofType s!"unhashable type: '{name.typeName}'")
    | _ => return .null

def exportedText : Value → String
  | .bool b => if b then "true" else "false"
  | v => fieldOf v

def nameText (name : Value) : Except Fault String :=
  match name with
  | .str s => .ok s
  | _ => .error (.ofType "expected string or bytes-like object, got")

def keyable (schema : List Value) : Except Fault (List (Value × Record)) :=
  schema.mapM fun f => do
    let name ← f.member "name"
    match name with
    | .list _ | .dict _ => throw (.ofType s!"unhashable type: '{name.typeName}'")
    | _ => pure (name, f.entries)

def exportTable (name : String) (table : Record) (path : String) : Run Nat := do
  let schema := table.getD "schema" (.list [])
  let data := table.getD "data" (.list [])
  if !schema.truthy then
    say s!"Warning: {name} has no schema"
    return 0
  let fields ← schema.iterate
  let named ← keyable fields
  writeText path ""
  let header ← (named.mapM fun f => Names.snake <$> nameText f.1 : Except Fault (List String))
  appendText path (row header)
  for record in ← data.iterate do
    let cells ← (fields.mapM fun f => exportedText <$> cellOf Sheet.exportDialect f.entries record :
      Except Fault (List String))
    appendText path (row cells)
  let size ← data.size
  say s!"  -> {name}: {size} rows -> {Path.name path}"
  return size

def describedTables (book : Record) : List (String × Record) :=
  (Schema.tableNames book).filterMap fun name =>
    match book.get name with
    | .dict t => if Record.has t "schema" then some (name, t) else none
    | _ => none

def exportTables (book : Record) (folder : String) : Run Nat := do
  let mut total := 0
  for (name, table) in describedTables book do
    let n ← exportTable name table (Path.join folder (Names.snake name ++ ".csv"))
    total := total + n
  return total

def formulaLine (table : String) (field : Value) : Except Fault (List String) := do
  let entries ← field.table "get"
  let kind := entries.getD "type" (.str "raw")
  let level := entries.getD "dag_level" (if kind.equal (.str "raw") then .int 0 else .str "")
  let name ← nameText (entries.getD "name" (.str ""))
  return [table, Names.snake name, fieldOf kind, fieldOf level,
    fieldOf (entries.getD "formula" (.str ""))]

def exportFormulas (book : Record) (path : String) : Run Unit := do
  let lines ← ((describedTables book).flatMapM fun (name, table) => do
    let fields ← (table.get "schema").iterate
    fields.mapM (formulaLine name) : Except Fault (List (List String)))
  writeText path (document
    (["table_name", "field_name", "field_type", "dag_level", "formula"] :: lines))
  say s!"Exported {lines.length} field definitions to {path}"

def lookupOf (convert : Value → Except Fault Value) (text key : String) :
    Except Fault (List (Value × Record)) :=
  (entries text).filterMapM fun e => do
    let fields ← e.fields.mapM fun (n, v) => do pure (n, ← convert v)
    if !e.extra.isEmpty then throw (.noMember "list" "lower")
    let record : Record := fields
    return if (record.get key).isNull then none else some (record.get key, record)

end Rulebook.Csv
