/-
Tables: a name, columns and rows.

Tables whose name starts with an underscore or a dollar sign are left out.
-/

import Rulebook.Formula.Parser
import Rulebook.Names
import Rulebook.Value.Access

namespace Rulebook.Schema

open Text

/-!
### Finding entities, schemas and keys in a rulebook

Entities are asked for under the spelling of the rulebook or with underscores.
-/

def metadataKeys : List String := ["$schema", "model_name", "Description", "_meta"]

def tableNames (book : Record) : List String :=
  book.keys.filter (· ∉ metadataKeys)

def isTable : Value → Bool
  | .dict entries => Record.has entries "schema"
  | _ => false

def entities (book : Record) : List String :=
  (book.filter fun e => e.1 ∉ metadataKeys && isTable e.2).map Prod.fst

inductive Spelling where
  | close
  | loose
deriving DecidableEq

def entityKey? (how : Spelling) (book : Record) (entity : String) : Option String :=
  if book.has entity then some entity
  else if book.has (Names.pascal entity) then some (Names.pascal entity)
  else match how with
    | .close => none
    | .loose => book.keys.find? fun k => Names.snake k = Names.snake entity

def partOf (how : Spelling) (part : String) (book : Record) (entity : String) :
    Except Fault Value :=
  match entityKey? how book entity with
  | none => .ok (.list [])
  | some key => (book.get key).getOr part (.list [])

def schemaOf (how : Spelling) : Record → String → Except Fault Value := partOf how "schema"

def dataOf : Record → String → Except Fault Value := partOf .loose "data"

def nameOf (column : Value) : Except Fault String := do
  let name ← column.member "name"
  name.asText "endswith"

def spelled (name : Value) : Except Fault String :=
  match name with
  | .str s => .ok (Names.snake s)
  | v => .error (.ofType ("expected string or bytes-like object, got '" ++ v.typeName ++ "'"))

def keyOf (column : Value) : Except Fault String := do spelled (← column.member "name")

def firstColumn (check : Value → Except Fault Bool) : List Value → Except Fault (Option Value)
  | [] => .ok none
  | c :: rest => do
    if ← check c then return some c
    firstColumn check rest

/-- The primary key of a schema, spelled with underscores: the first column that may not be
null, else the first whose name ends in `Id`, else the first. -/
def primaryKey (schema : Value) : Except Fault (Option String) := do
  let columns ← schema.iterate
  let required ← firstColumn (fun c => do
    return ((← c.table "get").get "nullable").equal (.bool false)) columns
  match required with
  | some c => return some (← keyOf c)
  | none =>
    match ← firstColumn (fun c => do return endsWith (← nameOf c) "Id") columns with
    | some c => return some (← keyOf c)
    | none =>
      match columns with
      | [] => return none
      | c :: _ => return some (← keyOf c)

def computedColumns (schema : Value) : Except Fault (List String) := do
  let columns ← schema.iterate
  let names ← columns.mapM fun c => do
    if ((← c.table "get").get "type").equal (.str "calculated") then
      return some (← keyOf c)
    else return none
  return names.reduceOption

def entityValue (book : Record) (entity : String) : Value :=
  match entityKey? .close book entity with
  | none => .dict []
  | some key => book.get key

def columnNamed (book : Record) (entity field : String) : Except Fault (Option Value) := do
  let schema ← (entityValue book entity).getOr "schema" (.list [])
  let columns ← schema.iterate
  firstColumn (fun c => do
    let name ← c.member "name"
    return name.equal (.str field) || name.equal (.str (Names.pascal field))) columns

def fieldDescription (book : Record) (entity field : String) : Except Fault Value := do
  match ← columnNamed book entity field with
  | none => return .str ""
  | some c => c.getOr "Description" (← c.getOr "description" (.str ""))

def fieldFormula (book : Record) (entity field : String) : Except Fault Value := do
  match ← columnNamed book entity field with
  | none => return .str ""
  | some c =>
    let formula ← (← c.getOr "formula" (.str "")).asText "replace"
    return .str (replace (replace formula "\x7b\x7b" "") "\x7d\x7d" "")

end Rulebook.Schema

namespace Rulebook

/-!
### Columns of a schema

What is not declared is left open; the defaults differ from use to use.
-/

structure Column where
  name : String
  kind : Option String := none
  datatype : Option String := none
  formula : Value := .str ""
  nullable : Option Value := none
  entries : Record := []

namespace Column

def textOf? (entries : Record) (key : String) : Option String :=
  match entries.get? key with
  | some (.str s) => some s
  | _ => none

def ofValue (v : Value) : Except Fault Column := do
  let entries ← v.table "get"
  let name ← v.member "name"
  return {
    name := name.text, kind := textOf? entries "type", datatype := textOf? entries "datatype",
    formula := entries.getD "formula" (.str ""), nullable := entries.get? "nullable", entries }

def listOf (schema : Value) : Except Fault (List Column) := do
  let columns ← schema.iterate
  columns.mapM ofValue

def isCalculated (c : Column) : Bool := c.kind = some "calculated"

def isRaw (c : Column) : Bool := c.kind = some "raw"

def isDerived (c : Column) : Bool := c.formula.truthy

def formulaText (c : Column) : String := c.formula.text

def formulaLine (c : Column) : Except Fault String := do
  return Text.replace (← c.formula.asText "replace") "\n" " "

def expression (c : Column) : Except Fault Formula.Expr := do
  Formula.parse (← c.formula.asText "startswith")

def isComputed (c : Column) : Bool := c.isCalculated && c.isDerived

def datatypeName (c : Column) : String := c.datatype.getD "string"

def key (c : Column) : String := Names.snake c.name

def declaredKey (c : Column) : Except Fault String := Schema.keyOf (.dict c.entries)

end Column

def computedOf (columns : List Column) : List Column := columns.filter Column.isComputed

def rawOf (columns : List Column) : List Column := columns.filter Column.isRaw

/-! ### Tables -/

def Column.lenient (v : Value) : Except Fault Column := do
  let entries ← v.table "get"
  return {
    name := (entries.getD "name" (.str "")).text, kind := textOf? entries "type"
    datatype := textOf? entries "datatype", formula := entries.getD "formula" (.str "")
    nullable := entries.get? "nullable", entries }

namespace Column

def declaredType (c : Column) : Except Fault Datatype := do
  return .ofName (← (c.entries.getD "datatype" (.str "string")).asText "lower")

def requiredName (c : Column) : Except Fault String :=
  if c.entries.has "name" then .ok c.name else .error (Value.noKey "name")

end Column

structure Table where
  name : String
  columns : List Column
  rows : List Value

def Table.ofValue (name : String) (v : Value) : Except Fault Table := do
  let entries ← v.table "get"
  let columns ← (← (entries.getD "schema" (.list [])).iterate).mapM Column.lenient
  let data := entries.getD "data" (.list [])
  let rows ← if data.truthy then data.iterate else .ok []
  return ⟨name, columns, rows⟩

def isDescribed (name : String) : Bool :=
  !(Text.startsWith name "_" || Text.startsWith name "$")

def tablesOf (tables : Record) : Except Fault (List Table) := do
  let sorted := tables.mergeSort fun a b => !(b.1 < a.1)
  let read ← (sorted.filter fun t => isDescribed t.1).mapM fun t => Table.ofValue t.1 t.2
  return read.filter fun t => !t.columns.isEmpty

/-- Columns under distinct names: the first of a name keeps its place, the last what is
declared. -/
def distinctColumns (columns : List Column) : List Column :=
  columns.foldl (fun out c =>
    if out.any (·.name = c.name) then out.map fun k => if k.name = c.name then c else k
    else out ++ [c]) []

end Rulebook
