/-
Explanation specifications.

A specification holds, for each entity, the order of computation and the template of each
calculated column. With it the records of an entity are completed.
-/

import Rulebook.Graph.Eval
import Rulebook.Schema.Schedule

namespace Rulebook.Graph

open Text

inductive Entry where
  | template (source : Value) (template : Option Template)
  | broken (source : Value) (why : String)

def Entry.ofColumn (c : Column) : Entry :=
  match c.expression with
  | .ok e =>
    let t := ofExpr e c.name
    .template c.formula
      (some { t with hash := .str (fingerprint t c.formulaText) })
  | .error f => .broken c.formula f.message

def Entry.toValue : Entry → Value
  | template source none => .dict [("formula_source", source)]
  | template source (some t) =>
    .dict [("formula_source", source), ("template_hash", t.hash), ("root_node", .str t.root),
      ("nodes", t.nodesValue), ("edges", edgesValue t.edges)]
  | broken source why =>
    .dict [("formula_source", source), ("template_hash", .str "error"), ("error", .str why),
      ("root_node", .null), ("nodes", .dict []), ("edges", .list [])]

def Entry.ofValue (v : Value) : Except Fault (Option Entry) := do
  if !v.truthy then return none
  let entries ← v.table "get"
  if (entries.get "error").truthy then return none
  return some (.template (entries.get "formula_source") (← Template.ofValue v))

structure EntitySpec where
  idField : Option String
  fields : Record
  order : List String
  deps : List (String × String)
  entries : List (String × Entry)
  warnings : List String

def fieldInfo (c : Column) : Value :=
  .dict [("datatype", c.entries.getD "datatype" (.str "string")),
    ("nullable", c.entries.getD "nullable" (.bool true)),
    ("type", c.entries.getD "type" (.str "raw"))]

def cycleWarning (names : List String) : String :=
  "Warning: Possible circular dependency in: \x7b"
    ++ join ", " (names.map quoted) ++ "\x7d"

def EntitySpec.ofColumns (columns : List Column) : EntitySpec :=
  let computed := computedOf columns
  let jobs := computed.map Schedule.Job.ofColumn
  let raw := (rawOf columns).map Column.name
  let levels := Schedule.levels jobs raw
  let entries := computed.map fun c => (c.name, Entry.ofColumn c)
  { idField := (columns.find? fun c => (c.nullable.getD .null).equal (.bool false)).map Column.name
    fields := Record.ofEntries (columns.map fun c => (c.name, fieldInfo c))
    order := Schedule.order jobs raw
    deps := ((Schedule.distinct jobs).flatMap fun j => j.needs.map (·, j.name)).mergeSort pairLe
    entries := entries.foldl (putBy Prod.fst) []
    warnings := jobs.filterMap Schedule.Job.warning? ++
      (if levels.stuck then [cycleWarning (levels.levels.getLastD [])] else []) ++
      entries.filterMap fun e =>
        match e.2 with
        | .broken _ why => some ("Warning: Failed to build template for " ++ e.1 ++ ": " ++ why)
        | _ => none }

def EntitySpec.toValue (s : EntitySpec) : Value :=
  .dict [("id_field", (s.idField.map Value.str).getD .null),
    ("id_field_snake",
      (s.idField.bind fun f => if f = "" then none else some (.str (Names.snake f))).getD .null),
    ("fields", .dict s.fields), ("calc_order", idsValue s.order),
    ("dep_edges", edgesValue s.deps),
    ("expr_templates", .dict (s.entries.map fun e => (e.1, e.2.toValue)))]

structure Spec where
  name : Value
  hash : String
  entities : List (String × EntitySpec)

def bookHash (book : Record) : String :=
  "sha256:" ++ takeFront
    (Digest.sha256 (Json.write { Json.Style.line with sorted := true } (.dict book))) 32

def isComputedValue (c : Value) : Except Fault Bool := do
  let entries ← c.table "get"
  return (entries.get "type").equal (.str "calculated") && (entries.get "formula").truthy

def EntitySpec.ofSchema (schema : Value) : Except Fault (Option EntitySpec) := do
  let columns ← schema.iterate
  let flags ← columns.mapM isComputedValue
  if !flags.any id then return none
  return some (ofColumns (← Column.listOf schema))

def Spec.ofBook (book : Record) : Except Fault Spec := do
  let specs ← (Schema.entities book).mapM fun entity => do
    let spec ← EntitySpec.ofSchema (← Schema.schemaOf .loose book entity)
    return spec.map fun s => (entity, s)
  return ⟨book.getD "Name" (.str "Unknown"), bookHash book, specs.reduceOption⟩

def Spec.toValue (s : Spec) : Value :=
  .dict [("schema_version", .str "erb.explain_spec.v1"),
    ("rulebook", .dict [("name", s.name), ("rulebook_hash", .str s.hash)]),
    ("semantics", .dict [("profile", .str "excel"), ("version", .str "v1"),
      ("null_handling", .str "three_valued_logic"), ("boolean_coercion", .str "strict")]),
    ("entities", .dict (s.entities.map fun e => (e.1, e.2.toValue)))]

structure Plan where
  order : List String
  entries : List (String × Entry)
  idKey : Option String
  bookHash : Value

def EntitySpec.plan (s : EntitySpec) (bookHash : Value) : Plan where
  order := s.order
  entries := s.entries
  idKey := s.idField.map Names.snake
  bookHash := bookHash

def Plan.ofValue (v : Value) : Except Fault Plan := do
  let entries ← v.table "get"
  let templates ← (entries.getD "expr_templates" (.dict [])).table "get"
  let read ← templates.mapM fun t => do return (← Entry.ofValue t.2).map fun e => (t.1, e)
  return {
    order := ← idsOf (entries.getD "calc_order" (.list []))
    entries := read.reduceOption
    idKey := match entries.get "id_field_snake" with
      | .str s => some s
      | _ => none
    bookHash := entries.getD "rulebook_hash" (.str "") }

structure Progress where
  record : Record
  explanations : Record := []

def Plan.compute (p : Plan) (s : Progress) (field : String) : Except Fault Progress :=
  match p.entries.lookup field with
  | none | some (.broken _ _) => .ok s
  | some (.template _ t) => do
    let (value, e) ← evaluate? t s.record
    let noted := match check e value with
      | none => explanationValue e
      | some why => .dict ((explanationValue e).entries.put "validation_error" (.str why))
    return ⟨s.record.put (Names.snake field) value, s.explanations.put field noted⟩

def Plan.complete (p : Plan) (record : Record) : Except Fault Progress :=
  p.order.foldlM p.compute { record }

def Plan.bundle (p : Plan) (entity : String) (s : Progress) : Value :=
  .dict [("schema_version", .str "erb.explain_instance.v1"), ("rulebook_hash", p.bookHash),
    ("entity", .str entity),
    ("record_id", ((p.idKey.bind fun k => s.record.get? k)).getD (.str "unknown")),
    ("values", .dict (Record.ofEntries (p.order.map fun f =>
      (Names.snake f, s.record.get (Names.snake f))))),
    ("explanations", .dict s.explanations)]

def Plan.run (p : Plan) (entity : String) (records : List Value) :
    Except Fault (List (Record × Value)) :=
  records.mapM fun r => do
    let s ← p.complete (← r.toRecord)
    return (s.record, p.bundle entity s)

end Rulebook.Graph
