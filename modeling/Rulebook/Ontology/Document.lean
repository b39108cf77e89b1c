/-
The ontology of a rulebook in the Turtle notation: classes and properties, rows as individuals, and
formulas as rules that construct the derived properties.
-/

import Rulebook.Emit.Dialect
import Rulebook.Schema.Table

namespace Rulebook.Ontology

open Text

/-!
### Literals

A text on one line stands in single quotation marks, any other in triple ones.
-/

def textLiteral (s : String) : String :=
  if contains s "\n" || contains s "\r" then
    "\"\"\"" ++ replace (replace s "\\" "\\\\") "\"\"\"" "\\\"\\\"\\\"" ++ "\"\"\""
  else "\"" ++ replace (replace s "\\" "\\\\") "\"" "\\\"" ++ "\""

def literal (d : Datatype) : Value → Except Fault (Option String)
  | .null => .ok none
  | v =>
    match d with
    | .boolean => .ok (some (if v.truthy then "true" else "false"))
    | .integer => v.toInteger.map fun n => some (toString n)
    | _ => .ok (some (textLiteral v.text))

def prefixLine (name iri : String) : String := s!"@prefix {name}: <{iri}> ."

def rdfLine : String := prefixLine "rdf" "http://www.w3.org/1999/02/22-rdf-syntax-ns#"

def rdfsLine : String := prefixLine "rdfs" "http://www.w3.org/2000/01/rdf-schema#"

def owlLine : String := prefixLine "owl" "http://www.w3.org/2002/07/owl#"

def shaclLine : String := prefixLine "sh" "http://www.w3.org/ns/shacl#"

def xsdLine : String := prefixLine "xsd" "http://www.w3.org/2001/XMLSchema#"

def erbLine : String := prefixLine "erb" "http://example.org/erb#"

/-! ### Classes and properties -/

def propertyLines (cls : String) (c : Column) : Except Fault (List String) := do
  let type ← c.declaredType
  return [Emit.Query.property c.name ++ " a owl:DatatypeProperty ;",
    s!"    rdfs:domain {cls} ;", s!"    rdfs:range {type.schemaType} ;",
    s!"    rdfs:label \"{c.name}\" ."] ++
    (if c.isDerived then
      ["    # calculated: " ++ (c.entries.getD "type" (.str "raw")).text] else []) ++ [""]

def classLines (t : Table) : Except Fault (List String) := do
  let properties ← t.columns.mapM (propertyLines s!"erb:{t.name}")
  return [s!"# === Class: {t.name} ===", s!"erb:{t.name} a owl:Class ;",
    s!"    rdfs:label \"{t.name}\" .", ""] ++ properties.flatten

def classes (tables : List Table) : Except Fault String := do
  let body ← tables.mapM classLines
  return join "\n" ([rdfLine, rdfsLine, owlLine, xsdLine, erbLine, "",
    "erb: a owl:Ontology ;", "    rdfs:label \"ERB Ontology\" ;",
    "    rdfs:comment \"Generated from effortless-rulebook.json\" .", ""] ++ body.flatten)

/-! ### Individuals -/

def propertiesOf (t : Table) (row : Record) : Except Fault (List String) := do
  let written ← ((distinctColumns t.columns).filter fun c => !c.isCalculated).mapM fun c => do
    let v := row.get c.name
    if v.isNull then return none
    let text ← literal (← c.declaredType) v
    return text.map fun s => s!"    {Emit.Query.property c.name} " ++ s
  return written.reduceOption

def individualLines (t : Table) (index : Nat) (row : Value) : Except Fault (List String) := do
  let entries ← row.table "get"
  let head := s!"erb:{t.name}_{index} a erb:{t.name} ;"
  match ← propertiesOf t entries with
  | [] => return [replace head " ;" " .", ""]
  | ps => return [head, join " ;\n" ps ++ " .", ""]

def individualsOf (t : Table) : Except Fault (List String) := do
  if t.rows.isEmpty then return []
  let body ← t.rows.zipIdx.mapM fun r => individualLines t r.2 r.1
  return [s!"# === Individuals: {t.name} ===", ""] ++ body.flatten

def individuals (tables : List Table) : Except Fault String := do
  let body ← tables.mapM individualsOf
  return join "\n" ([rdfLine, rdfsLine, xsdLine, erbLine, ""] ++ body.flatten)

/-! ### Rules -/

def expression (c : Column) : Except Fault (String × List (String × String)) := do
  let e ← c.expression
  let text ← (Emit.render Emit.Query.dialect e).mapError Emit.Error.fault
  return (text, (Emit.Query.bindings e).mergeSort fun a b => !(b.1 < a.1))

def query (table : String) (c : Column) (text : String) (needed : List (String × String)) :
    List String :=
  let patterns := needed.map fun b =>
    s!"    OPTIONAL \x7b $this {Emit.Query.property b.1} {b.2} . \x7d"
  ["            PREFIX erb: <http://example.org/erb#>",
    "            PREFIX xsd: <http://www.w3.org/2001/XMLSchema#>", "            CONSTRUCT \x7b",
    s!"                $this {Emit.Query.property c.name} ?_result .", "            \x7d",
    "            WHERE \x7b", join "\n" ((s!"    $this a erb:{table} .") :: patterns),
    s!"                BIND({text} AS ?_result)", "            \x7d"]

def ruleLines (table : String) (c : Column) : List String :=
  match expression c with
  | .error f => ["    # Rule for " ++ c.name ++ " - parse error: " ++ f.message]
  | .ok (text, needed) =>
    ["    sh:rule [", "        a sh:SPARQLRule ;",
      "        rdfs:label \"rule_" ++ table ++ "_" ++ c.name ++ "\" ;",
      "        sh:prefixes erb: ;",
      "        sh:construct \"\"\"", join "\n" (query table c text needed),
      "        \"\"\" ;", "    ] ;"]

def closed (line : String) : String :=
  .ofList (dropEnd (fun c => c == ' ' || c == ';') line.toList) ++ " ."

def closeStatement (lines : List String) : List String :=
  match lines.reverse with
  | [] => []
  | last :: rest => (closed last :: rest).reverse

def shapeLines (t : Table) : List String :=
  let derived := t.columns.filter Column.isDerived
  if derived.isEmpty then []
  else
    closeStatement (["# === Shape with rules for " ++ t.name ++ " ===",
      "erb:" ++ t.name ++ "Shape a sh:NodeShape ;", "    sh:targetClass erb:" ++ t.name ++ " ;"]
      ++ derived.flatMap (ruleLines t.name)) ++ [""]

def rules (tables : List Table) : String :=
  let count := Numeral.total (tables.map fun t => (t.columns.filter Column.isDerived).length)
  join "\n" ([rdfLine, rdfsLine, shaclLine, xsdLine, erbLine, ""] ++ tables.flatMap shapeLines
    ++ [s!"# Generated {count} SHACL rules"])

end Rulebook.Ontology
