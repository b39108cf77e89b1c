/-
The ontology substrate: a reasoner applies the rules, and answers are read back from the graph.
-/

import Rulebook.Ontology.Document
import Rulebook.Ontology.Turtle
import Rulebook.Substrate.Basic

namespace Rulebook.Substrate.Ontology

open Workspace Substrate Rulebook.Ontology

def describedTables (book : Record) : Record := book.filter fun e => Schema.isTable e.2

def derivedOf (table : Value) : Except Fault (List Record) := do
  let columns ← (table.entries.get "schema").iterate
  let entries ← columns.mapM (Value.table "get")
  return entries.filter fun c => (c.get "formula").truthy

def announce (tables : Record) : Run Unit := do
  say (s!"Found {tables.length} tables: " ++ Text.join ", " tables.keys)
  let derived ← (tables.mapM fun t => derivedOf t.2 : Except Fault (List (List Record)))
  say s!"Found {derived.flatten.length} calculated fields to compile"
  say ("\n" ++ Text.times 70 "-")

def writePart (file about : String) (text : Except Fault String) : Run Unit := do
  say s!"\nGenerating {file} ({about})..."
  let body ← text
  let path := Path.join (← get).here file
  writeText path body
  say s!"   Wrote: {path} ({body.length} bytes)"

def generate : Run Unit := do
  if ← cleaning ["ontology.owl", "individuals.ttl", "rules.shacl.ttl", "test-answers.json",
      "test-results.md"] "OWL substrate: Removes generated ontology, individuals, and SHACL rules"
  then return
  heading 70 "OWL Execution Substrate - Formula-to-SHACL Compiler"
  blankLine
  say "Loading rulebook..."
  let book ← (← requireRulebook "ERROR").table "items"
  let tables := describedTables book
  announce tables
  let read := tablesOf tables
  writePart "ontology.owl" "TBox - schema" (read >>= classes)
  writePart "individuals.ttl" "ABox - data" (read >>= individuals)
  writePart "rules.shacl.ttl" "SHACL-SPARQL rules" (read.map rules)
  blankLine
  heading 70 "Generation complete!"

open Rulebook.Ontology in
def tripleOf (s : Statement) : Triple :=
  ⟨named s.subject, named s.predicate,
    if s.kind = "uri" then .iri s.text
    else Turtle.canonical s.text (if s.kind = "plain" then "" else xsdIri ++ s.kind)⟩

def nextPass : Run (List Statement) := do
  let w ← get
  match w.services.reasoner with
  | [] => return []
  | p :: rest =>
    set { w with services := { w.services with reasoner := rest } }
    match p with
    | .adds statements => return statements
    | .failure text => throw ⟨.system, text⟩

open Rulebook.Ontology in
def reason (g : Triples) (done : Nat) : Nat → Run (Triples × Nat)
  | 0 => return (g, done)
  | left + 1 => do
    let more ← nextPass
    let after := Turtle.add g (more.map tripleOf)
    let added := after.length - g.length
    say ("   Pass " ++ toString (done + 1) ++ s!": {g.length} -> "
      ++ toString after.length ++ s!" triples ({added} added)")
    if added = 0 then return (after, done + 1)
    reason after (done + 1) left

def loadGraph (g : Triples) (blanks : Nat) (path : String) :
    Run (Triples × Nat) := do
  let text ← readText path
  let (new, blanks) ← Turtle.read text blanks
  say s!"   Loaded: {path}"
  return (Turtle.add g new, blanks)

def computedTables (tables : Record) : Except Fault (List (String × Nat)) := do
  let counted ← (tables.filter fun t => isDescribed t.1).mapM fun t => do
    let names ← (← derivedOf t.2).mapM fun c => (Value.dict c).member "name"
    return (t.1, names.length)
  return counted.filter (0 < ·.2)

def answerTable (g : Triples) (tables : Record) (target : String)
    (table : String × Nat) : Run Nat := do
  let entries := (tables.get table.1).entries
  let schema := entries.get "schema"
  let data := entries.getD "data" (.list [])
  if !schema.truthy || !data.truthy then return 0
  let columns ← ((← schema.iterate).mapM Column.lenient : Except Fault (List Column))
  let records ← recordsOf g table.1 columns (← data.iterate)
  writeJson (Path.join target (Names.snake table.1 ++ ".json")) (.list (records.map .dict))
  say s!"   {table.1}: {records.length} records ({table.2} computed fields)"
  return records.length

def answer : Run Unit := do
  heading 70 "OWL Execution Substrate - SHACL Reasoning Test"
  blankLine
  let here := (← get).here
  let paths := ["ontology.owl", "individuals.ttl", "rules.shacl.ttl"].map (Path.join here)
  for path in paths do
    if !(← isThere path) then
      say s!"ERROR: Required file not found: {path}"
      say "Run: python inject-into-owl.py first"
      quit 1
  say "Loading rulebook..."
  let book ← (← requireRulebook "ERROR").table "items"
  let tables := describedTables book
  let computed ← computedTables tables
  say ("Tables with computed columns: " ++ Text.join ", " (computed.map Prod.fst))
  say "\nLoading ontology and data..."
  let (g, blanks) ← loadGraph [] 0 (Path.join here "ontology.owl")
  let (g, blanks) ← loadGraph g blanks (Path.join here "individuals.ttl")
  say s!"   Total triples: {g.length}"
  say "\nLoading SHACL rules..."
  let (rules, _) ← loadGraph [] blanks (Path.join here "rules.shacl.ttl")
  say s!"   Rule triples: {rules.length}"
  say "\nRunning SHACL-SPARQL reasoning..."
  say "   (Multiple passes to resolve dependencies between computed fields)"
  let g ← guarded (do
    let (g, passes) ← reason g 0 5
    say s!"   Completed in {passes} passes"
    say s!"   Final triple count: {g.length}"
    return g) fun f => do
    say s!"   ERROR: SHACL reasoning failed: {f.message}"
    quit 1
  say "\nExtracting computed values..."
  let target := Path.join here "test-answers"
  makeFolder target true
  let counts ← computed.mapM (answerTable g tables target)
  say s!"\nTotal: {(Numeral.total counts)} records extracted"
  say s!"Output: {target}/"
  blankLine
  heading 70 "SHACL reasoning complete!"

end Rulebook.Substrate.Ontology
