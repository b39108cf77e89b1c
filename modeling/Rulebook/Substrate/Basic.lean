/-
Substrates: forms into which rulebooks are brought and in which their calculated fields are
computed.
-/

import Rulebook.Schema.Table
import Rulebook.Workspace.Files

namespace Rulebook.Substrate

open Workspace Text

def rulebookPath : String := "../../effortless-rulebook/effortless-rulebook.json"

def loadRulebook : Run Value := do
  if ← isThere rulebookPath then readJson rulebookPath
  else throw ⟨.noFile, "Rulebook not found at " ++ rulebookPath⟩

def requireRulebook (label : String) : Run Value :=
  tryCatch loadRulebook fun f => do
    if f.kind ≠ .noFile then throw f
    say (label ++ ": " ++ f.message)
    quit 1

def ownName : Run String := return Path.name (← get).here

def removeGenerated (file : String) : Run Bool := do
  let path := Path.join (← get).here file
  if ← isThere path then
    guarded (do
      removeFile path
      say s!"  Removed: {file}"
      return true) fun f => do
      say s!"  Failed to remove {file}: {f.message}"
      return false
  else
    say s!"  Skipped (not found): {file}"
    return false

def removeAllGenerated (files : List String) (substrate : String) : Run (List String) := do
  say s!"Cleaning generated files for {substrate}..."
  let removed ← files.filterM removeGenerated
  if removed.isEmpty then say "No files to clean"
  else say s!"Cleaned {removed.length} file(s)"
  return removed

def cleaning (files : List String) (description : String) : Run Bool := do
  if !(← get).arguments.contains "--clean" then return false
  let substrate ← ownName
  say s!"\n{description}\n"
  say (times 60 "=")
  say s!"CLEAN MODE: {Text.upper substrate}"
  say (times 60 "=")
  let _ ← removeAllGenerated files substrate
  return true

def readmeText (name : String) (description technology : Option String) : String :=
  let about := description.getD
    (s!"Placeholder for {name} generation from the Effortless Rulebook.")
  let chosen := match technology with
    | some t => if t.isEmpty then "" else s!"\n## Technology\n\n{t}\n"
    | none => ""
  "# " ++ titleCase name ++ s!" Language Candidate\n\n{about}\n" ++ chosen
    ++ "\n## Status\n\nThis is a placeholder generated by the ERB orchestration system.\n"
    ++ "\n## Source\n\nGenerated from: `effortless-rulebook/effortless-rulebook.json`\n\n"

def writeReadme (name : String) (description technology : Option String) : Run Unit := do
  let path := Path.join (← get).here "README.md"
  writeText path (readmeText name description technology)
  say s!"Created {path}"

def heading (width : Nat) (title : String) : Run Unit := do
  say (times width "=")
  say title
  say (times width "=")

def blankLine : Run Unit := say ""

def calculatedFields (schema : Value) : Except Fault (List Record) := do
  let fields ← schema.iterate
  fields.filterMapM fun f => do
    let e ← f.table "get"
    return if (e.get "type").equal (.str "calculated") && (e.get "formula").truthy then some e
      else none

def listCalculated (table : String) (schema : Value) : Run Nat := do
  let fields ← calculatedFields schema
  if !fields.isEmpty then
    say s!"  {table}: {fields.length} calculated fields"
    for f in fields do
      let name ← (Value.dict f).member "name"
      say s!"    - {name.text}"
  return fields.length

def introduce (title purpose : String) : Run Record := do
  heading 70 title
  blankLine
  say "Loading rulebook..."
  let book ← (← requireRulebook "ERROR").table "items"
  let entities := Schema.entities book
  say (s!"Discovered {entities.length} entities: " ++ join ", " entities)
  blankLine
  let counts ← entities.mapM fun entity => do
    listCalculated entity (← Schema.schemaOf .loose book entity)
  blankLine
  say s!"Total: {(Numeral.total counts)} calculated fields to {purpose}"
  blankLine
  say (times 70 "-")
  blankLine
  return book

def missing (path : String) : Run Unit := do
  say s!"Error: {path} not found"
  quit 1

def requireFile (path : String) : Run Unit := do
  if !(← isThere path) then missing path

def requireFolder (folder : String) : Run Unit := do
  if !(← isFolder folder) then missing folder

def blankTests : Run String := do
  let folder := Path.joinAll (Path.parent (Path.parent (← get).here)) ["testing", "blank-tests"]
  requireFolder folder
  return folder

def sayProcessed (name : String) (counts : List Nat) : Run Unit :=
  say (s!"{name} substrate: Processed {counts.length} entities, "
    ++ toString (Numeral.total counts) ++ " total records")

def writeGenerated (path text : String) : Run Unit := do
  writeText path text
  say s!"Wrote: {path} ({text.length} bytes)"

/-- The test files of a directory, without notes. A hidden file counts only where asked for. -/
def testFiles (folder : String) (hidden : Bool) : Run (List String) := do
  let names ← namesEnding folder ".json"
  return names.filter fun n => !startsWith n "_" && (hidden || !startsWith n ".")

def entityOf (file : String) : String := replace file ".json" ""

end Rulebook.Substrate

namespace Rulebook.Substrate.Batch

open Workspace

/-! ### Generating several substrates -/

def generators : List String :=
  ["python", "english", "golang", "binary", "csv", "uml", "owl", "rdf", "graphql", "docx"]

def section_ (lines : List String) : Run Unit := do
  say ("\n" ++ Text.times 60 "=")
  lines.forM say
  say (Text.times 60 "=")

def runOne (name : String) : Run Bool := do
  let root := (← get).root
  let file := s!"inject-into-{name}.py"
  let script := Path.joinAll root ["orchestration", "injection-scripts", file]
  if !(← isThere script) then
    say s!"Error: Generator script not found: {script}"
    return false
  let folder := Path.joinAll root ["execution-substrates", name]
  makeFolder folder true
  section_ ["Running: " ++ file, "Working dir: " ++ folder]
  let reply ← runChild ["python3", script] 0
  return reply.code == 0

def targets (named : List String) : Run (List String) := do
  match named.find? (!generators.contains ·) with
  | some unknown =>
    say s!"Unknown generator: {unknown}"
    say ("Available: " ++ Text.join ", " generators)
    quit 1
  | none => return if named.isEmpty then generators else named

def run : Run Unit := do
  let given := (← get).arguments
  if given.head? = some "--list" then
    say "Available generators:"
    generators.forM fun n => say s!"  - {n}"
    return
  let mut results : Record := []
  for name in ← targets given do
    let done ← runOne name
    results := results.put name (.bool done)
  section_ ["Summary:"]
  for (name, done) in results do
    say (s!"  {name}: " ++ if done.isTrue then "OK" else "FAILED")
  let failed := (results.filter fun r => !r.2.isTrue).map Prod.fst
  if failed.isEmpty then say "\nAll generators completed successfully."
  else
    say ("\nFailed: " ++ Text.join ", " failed)
    quit 1

end Rulebook.Substrate.Batch
