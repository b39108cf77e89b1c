/-
The native substrate: compiled functions are called on packed records.
-/

import Rulebook.Native.Compile
import Rulebook.Substrate.Basic

namespace Rulebook.Substrate.Native

open Workspace Substrate Rulebook.Native
open Rulebook.Native (Session Slot Tree)

def formulaKind : Formula.Expr → String
  | .bool _ | .misfit .boolean _ => "LiteralBool"
  | .int _ | .misfit .integer _ => "LiteralInt"
  | .str _ | .misfit .text _ => "LiteralString"
  | .field _ => "FieldRef"
  | .binary .. => "BinaryOp"
  | .unary .. => "UnaryOp"
  | .call .. => "FuncCall"
  | .concat _ => "Concat"

def treeKind : Tree → String
  | .loadBool .. => "IRLoadBool"
  | .loadInt .. => "IRLoadInt"
  | .loadText .. => "IRLoadString"
  | .bool _ | .misfit .boolean _ => "IRLiteralBool"
  | .int _ | .misfit _ _ => "IRLiteralInt"
  | .text .. => "IRLiteralString"
  | .not _ => "IRNot"
  | .and _ => "IRAnd"
  | .or _ => "IROr"
  | .compare .. => "IRCompare"
  | .ite .. => "IRIf"
  | .concat _ => "IRConcat"

def typeName : Datatype → String
  | .boolean => "BOOL"
  | .integer => "INT"
  | .text => "STRING"

structure Job where
  field : String
  entity : String
  formula : String
  layout : List Slot

def formulaOf (column : Value) : Except Fault (Option String) := do
  let entries ← column.table "get"
  let v := if (entries.get "formula").truthy then entries.get "formula"
    else entries.get "calculation"
  match v with
  | .str s => return if s.isEmpty then none else some s
  | v =>
    if v.truthy then throw (.ofType s!"object of type '{v.typeName}' has no len()")
    return none

def survey (book : Record) (entity : String) : Run (List Job) := do
  let schema ← Schema.schemaOf .loose book entity
  if !schema.truthy then
    say s!"  {entity}: No schema found, skipping"
    return []
  say s!"\n📐 Building schema for {entity}..."
  let values ← schema.iterate
  let columns ← (values.mapM Column.lenient : Except Fault (List Column))
  let layout := slots (← typedNames columns)
  for s in layout do
    say s!"   {s.name}: offset={s.offset}, type={typeName s.type}, size={s.size}"
  let jobs ← ((values.zip columns).mapM fun (v, c) => do
    let formula ← formulaOf v
    return formula.map fun f => ⟨Names.snake c.name, Names.snake entity, f, layout⟩ :
    Except Fault (List (Option Job)))
  return jobs.reduceOption

structure Compiled where
  session : Session := {}
  functions : List String := []

def compile (c : Compiled) (job : Job) : Run Compiled := do
  let function := job.entity ++ "_" ++ job.field
  say s!"\n>>> Compiling: {function}"
  say s!"    Formula: {job.formula}"
  say "    Phase 1: Parsing..."
  match Formula.parse job.formula with
  | .error f =>
    say s!"    ⚠️  Skipping (parse error): {f.message}"
    return c
  | .ok expr =>
    say s!"    AST: {formulaKind expr}"
    say "    Phase 2: Lowering to IR..."
    let (tree, session) := c.session.lower job.layout expr
    match tree with
    | .error e =>
      say s!"    ⚠️  Skipping (lowering error): {e.fault.message}"
      return { c with session := session }
    | .ok tree =>
      say s!"    IR: {treeKind tree}, result_type={typeName tree.type}"
      say "    Phase 3: Generating assembly..."
      let (lines, session) := session.emit (functionName function) tree
      match lines with
      | .error e =>
        say s!"    ⚠️  Skipping (codegen error): {e.fault.message}"
        return { c with session := session }
      | .ok lines =>
        let text := linesText lines
        say ("    Generated " ++ toString (Text.lines text).length ++ " lines of assembly")
        say "    ✅ Done"
        return { session := session, functions := c.functions ++ [text] }

def source (c : Compiled) : String :=
  Text.join "\n" ["", "; ERB Binary Substrate - Generated Assembly (ARM64 / Apple Silicon)",
    "; Generated from rulebook formulas - DO NOT HAND-EDIT", ";",
    "; This file is GENERATED by inject-into-binary.py",
    "; The formulas are the source of truth, not this assembly.", "",
    linesText supportLines, "",
    linesText c.session.data, "", "    .text", "",
    Text.join "\n" c.functions, ""]

def isDarwin : Run Bool := return (← get).services.system = "Darwin"

def runTool (command : List String) (product stage : String) : Run Unit := do
  say ("   Running: " ++ Text.join " " command)
  let reply ← runChild command 0
  if reply.code ≠ 0 then
    say s!"   {stage} failed: {reply.errors}"
    throw ⟨.service, stage ++ " failed: " ++ reply.errors⟩
  say s!"   Created: {product}"

def build (text : String) : Run String := do
  let here := (← get).here
  let darwin ← isDarwin
  let assembly := Path.join here "erb_calc.s"
  let object := Path.join here "erb_calc.o"
  let library := Path.join here (if darwin then "erb_calc.dylib" else "erb_calc.so")
  writeText assembly text
  say s!"   Wrote: {assembly}"
  runTool ((if darwin then ["clang", "-c"] else ["as"]) ++ ["-o", object, assembly]) object
    "Assembly"
  runTool ([if darwin then "clang" else "ld", "-shared", "-o", library, object]) library "Linking"
  return library

def preview (formula : String) : String :=
  if 60 < formula.length then Text.takeFront formula 60 ++ "..." else formula

def generate : Run Unit := do
  if ← cleaning ["erb_calc.s", "erb_calc.o", "erb_calc.dylib", "erb_calc.so", "test-answers.json",
      "test-results.md"] "Binary substrate: Removes generated assembly and compiled library" then
    return
  heading 70 "Binary Execution Substrate - Formula-to-Assembly Compiler"
  blankLine
  say "Loading rulebook..."
  let book ← (← requireRulebook "ERROR").table "items"
  let entities := Schema.entities book
  say (s!"\nDiscovered {entities.length} entities: " ++ Text.join ", " entities)
  let jobs := (← entities.mapM (survey book)).flatten
  say s!"\n📋 Found {jobs.length} calculated fields to compile:"
  for job in jobs do
    say s!"   • {job.field}: {preview job.formula}"
  say ("\n" ++ Text.times 70 "-")
  say "\n🔧 Compiling formulas to assembly...\n"
  let compiled ← jobs.foldlM compile {}
  say ("\n" ++ Text.times 70 "-")
  if compiled.functions.isEmpty then
    say "\n⚠️  No formulas could be compiled to assembly."
    say "   Cross-entity lookups (INDEX/MATCH with Entity!Field) are not yet supported."
    say "   These fields will remain null in test results."
    blankLine
    heading 70 "Compilation skipped (no supported formulas)"
    return
  say "\n🔨 Building shared library..."
  let text := source compiled
  guarded (do
    let library ← build text
    say s!"\n✅ Successfully compiled: {library}") fun f => do
    say s!"\n❌ Build failed: {f.message}"
    let path := Path.join (← get).here "erb_calc.s"
    writeText path text
    say s!"   Assembly source written to: {path}"
    quit 1
  blankLine
  heading 70 "Compilation complete!"

def requireLibrary : Run String := do
  let w ← get
  let name ← match w.services.system with
    | "Darwin" => pure "erb_calc.dylib"
    | "Linux" => pure "erb_calc.so"
    | other =>
      say s!"ERROR: Unsupported platform: {other}"
      quit 1
  let path := Path.join w.here name
  if !(← isThere path) then
    say s!"ERROR: Library not found at {path}"
    say "Run: python inject-into-binary.py first"
    quit 1
  return path

def valueOf : Returns → LibraryReply → Value
  | .truth, .word n => .bool (n ≠ 0)
  | .truth, _ => .bool false
  | _, .text bytes => .str (Text.ofBytes bytes)
  | _, _ => .str ""

def call (e : Entry) (packed : Packed) : Run Value :=
  return valueOf e.returns (← callLibrary ⟨e.name, packed.bytes, packed.texts⟩)

def packValue (shape : Shape) : Value → Except Fault Packed
  | .dict record => pack shape record
  | v => do
    for key in shape.fields.flatMap Field.keys do
      if ← v.holds key then
        let _ ← v.member key
    pack shape []

def putMember (key : String) (new : Value) : Value → Except Fault Value
  | .dict record => return .dict (Record.put record key new)
  | v@(.list _) => v.member key
  | v => throw (.ofType s!"'{v.typeName}' object does not support item assignment")

def completeRecord (shape : Shape) (entries : List Entry)
    (index : Nat) (v : Value) : Run Value :=
  guarded (do
    let packed ← packValue shape v
    entries.foldlM (fun v e =>
      guarded (do putMember e.field (← call e packed) v) fun f => do
        say (s!"  Warning: Error calling {e.name} for record {index}: "
          ++ f.message)
        return v) v) fun f => do
    say s!"ERROR processing record {index}: {f.message}"
    return v

def completeRecords (shape : Shape) (entries : List Entry) (records : List Value) :
    Run (List Value) :=
  records.zipIdx.mapM fun (v, i) => completeRecord shape entries i v

def available (entries : List Entry) : Run (List Entry) :=
  entries.filterM fun e => do
    if ← libraryHas e.name then
      say s!"    Found: {e.name} -> {e.returns.name}"
      return true
    else
      say s!"    Missing: {e.name}"
      return false

def copyAsIs (source target : String) : Run Unit := do
  let data ← readJson source
  writeJson target data

def answerFile (book : Record) (entities : List String) (source target entity : String) :
    Run (Option Nat) := do
  match entities.find? fun e => Names.snake e = entity with
  | none =>
    say s!"  -> {entity}: No matching entity in rulebook, copying as-is"
    copyAsIs source target
    return none
  | some name =>
    let values ← (← Schema.schemaOf .loose book name).iterate
    let columns ← (values.mapM Column.lenient : Except Fault (List Column))
    let shape := shape (← typedNames columns)
    say s!"  Schema for {entity}: {shape.fields.length} fields, {shape.total} bytes"
    let entries ← available (← entriesOf book name)
    if entries.isEmpty then
      say s!"  -> {entity}: No assembly functions available, copying blank test"
      copyAsIs source target
      return none
    let data ← readJson source
    if !data.truthy then
      writeJson target data
      say s!"  -> {entity}: 0 records (empty)"
      return none
    let records ← data.iterate
    let done ← completeRecords shape entries records
    writeJson target (.list done)
    say s!"  -> {entity}: {done.length} records"
    return some done.length

def answer : Run Unit := do
  let here := (← get).here
  let folder ← blankTests
  let target := Path.join here "test-answers"
  makeFolder target true
  heading 70 "Binary Execution Substrate - Multi-Entity Test Execution"
  blankLine
  let library ← requireLibrary
  say s!"Loaded library: {library}"
  say "Loading rulebook..."
  let book ← (← requireRulebook "ERROR").table "items"
  let entities := Schema.entities book
  say (s!"Discovered {entities.length} entities: " ++ Text.join ", " entities)
  let counts ← (← testFiles folder false).mapM fun file =>
    answerFile book entities (Path.join folder file) (Path.join target file) (entityOf file)
  sayProcessed "\nBinary" counts.reduceOption
  say (Text.times 70 "=")

def answerSingle : Run Unit := do
  let tests := Path.join (← get).here "test-answers.json"
  heading 70 "Binary Execution Substrate - Test Execution"
  blankLine
  let library ← requireLibrary
  say s!"Loaded library: {library}"
  say "\nLoading rulebook..."
  let book ← (← requireRulebook "ERROR").table "items"
  match book.find? fun e => Schema.isTable e.2 with
  | none =>
    say "ERROR: No entity with schema found in rulebook"
    quit 1
  | some (_, table) =>
    let values ← (table.entries.get "schema").iterate
    let columns ← (values.mapM Column.lenient : Except Fault (List Column))
    let shape := shape (← typedNames columns)
    say s!"Schema built: {shape.fields.length} fields, struct size: {shape.total} bytes"
    say s!"\nLoading test data: {tests}"
    if !(← isThere tests) then
      say s!"ERROR: Test file not found: {tests}"
      quit 1
    let data ← readJson tests
    let count ← data.size
    say s!"Loaded {count} records"
    say "\nVerifying assembly functions..."
    throw ⟨.name, "name 'get_available_functions' is not defined"⟩

end Rulebook.Substrate.Native
