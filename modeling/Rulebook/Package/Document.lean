/-
The generated Go package of a rulebook.

Each table becomes a struct; each calculated column a method.
-/

import Rulebook.Emit.Dialect
import Rulebook.Schema.Schedule
import Rulebook.Substrate.Basic

namespace Rulebook.Package

open Text

/-! ### The fixed parts of the generated Go package -/

def imports (names : List String) : List String :=
  ["package main", "", "import ("] ++ names.map (fun n => s!"\t\"{n}\"") ++ [")", ""]

def banner (title : String) : List String :=
  let rule := "// " ++ times 77 "="
  [rule, "// " ++ title, rule, ""]

def helper (remark head test special usual : String) : List String :=
  ["// " ++ remark, s!"func {head} \x7b", s!"\tif {test} \x7b",
   "\t\treturn " ++ special, "\t\x7d", "\treturn " ++ usual, "\x7d", ""]

def headLines : List String :=
  ["// ERB SDK - Go Implementation (GENERATED - DO NOT EDIT)", "// " ++ times 54 "=",
   "// Generated from: effortless-rulebook/effortless-rulebook.json", "//",
   "// This file contains structs and calculation functions",
   "// for all tables defined in the rulebook.", ""]
  ++ imports ["encoding/json", "fmt", "os", "strconv"] ++ banner "HELPER FUNCTIONS"
  ++ helper "boolVal safely dereferences a *bool, returning false if nil"
    "boolVal(b *bool) bool" "b == nil" "false" "*b"
  ++ helper "stringVal safely dereferences a *string, returning \"\" if nil"
    "stringVal(s *string) string" "s == nil" "\"\"" "*s"
  ++ helper "nilIfEmpty returns nil for empty strings, otherwise a pointer to the string"
    "nilIfEmpty(s string) *string" "s == \"\"" "nil" "&s"
  ++ helper "intToString safely converts a *int to string, returning \"\" if nil"
    "intToString(i *int) string" "i == nil" "\"\"" "strconv.Itoa(*i)"
  ++ helper "boolToString converts a bool to \"true\" or \"false\""
    "boolToString(b bool) string" "b" "\"true\"" "\"false\""

def storageHead : List String := banner "FILE I/O FUNCTIONS (for all tables with calculated fields)"

def storageLines (table struct : String) : List String :=
  [s!"// Load{struct}Records loads {table} records from a JSON file",
   s!"func Load{struct}Records(path string) ([]{struct}, error) \x7b",
   "\tdata, err := os.ReadFile(path)", "\tif err != nil \x7b",
   "\t\treturn nil, fmt.Errorf(\"failed to read file: %w\", err)", "\t\x7d", "",
   "\tvar records []" ++ struct, "\tif err := json.Unmarshal(data, &records); err != nil \x7b",
   "\t\treturn nil, fmt.Errorf(\"failed to parse file: %w\", err)", "\t\x7d", "",
   "\treturn records, nil", "\x7d", "",
   s!"// Save{struct}Records saves computed {table} records to a JSON file",
   s!"func Save{struct}Records(path string, records []{struct}) error \x7b",
   "\tdata, err := json.MarshalIndent(records, \"\", \"  \")", "\tif err != nil \x7b",
   "\t\treturn fmt.Errorf(\"failed to marshal records: %w\", err)", "\t\x7d", "",
   "\tif err := os.WriteFile(path, data, 0644); err != nil \x7b",
   "\t\treturn fmt.Errorf(\"failed to write records: %w\", err)", "\t\x7d", "", "\treturn nil",
   "\x7d", ""]

def fatal (test what : String) : List String :=
  [s!"\tif {test}err != nil \x7b",
   s!"\t\tfmt.Fprintf(os.Stderr, \"FATAL: Failed to {what}: %v\\n\", err)",
   "\t\tos.Exit(1)", "\t\x7d", ""]

def runnerHead (tables : List String) : List String :=
  ["// ERB SDK - Go Test Runner (GENERATED - DO NOT EDIT)", "// " ++ times 55 "=",
   "// This file is REGENERATED every time inject-into-golang.py runs.",
   "// It must stay in sync with erb_sdk.go and the rulebook.", "//",
   "// Tables with calculated fields: " ++ join ", " tables, "//",
   "// IMPORTANT: This runner processes ALL tables, not just a \"primary\" one.",
   "// If ANY table fails to process, the entire run fails with exit code 1.", ""]
  ++ imports ["fmt", "os", "path/filepath"]
  ++ ["func main() \x7b", "\tscriptDir, err := os.Getwd()"]
  ++ fatal "" "get working directory"
  ++ ["\t// Shared blank-tests directory at project root",
   "\tblankTestsDir := filepath.Join(scriptDir, \"..\", \"..\", \"testing\", \"blank-tests\")",
   "\ttestAnswersDir := filepath.Join(scriptDir, \"test-answers\")", "",
   "\t// Ensure output directory exists"]
  ++ fatal "err := os.MkdirAll(testAnswersDir, 0755); " "create test-answers directory"
  ++ ["\tfmt.Println(\"Golang substrate: Processing " ++ toString tables.length
     ++ " tables with calculated fields...\")",
   "\tfmt.Println(\"  Expected tables: " ++ join ", " tables ++ "\")", "\tfmt.Println(\"\")", "",
   "\t// Track success/failure for ALL tables", "\tvar errors []string", "\tvar totalRecords int",
   ""]

def remark (text : String) : List String :=
  let rule := "\t// " ++ times 65 "─"
  [rule, "\t// " ++ text, rule]

def noteError (margin table step : String) : List String :=
  [s!"errMsg := fmt.Sprintf(\"{table}: failed to {step} - %v\", err)",
   "fmt.Fprintf(os.Stderr, \"ERROR: %s\\n\", errMsg)",
   "errors = append(errors, errMsg)"].map (margin ++ ·)

def runnerTable (table struct key : String) : List String :=
  let computed := "computed" ++ struct
  remark s!"Process {table}"
  ++ [s!"\tfmt.Println(\"Processing {table}...\")",
   s!"\t{key}Input := filepath.Join(blankTestsDir, \"{key}.json\")",
   s!"\t{key}Output := filepath.Join(testAnswersDir, \"{key}.json\")", "",
   s!"\t{key}Records, err := Load{struct}Records({key}Input)",
   "\tif err != nil \x7b"]
  ++ noteError "\t\t" table "load"
  ++ ["\t\x7d else \x7b", s!"\t\tvar {computed} []" ++ struct,
   s!"\t\tfor _, r := range {key}Records \x7b",
   s!"\t\t\t{computed} = append({computed}, *r.ComputeAll())", "\t\t\x7d", "",
   s!"\t\tif err := Save{struct}Records({key}Output, {computed}); err != nil \x7b"]
  ++ noteError "\t\t\t" table "save"
  ++ ["\t\t\x7d else \x7b",
   s!"\t\t\tfmt.Printf(\"  ✓ {key}: %d records processed\\n\", len({computed}))",
   s!"\t\t\ttotalRecords += len({computed})", "\t\t\x7d", "\t\x7d",
   "\tfmt.Println(\"\")", ""]

def runnerTail (tables : List String) : List String :=
  let rule := times 64 "═"
  let heavy := s!"\t\tfmt.Fprintf(os.Stderr, \"{rule}\\n\")"
  let last := s!"\tfmt.Println(\"{rule}\")"
  remark "Final validation - FAIL LOUDLY if any errors occurred"
  ++ ["\tif len(errors) > 0 \x7b", "\t\tfmt.Fprintf(os.Stderr, \"\\n\")", heavy,
   "\t\tfmt.Fprintf(os.Stderr, \"FATAL: %d table(s) FAILED to process\\n\", len(errors))", heavy,
   "\t\tfor _, e := range errors \x7b", "\t\t\tfmt.Fprintf(os.Stderr, \"  • %s\\n\", e)",
   "\t\t\x7d", "\t\tfmt.Fprintf(os.Stderr, \"\\n\")", "\t\tos.Exit(1)", "\t\x7d", "", last,
   "\tfmt.Printf(\"Golang substrate: ALL %d tables processed successfully (%d total records)\\n\", "
     ++ toString tables.length ++ ", totalRecords)", last, "\x7d"]

def runner (tables : List String) : String :=
  join "\n" (runnerHead tables ++
    (tables.flatMap fun t => runnerTable t (Names.singular t) (Names.snake t)) ++
    runnerTail tables)

/-!
### Formulas inside a method of the generated package

Where other columns have been computed already, their members are replaced by the variables that
hold the values; the helpers and tests for missing values around them go.
-/

def uptoParen : List Char → Option (List Char × List Char)
  | [] => none
  | ')' :: rest => some ([], rest)
  | c :: rest => (uptoParen rest).map fun (a, b) => (c :: a, b)

/-- A text in which what is found at a place is replaced. -/
def rewritten (found : List Char → Option (List Char × List Char)) : Nat → List Char → List Char
  | 0, cs => cs
  | _ + 1, [] => []
  | fuel + 1, c :: rest =>
    match found (c :: rest) with
    | some (text, after) => text ++ rewritten found fuel after
    | none => c :: rewritten found fuel rest

/-- Equality of a variable with an operand, which is read through a helper when it is a
member. -/
def variableEquality? (object var : String) (lead cs : List Char) :
    Option (List Char × List Char) :=
  match (after? lead cs).bind uptoParen with
  | some (c :: operand, rest) =>
    let rhs := String.ofList (c :: operand)
    let rhs := if startsWith rhs (object ++ ".") then s!"boolVal({rhs})" else rhs
    some ((s!"({var} == {rhs})").toList, rest)
  | _ => none

def useVariable (object : String) (text : String) (field var : String) : String :=
  let member := object ++ "." ++ field
  let text := replace text s!"boolVal({member})" var
  let text := replace text s!"stringVal({member})" var
  let lead := (s!"({member} != nil && *{member} == ").toList
  let text := String.ofList
    (rewritten (variableEquality? object var lead) text.length text.toList)
  let text := replace text (member ++ " != nil && *" ++ member) var
  replace text member var

def guardedCondition? (lead cs : List Char) : Option (List Char × List Char) := do
  let rest ← after? ("if ".toList ++ lead) cs
  match rest.takeWhile isWord, rest.dropWhile isWord with
  | c :: name, ' ' :: '\x7b' :: rest =>
    some ("if boolVal(".toList ++ lead ++ c :: name ++ ") \x7b".toList, rest)
  | _, _ => none

def expression? (object : String) (computed : List (String × String)) (types : Record)
    (c : Column) : Except Fault String := do
  let e ← c.expression
  let text ← (Emit.render (Emit.Struct.dialect object types) e).mapError Emit.Error.fault
  let text := computed.foldl (fun t v => useVariable object t v.1 v.2) text
  return .ofList (rewritten (guardedCondition? (object ++ ".").toList) text.length text.toList)

def failing (why : String) : String :=
  s!"func() interface\x7b\x7d \x7b panic(\"Formula parse error: {why}\") \x7d()"

def expression (object : String) (computed : List (String × String)) (types : Record)
    (c : Column) : String :=
  match expression? object computed types c with
  | .ok text => text
  | .error f => failing f.message

def receiver : String := "tc"

def memberLine (c : Column) : Except Fault String := do
  let type ← c.declaredType
  let nullable := (c.entries.getD "nullable" (.bool true)).truthy
  let key ← c.declaredKey
  return s!"\t{c.name} {type.structType nullable} `json:\"{key}\"`"

def structLines (table : String) (columns : List Column) : Except Fault (List String) := do
  let computed := computedOf columns
  let stored := (rawOf columns).filter fun c => computed.all (·.name ≠ c.name)
  let members ← (stored ++ computed).mapM memberLine
  let name := Names.singular table
  return [s!"// {name} represents a row in the {table} table",
    s!"type {name} struct \x7b"] ++ members ++ ["\x7d"]

def resultType (c : Column) : String :=
  if c.datatypeName = "boolean" then "bool"
  else if c.datatypeName = "integer" then "int"
  else "string"

def methodLines (struct : String) (types : Record) (c : Column) :
    Except Fault (List String) := do
  let formula ← c.formulaLine
  return [s!"// Calc{c.name} computes the {c.name} calculated field",
    "// Formula: " ++ trim formula,
    s!"func ({receiver} *{struct}) Calc{c.name}() {resultType c} \x7b",
    "\treturn " ++ expression receiver [] types c, "\x7d"]

def computeColumn (types : Record) (state : List String × List (String × String)) (c : Column) :
    List String × List (String × String) :=
  let var := Names.camel c.name
  (state.1 ++ [s!"\t{var} := " ++ expression receiver state.2 types c],
    state.2 ++ [(c.name, var)])

def computeLevel (types : Record) (state : List String × List (String × String))
    (level : List Column × Nat) : List String × List (String × String) :=
  let headed := (state.1 ++ ["\t// Level " ++ toString (level.2 + 1) ++ " calculations"], state.2)
  let (lines, computed) := level.1.foldl (computeColumn types) headed
  (lines ++ [""], computed)

def resultLine (c : Column) : String :=
  let var := Names.camel c.name
  if c.datatypeName = "boolean" || c.datatypeName = "integer" then
    s!"\t\t{c.name}: &{var},"
  else s!"\t\t{c.name}: nilIfEmpty({var}),"

def computeAllLines (struct : String) (columns : List Column) (types : Record)
    (levels : List (List Column)) : List String :=
  let (body, _) := levels.zipIdx.foldl (computeLevel types) ([], [])
  ["// ComputeAll computes all calculated fields and returns an updated struct",
    s!"func ({receiver} *{struct}) ComputeAll() *{struct} \x7b"] ++ body ++
    [s!"\treturn &{struct}\x7b"] ++
    ((rawOf columns).map fun c => s!"\t\t{c.name}: {receiver}.{c.name},") ++
    (computedOf columns).map resultLine ++ ["\t\x7d", "\x7d"]

def tableLines (table : String) (columns : List Column) :
    Except Fault (List String × List String) := do
  let struct := Names.singular table
  let types := Record.ofEntries
    (columns.map fun c => (c.name, c.entries.getD "datatype" (.str "string")))
  let head := banner s!"{upper table} TABLE"
  let members ← structLines table columns
  let computed := computedOf columns
  if computed.isEmpty then return (head ++ members ++ [""], [])
  let jobs := computed.map Schedule.Job.ofColumn
  let levels := Schedule.levels jobs ((rawOf columns).map Column.name)
  let methods ← computed.mapM fun c => do return (← methodLines struct types c) ++ [""]
  return (head ++ members ++ ["", "// --- Individual Calculation Functions ---", ""] ++ methods.flatten ++
    ["// --- Compute All Calculated Fields ---", ""] ++
    computeAllLines struct columns types (Schedule.columnsOf computed levels) ++ [""],
    Schedule.warnings jobs levels)

def tablesOf (book : Record) : Except Fault (List (String × List Column)) :=
  ((Schema.tableNames book).filter fun t => Schema.isTable (book.get t)).mapM fun t => do
    return (t, ← Column.listOf (← (book.get t).getOr "schema" (.list [])))

def computedTables (tables : List (String × List Column)) : List String :=
  (tables.filter fun t => !(computedOf t.2).isEmpty).map Prod.fst

def document (book : Record) : Except Fault (String × List String) := do
  let tables ← tablesOf book
  let parts ← tables.mapM fun t => tableLines t.1 t.2
  let computed := computedTables tables
  let storage := if computed.isEmpty then []
    else storageHead ++ computed.flatMap fun t => storageLines t (Names.singular t)
  return (join "\n" (headLines ++ parts.flatMap Prod.fst ++ storage), parts.flatMap Prod.snd)

end Rulebook.Package

namespace Rulebook.Substrate.Package

open Workspace Substrate

/-! ### The package substrate -/

def generate : Run Unit := do
  if ← cleaning ["erb_sdk.go", "main.go"] "Golang substrate: Removes generated erb_sdk.go" then
    return
  heading 70 "Golang Execution Substrate - Generic Rulebook Transpiler"
  blankLine
  say "Loading rulebook..."
  let book ← (← requireRulebook "ERROR").table "keys"
  let names := Schema.tableNames book
  say (s!"Found {names.length} tables: " ++ Text.join ", " names)
  blankLine
  let mut total := 0
  let mut computed := #[]
  for name in names do
    if Schema.isTable (book.get name) then
      let n ← listCalculated name ((book.get name).entries.get "schema")
      if 0 < n then computed := computed.push name
      total := total + n
  blankLine
  say s!"Total calculated fields to compile: {total}"
  say (s!"Tables with calculated fields ({computed.size}): "
    ++ Text.join ", " computed.toList)
  blankLine
  say (Text.times 70 "-")
  blankLine
  say "Generating erb_sdk.go..."
  let (text, warnings) ← Package.document book
  for warning in warnings do
    say warning
  writeGenerated (Path.join (← get).here "erb_sdk.go") text
  if computed.isEmpty then
    say "ERROR: No tables with calculated fields found - cannot generate main.go"
    quit 1
  say s!"Generating main.go (processes ALL {computed.size} tables)..."
  writeGenerated (Path.join (← get).here "main.go") (Package.runner computed.toList)
  blankLine
  heading 70 "Generation complete!"

end Rulebook.Substrate.Package
