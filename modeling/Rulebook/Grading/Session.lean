/-
A test session: answer keys, blank tests, answers, grades and reports.
-/

import Rulebook.Grading.Report

namespace Rulebook.Grading.Display

open Workspace Text

/-! ### Results on the terminal -/

def green : String := "\x1b[92m"
def red : String := "\x1b[91m"
def yellow : String := "\x1b[93m"
def reset : String := "\x1b[0m"
def bold : String := "\x1b[1m"
def skyGround : String := "\x1b[48;5;117m"
def darkText : String := "\x1b[38;5;232m"
def greenGround : String := "\x1b[48;5;22m"
def redGround : String := "\x1b[48;5;52m"
def whiteText : String := "\x1b[97m"

def width : Nat := 60

def centred (n : Nat) (s : String) : String :=
  let missing := n - s.length
  times (missing / 2) " " ++ s ++ times (missing - missing / 2) " "

def failedToCompute (g : Grades) : Bool := g.error?.isSome && g.tested == 0

def status (g : Grades) : String :=
  if failedToCompute g then "FAILED TO COMPUTE"
  else if g.error?.isSome then "ERROR"
  else if g.failed = 0 then "PASS"
  else "FAIL"

def columnLine (style : String) (failures : List Failure) (column : String) : String :=
  let wrong := (failures.filter (·.column == column)).length
  let mark := if wrong = 0 then green ++ "✓" ++ reset else red ++ toString wrong ++ reset
  "  " ++ style ++ "│     " ++ padEnd 40 (takeFront column 30) ++ " "
    ++ padStart 18 mark ++ " │" ++ reset

def entityLines (style entity : String) (g : EntityGrade) : List String :=
  let (ground, icon, result) :=
    if g.failed = 0 then (greenGround, "✓", "PASS")
    else (redGround, "✗", s!"FAIL ({g.failed}/{g.tested})")
  ("  " ++ ground ++ whiteText ++ s!"│  {icon} " ++ padEnd 40 (takeFront entity 35)
    ++ s!" {Text.padStart 12 result} │" ++ reset)
    :: g.columns.map (columnLine style g.failures)

def boxLines (substrate : String) (g : Grades) : Except Fault (List String) := do
  let failed := failedToCompute g
  let style := if failed then redGround ++ whiteText else skyGround ++ darkText
  let border := fun (left right : String) =>
    "  " ++ style ++ left ++ times width "─" ++ right ++ reset
  let score :=
    if failed then "Score: --/-- (--%) - " ++ status g
    else s!"Score: {g.passed}/{g.tested} ({g.score.percentText}%) - " ++ status g
  let time ← duration g.elapsed
  return [
    border "┌" "┐",
    s!"  {style}│{bold} " ++ centred (width - 2) (upper substrate) ++ " "
      ++ reset ++ style ++ "│" ++ reset,
    s!"  {style}│ " ++ (if failed then red else g.score.color) ++ bold
      ++ centred (width - 2) score ++ reset ++ style ++ " │" ++ reset,
    s!"  {style}│ " ++ centred (width - 2) ("Duration: " ++ time) ++ " │" ++ reset,
    border "├" "┤"]
    ++ g.entities.flatMap (fun e => entityLines style e.1 e.2)
    ++ (if failed then
        ["  " ++ redGround ++ whiteText ++ "│ ERROR: "
          ++ padEnd (width - 9) (takeFront (g.error.getD "") 50) ++ " │" ++ reset]
      else [])
    ++ [border "└" "┘", ""]

def printBox (substrate : String) (g : Grades) : Run Unit := do
  let lines ← boxLines substrate g
  lines.forM say

def tableRow (name : String) (g : Grades) : Except Fault String := do
  let mark :=
    if failedToCompute g then red ++ "FAILED" ++ reset
    else if g.failed = 0 then green ++ "PASS" ++ reset
    else yellow ++ "PARTIAL" ++ reset
  return padEnd 20 name ++ s!" {Text.padStart 8 (toString g.passed)} "
    ++ padStart 8 (toString g.failed) ++ s!" {Text.padStart 8 (toString g.tested)} "
    ++ g.score.color ++ padStart 7 g.score.percentText ++ s!"%{reset} "
    ++ padStart 10 (← duration g.elapsed) ++ " " ++ padStart 12 mark

def printTable (results : Results) : Run Unit := do
  say ""
  say (times 80 "=")
  say (bold ++ "FINAL RESULTS SUMMARY" ++ reset)
  say (times 80 "=")
  say ""
  say (padEnd 20 "Substrate" ++ " " ++ padStart 8 "Passed" ++ " "
    ++ padStart 8 "Failed" ++ " " ++ padStart 8 "Total" ++ " "
    ++ padStart 8 "Score" ++ " " ++ padStart 10 "Duration" ++ " "
    ++ padStart 12 "Status")
  say (times 80 "-")
  let order ← ranked (·.2.standing) results
  for (name, g) in order do
    let row ← tableRow name g
    say row
  say (times 80 "-")
  let totals ← Totals.of order
  let all := totals.passed + totals.failed
  let time ← duration totals.elapsed
  say (bold ++ padEnd 20 "OVERALL" ++ reset ++ " " ++ padStart 8 (toString totals.passed)
    ++ s!" {Text.padStart 8 (toString totals.failed)} " ++ padStart 8 (toString all)
    ++ " " ++ bold ++ padStart 7 (Score.percentText ⟨totals.passed, all⟩) ++ "%" ++ reset
    ++ " " ++ padStart 10 time)
  say ""

end Rulebook.Grading.Display

namespace Rulebook.Grading.Session

open Schema Workspace

def quotedConnection (line : String) : Option String :=
  Report.search (Report.runBetween "DEFAULT_CONN=\"".toList (· != '"') ['"']) line.toList
    |>.map fun m => .ofList m.1

def connection : Run String := do
  let w ← get
  if !w.standalone then return "postgresql://postgres@localhost:5432/effortless-rulebook-starter"
  let given := ((← environment? "DATABASE_URL").getD "")
  if given ≠ "" then return given
  let path := Path.joinAll w.root ["postgres", "init-db.sh"]
  let found ← if ← isThere path then
      let text ← readText path
      pure ((Text.cut text "\n").findSome? quotedConnection)
    else pure none
  return found.getD "postgresql://postgres@localhost:5432/postgres"

def query (statement : String) : Run Unit :=
  modify fun w => { w with asked := { w.asked with queries := w.asked.queries ++
    [Text.join " " ((Text.wordsOf statement.toList).map .ofList)] } }

def views (rows : List (String × List Record)) : Run (List String) := do
  query ("SELECT table_name FROM information_schema.views WHERE table_name LIKE 'vw_%' "
    ++ "ORDER BY table_name")
  return (rows.map Prod.fst).mergeSort fun a b => compare a b != .gt

def rowsOf (rows : List (String × List Record)) (view : String) (key : Option String) :
    Run (List Record) := do
  let statement := "SELECT * FROM " ++ view ++ (match key.filter (· ≠ "") with
    | some k => " ORDER BY " ++ k
    | none => "")
  query statement
  let named := ((Text.wordsOf statement.toList).map String.ofList).getD 3 ""
  return (rows.lookup named).getD []

def writeAnswerKeys (rows : List (String × List Record)) (book : Record) : Run Record := do
  say "Step 1: Generating answer keys from all views..."
  let folder := Path.join (← testingFolder) "answer-keys"
  freshFolder folder
  let names ← views rows
  say (s!"  Found {names.length} views: " ++ Text.join ", " names)
  let mut keys : Record := []
  for view in names do
    let entity := Text.replace view "vw_" ""
    let schema ← schemaOf .close book entity
    let key ← primaryKey schema
    let _ ← computedColumns schema
    let records ← rowsOf rows view key
    let value := Value.list (records.map .dict)
    writeJson (Path.join folder (entity ++ ".json")) value
    keys := keys.put entity value
    say s!"  -> {entity}: {records.length} records"
  return keys

structure Outcome where
  error : Option String := none
  skipped : Bool := false

def takeTest (substrate : String) : Run Outcome := do
  let script := Path.join (← substrateFolder substrate) "take-test.sh"
  if !(← isThere script) then return { error := some "No take-test.sh found" }
  match ← attempted (runChild ["bash", script] 600) with
  | .error f => return {
      error := some (if f.kind = .timeout then "Script timed out" else f.message) }
  | .ok reply =>
    if Text.contains reply.output "SUBSTRATE_SKIPPED" then return { skipped := true }
    if reply.code ≠ 0 then
      return { error := some s!"Script failed: {Text.takeFront reply.errors 200}" }
    return {}

def lastDuration (substrate : String) : Run Value := do
  let entry := History.entryOf (← History.load) substrate
  let lastRun ← entry.getOr "last_run" (.dict [])
  lastRun.getOr "duration_seconds" (.float 0.0)

def runOne (keys book : Record) (substrate : String) : Run Grades := do
  let tests ← prepare substrate
  say s!"      Prepared {substrate} ({tests} tests from shared testing/blank-tests/)"
  let outcome ← takeTest substrate
  let graded ← gradeSubstrate substrate keys book
  let graded := match outcome.error.filter (· ≠ "") with
    | some e => { graded with error := some e }
    | none => graded
  let grades ← if outcome.skipped then do
      say s!"      {substrate} was SKIPPED - using previous timing"
      pure { graded with elapsed := ← lastDuration substrate, skipped := some true }
    else pure { graded with skipped := some false }
  Report.write substrate grades
  Display.printBox substrate grades
  say (Text.times 5 "\n")
  return grades

def runAll (keys book : Record) : Run Results := do
  say "Step 3: Running and grading tests for each substrate..."
  say ""
  let names ← substrates
  say (s!"  Found {names.length} substrates: " ++ Text.join ", " names)
  say ""
  names.zipIdx.mapM fun (substrate, i) => do
    say ("  [" ++ toString (i + 1) ++ s!"/{names.length}] Testing {substrate}...")
    return (substrate, ← runOne keys book substrate)

def loadRulebook : Run Record := do
  let path ← rulebookPath
  if ← isThere path then
    let book ← readJson path
    book.table "items"
  else
    say s!"  WARNING: Rulebook not found at {path}"
    return []

def run : Run Unit := do
  let source ← connection
  Substrate.heading 60 "TEST ORCHESTRATOR (Generic / Domain-Agnostic)"
  say ""
  let book ← loadRulebook
  let names := entities book
  say (s!"Discovered {names.length} entities in rulebook: " ++ Text.join ", " names)
  say ""
  let rows ← match (← get).services.database with
    | some (.views rows) => pure rows
    | some (.unreachable text) =>
      say s!"ERROR: Failed to connect to database: {text}"
      say s!"  Connection string: {source}"
      quit 1
    | none => pure []
  say "Connected to database"
  say ""
  let keys ← writeAnswerKeys rows book
  say ""
  let _ ← writeBlankTests keys book
  say ""
  let results ← runAll keys book
  say ""
  say (Text.times 3 "\n")
  let _ ← writeSummary results
  say ""
  Display.printTable results
  Substrate.heading 60 "DONE"

end Rulebook.Grading.Session
