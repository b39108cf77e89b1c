/-
The report of a substrate.

A page of Markdown has the counts, the error if there is one, and for every entity the first
failures. `read` gets the counts and the failures back out of a page.
-/

import Rulebook.Grading.Answers

namespace Rulebook.Grading.Report

open Workspace Text

/-- The counts that a report shows. They may come from the history, where anything can stand. -/
structure Shown where
  total : Value
  passed : Value
  failed : Value
  score : Value
  elapsed : Value

def Shown.ofGrades (g : Grades) : Shown :=
  ⟨.int g.tested, .int g.passed, .int g.failed, .float g.score.percent, g.elapsed⟩

def moment (entry : Record) : Except Fault String :=
  match entry.getD "timestamp" (.str "Unknown") with
  | .str s => .ok (replace (takeFront s 19) "T" " ")
  | .list _ => .error (.noMember "list" "replace")
  | v => .error (.ofType s!"'{v.typeName}' object is not subscriptable")

def warning (lastRun lastSuccess : Record) (shown : Shown) :
    Except Fault (List String × Shown) := do
  let message := (lastRun.getD "error_message" (.str "Unknown error")).text
  let failedAt ← moment lastRun
  let succeededAt ← moment lastSuccess
  let results := lastSuccess.getD "test_results" (.dict [])
  let lines := [
    "> **WARNING: Latest Run Failed**",
    "> ",
    s!"> The test run at {failedAt} failed: `{message}`",
    "> ",
    s!"> Showing results from last successful run ({succeededAt}).",
    ""]
  if !results.truthy then return (lines, shown)
  let r ← results.table "get"
  return (lines, {
    total := r.getD "total_fields_tested" shown.total
    passed := r.getD "fields_passed" shown.passed
    failed := r.getD "fields_failed" shown.failed
    score := r.getD "score" shown.score
    elapsed := lastSuccess.getD "duration_seconds" shown.elapsed })

def banner (entry : Value) (shown : Shown) : Except Fault (List String × Shown) := do
  let entry ← entry.table "get"
  let lastRun ← (entry.getD "last_run" (.dict [])).table "get"
  let lastSuccess := entry.getD "last_successful_run" (.dict [])
  if (lastRun.get "status").equal (.str "failure") && lastSuccess.truthy then
    warning lastRun (← lastSuccess.table "get") shown
  else return ([], shown)

def summaryLines (shown : Shown) : Except Fault (List String) := do
  return [
    "## Summary",
    "",
    "| Metric | Value |",
    "|--------|-------|",
    s!"| Total Fields Tested | {shown.total.text} |",
    s!"| Passed | {shown.passed.text} |",
    s!"| Failed | {shown.failed.text} |",
    "| Score | " ++ (← oneDecimal shown.score) ++ "% |",
    "| Duration | " ++ (← duration shown.elapsed) ++ " |",
    ""]

def errorLines : Option String → List String
  | none => []
  | some e => ["## Error", "", "```", e, "```", ""]

def listed : Nat := 20

def failureRow (f : Failure) : String :=
  s!"| {f.key} | {f.column} | {Text.takeFront f.expected.text 30} | "
    ++ takeFront f.actual.text 30 ++ " |"

def failureLines (failures : List Failure) : List String :=
  if failures.isEmpty then []
  else
    ["| PK | Field | Expected | Actual |", "|-----|-------|----------|--------|"]
      ++ (failures.take listed).map failureRow
      ++ (if listed < failures.length then
          ["| ... | ... | (" ++ toString (failures.length - listed) ++ " more) | ... |"]
        else [])
      ++ [""]

def entityLines (entity : String) (g : EntityGrade) : List String :=
  ["### " ++ entity,
   "",
   s!"- Fields: {g.passed}/{g.tested} ({g.score.percentText}%)",
   "- Computed columns: " ++ join ", " g.columns,
   ""] ++ failureLines g.failures

def entitiesLines (entities : List (String × EntityGrade)) : List String :=
  if entities.isEmpty then []
  else ["## Results by Entity", ""] ++ entities.flatMap fun e => entityLines e.1 e.2

def text (substrate : String) (entry : Value) (g : Grades) : Except Fault String := do
  let (top, shown) ← banner entry (.ofGrades g)
  let summary ← summaryLines shown
  return join "\n" (["# Test Results: " ++ substrate, ""] ++ top ++ summary
    ++ errorLines g.error? ++ entitiesLines g.entities)

def write (substrate : String) (g : Grades) : Run Unit := do
  let history ← History.load
  let page ← text substrate (History.entryOf history substrate) g
  writeText (Path.join (← substrateFolder substrate) "test-results.md") page

/-! ### Reading a report -/

structure FailureRow where
  key : String
  column : String
  expected : String
  actual : String
deriving DecidableEq

structure EntityReading where
  tested : Int
  passed : Int
  failures : List FailureRow

structure Reading where
  substrate : String
  total : Int := 0
  passed : Int := 0
  failed : Int := 0
  elapsed : Float := 0.0
  entities : List (String × EntityReading) := []

def runBetween (before : List Char) (p : Char → Bool) (after : List Char) (cs : List Char) :
    Option (List Char × List Char) := do
  let rest ← after? before cs
  let run := rest.takeWhile p
  if run.isEmpty then none
  let rest ← after? after (rest.dropWhile p)
  return (run, rest)

def search {α : Type} (pattern : List Char → Option α) : List Char → Option α
  | [] => pattern []
  | c :: cs => (pattern (c :: cs)).orElse fun _ => search pattern cs

def cellAfter (label : String) (p : Char → Bool) (tail : String) (page : List Char) :
    Option String :=
  (search (runBetween s!"| {label} | ".toList p tail.toList) page).map fun m =>
    .ofList m.1

def countAfter (label : String) (page : List Char) : Except Fault Int :=
  match cellAfter label isDecimal " |" page with
  | some digits => Numeral.integer digits
  | none => .ok 0

def secondsIn (page : List Char) : Except Fault Float :=
  match cellAfter "Duration" (fun c => isDecimal c || c == '.') "s |" page with
  | some number => Numeral.float number
  | none => .ok 0.0

def entityHead (cs : List Char) : Option ((String × String × String) × List Char) := do
  let (name, rest) ← runBetween "### ".toList isWord "\n\n- Fields: ".toList cs
  let (passed, rest) ← runBetween [] isDecimal ['/'] rest
  let (tested, rest) ← runBetween [] isDecimal [] rest
  return ((.ofList name, .ofList passed, .ofList tested), rest)

/-- The sections of a page, each with its head; a section ends where the next head starts. A
head is looked for only behind the one before it; `skip` counts the characters of the current
head that are left. -/
def sections : Nat → List Char → List ((String × String × String) × List Char)
  | _, [] => []
  | skip + 1, _ :: cs => sections skip cs
  | 0, c :: cs =>
    match entityHead (c :: cs) with
    | none => sections 0 cs
    | some (head, rest) =>
      let used := (c :: cs).length - rest.length
      (head, upToHead rest) :: sections (used - 1) cs
where
  upToHead : List Char → List Char
    | [] => []
    | c :: cs => if (entityHead (c :: cs)).isSome then [] else c :: upToHead cs

def cell (cs : List Char) : Option (List Char × List Char) := do
  let rest ← after? [' '] cs
  let body := rest.takeWhile (· != '|')
  match body.reverse, rest.dropWhile (· != '|') with
  | ' ' :: text@(_ :: _), '|' :: rest => return (text.reverse, rest)
  | _, _ => none

def tableRow (cs : List Char) : Option ((String × String × String × String) × List Char) := do
  let rest ← after? ['|'] cs
  let (a, rest) ← cell rest
  let (b, rest) ← cell rest
  let (c, rest) ← cell rest
  let (d, rest) ← cell rest
  let clean := fun (t : List Char) => String.ofList (trimChars t)
  return ((clean a, clean b, clean c, clean d), rest)

def tableRows : Nat → List Char → List (String × String × String × String)
  | _, [] => []
  | skip + 1, _ :: cs => tableRows skip cs
  | 0, c :: cs =>
    match tableRow (c :: cs) with
    | none => tableRows 0 cs
    | some (row, rest) => row :: tableRows ((c :: cs).length - rest.length - 1) cs

def isFrame (key column : String) : Bool :=
  key ∈ ["PK", "-----", "..."] || column ∈ ["Field", "-------"]

def failuresIn (section_ : List Char) : List FailureRow :=
  ((tableRows 0 section_).filter fun r => !isFrame r.1 r.2.1).map fun r =>
    ⟨r.1, r.2.1, r.2.2.1, r.2.2.2⟩

def read (substrate page : String) : Except Fault Reading := do
  let cs := page.toList
  let total ← countAfter "Total Fields Tested" cs
  let passed ← countAfter "Passed" cs
  let failed ← countAfter "Failed" cs
  let elapsed ← secondsIn cs
  let entities ← (sections 0 cs).mapM fun ((name, p, t), body) => do
    let passed ← Numeral.integer p
    let tested ← Numeral.integer t
    return (name, { tested, passed, failures := failuresIn body : EntityReading })
  return { substrate, total, passed, failed, elapsed
           entities := entities.foldl (putBy Prod.fst) [] }

def readPage (substrate path : String) : Run Reading := do
  let page ← readText path
  read substrate page

def EntityReading.toValue (e : EntityReading) : Value :=
  .dict [("fields_tested", .int e.tested), ("fields_passed", .int e.passed),
    ("fields_failed", .int (e.tested - e.passed)),
    ("failures", .list (e.failures.map fun f =>
      .dict [("pk", .str f.key), ("field", .str f.column), ("expected", .str f.expected),
        ("actual", .str f.actual)]))]

def Reading.toValue (r : Reading) : Value :=
  .dict [("substrate", .str r.substrate), ("total_fields_tested", .int r.total),
    ("fields_passed", .int r.passed), ("fields_failed", .int r.failed),
    ("elapsed_seconds", .float r.elapsed),
    ("entities", .dict (r.entities.map fun e => (e.1, e.2.toValue))), ("error", .null)]

end Rulebook.Grading.Report

namespace Rulebook.Grading

open Workspace

/-!
### The summary of all substrates

Substrates with a perfect score come first, the fastest ahead; the others follow by score.
-/

abbrev Results := List (String × Grades)

/-- What decides the place of a substrate: whether its score is perfect, how long it took and
its percentage. -/
structure Standing where
  perfect : Bool
  elapsed : Value
  share : Value

def Grades.standing (g : Grades) : Standing :=
  ⟨g.score.isPerfect, g.elapsed, .float g.score.percent⟩

/-- Whether one substrate stands before another: a perfect score before others, less time
before more among perfect ones, a higher score before a lower one among the rest. -/
def Standing.before (a b : Standing) : Except Fault Bool :=
  match a.perfect, b.perfect with
  | true, true => a.elapsed.order .lt b.elapsed
  | true, false => .ok true
  | false, true => .ok false
  | false, false => a.share.order .gt b.share

def rank {α : Type} (standing : α → Standing) (x : α) : List α → Except Fault (List α)
  | [] => .ok [x]
  | y :: ys => do
    if ← (standing y).before (standing x) then return y :: (← rank standing x ys)
    return x :: y :: ys

def ranked {α : Type} (standing : α → Standing) : List α → Except Fault (List α)
  | [] => .ok []
  | x :: xs => do rank standing x (← ranked standing xs)

structure Totals where
  passed : Int := 0
  failed : Int := 0
  tested : Int := 0
  elapsed : Value := .float 0.0

def Totals.add (t : Totals) (g : Grades) : Except Fault Totals := do
  return ⟨t.passed + g.passed, t.failed + g.failed, t.tested + g.tested,
    ← Value.arith .add t.elapsed g.elapsed⟩

def Totals.of (results : Results) : Except Fault Totals :=
  results.foldlM (fun t r => t.add r.2) {}

def Totals.score (t : Totals) : Score := ⟨t.passed, t.tested⟩

def status (g : Grades) : String :=
  match g.error? with
  | some e => "ERROR: " ++ Text.takeFront e 30
  | none => if g.failed = 0 then "PASS" else "FAIL"

def summaryRow (name : String) (g : Grades) : Except Fault String := do
  return "| " ++ name ++ " | " ++ toString g.passed ++ " | " ++ toString g.failed ++ " | "
    ++ toString g.tested ++ " | " ++ g.score.percentText ++ "% | " ++ (← duration g.elapsed)
    ++ " | " ++ status g ++ " |"

def columnsTested (results : Results) : List String :=
  (results.flatMap fun r => r.2.entities.flatMap fun e => e.2.columns).eraseDups

def summaryText (rulebookPath : String) (results : Results) : Except Fault (String × Totals) := do
  let order ← ranked (·.2.standing) results
  let rows ← order.mapM fun r => summaryRow r.1 r.2
  let totals ← Totals.of order
  let overall ← duration totals.elapsed
  return (Text.join "\n" ([
    "# Test Orchestrator Results",
    "",
    "## Configuration",
    "",
    s!"- **Rulebook:** `{rulebookPath}`",
    "- **Substrates Tested:** " ++ toString results.length,
    "- **Computed Columns Tested:** " ++ toString (columnsTested results).length,
    "",
    "## Summary by Substrate",
    "",
    "| Substrate | Passed | Failed | Total | Score | Duration | Status |",
    "|-----------|--------|--------|-------|-------|----------|--------|"]
    ++ rows ++ [
    "",
    "## Overall Statistics",
    "",
    "| Metric | Value |",
    "|--------|-------|",
    s!"| Total Substrates | {results.length} |",
    s!"| Total Fields Tested | {totals.tested} |",
    s!"| Total Passed | {totals.passed} |",
    s!"| Total Failed | {totals.failed} |",
    s!"| Overall Score | {totals.score.percentText}% |",
    s!"| Total Duration | {overall} |",
    "",
    "---",
    "",
    "*Generated by test-orchestrator.py (generic/domain-agnostic)*"]), totals)

def rulebookPath : Run String :=
  return Path.joinAll (← get).root ["effortless-rulebook", "effortless-rulebook.json"]

def writeSummary (results : Results) : Run Totals := do
  say "Step 4: Generating summary report..."
  let (page, totals) ← summaryText (← rulebookPath) results
  let path := Path.joinAll (← get).root ["orchestration", "all-tests-results.md"]
  writeText path page
  say s!"  -> Summary written to {path}"
  say s!"  -> Overall: {totals.passed}/{totals.tested} ({totals.score.percentText}%)"
  return totals

end Rulebook.Grading
