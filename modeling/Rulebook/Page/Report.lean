/-
The report page: one HTML file, whose views of entities and substrates its script builds.
-/

import Rulebook.Page.Behaviour
import Rulebook.Page.Data

namespace Rulebook.Page

open Workspace
open Grading (Standing ranked oneDecimal classOf)

def part (data : Value) (key method : String) : Except Fault Record := do
  (← data.member key).table method

def entityNames (data : Value) : Except Fault (List String) := do
  return (← part data "entities" "keys").keys.mergeSort fun a b => compare a b != .gt

def shareIn (grades : Value) : Except Fault Value := do
  let passed ← grades.member "fields_passed"
  let tested ← grades.member "total_fields_tested"
  shareOf passed tested

def standingOf (grades : Value) : Except Fault Standing := do
  let elapsed ← grades.getOr "elapsed_seconds" (.float 0.0)
  let share ← shareIn grades
  return ⟨← share.order .ge (.float 100.0), elapsed, share⟩

def sortedGrades (data : Value) : Except Fault (List (String × Value)) := do
  let entries ← part data "substrates" "keys"
  let placed ← entries.mapM fun (n, g) => return (← standingOf g, n, g)
  return (← ranked Prod.fst placed).map Prod.snd

def sortedNames (data : Value) : Except Fault (List String) := do
  return (← sortedGrades data).map Prod.fst

def isKey (grades : Value) : Except Fault Bool := do
  return (← grades.getOr "is_answer_key" (.bool false)).truthy

def label (name : String) (key : Bool) : String :=
  if key then name ++ " (answer-key)" else name

def level (share : Value) : Except Fault String :=
  match share.number? with
  | some n => .ok (classOf n)
  | none => .error (Value.noOrder .ge share (.int 100))

def entityHeaders (data : Value) : Except Fault String := do
  let names ← entityNames data
  return Text.join "\n                            " (names.map fun n =>
    s!"<th class=\"entity-col entity-link\" data-entity=\"{escape n}\">{escape n}</th>")

def lastFailure (grades : Value) : Except Fault (Option Value) := do
  let history ← grades.getOr "run_metadata" (.dict [])
  let lastRun ← history.getOr "last_run" (.dict [])
  let success ← history.getOr "last_successful_run" (.dict [])
  if !lastRun.truthy then return none
  let status ← lastRun.getOr "status" .null
  if status.equal (.str "failure") && !success.isNull then
    return some (← lastRun.getOr "error_message" (.str "Unknown error"))
  return none

def entityCell (substrate : String) (grades : Value) (key : Bool) (entity : String) :
    Except Fault String := do
  let entities ← grades.getOr "entities" (.dict [])
  let e ← entities.getOr entity (.dict [])
  let total ← e.getOr "fields_tested" (.int 0)
  let passed ← e.getOr "fields_passed" (.int 0)
  let failed ← e.getOr "fields_failed" (.int 0)
  let (class_, mark) :=
    if key then ("cell-answer-key", "&#9733;")
    else if total.equal (.int 0) then ("cell-na", "&mdash;")
    else if failed.equal (.int 0) then ("cell-pass", "&#10003;")
    else ("cell-fail", failed.text)
  return s!"<td class=\"{class_}\" data-substrate=\"" ++ escape substrate
    ++ s!"\" data-entity=\"{escape entity}\" title=\"{passed.text}/" ++ total.text
    ++ s!"\">{mark}</td>"

def matrixRow (entities : List String) (substrate : String) (grades : Value) :
    Except Fault String := do
  let key ← isKey grades
  let share ← shareIn grades
  let elapsed ← grades.getOr "elapsed_seconds" (.int 0)
  let failure ← lastFailure grades
  let rowClass := if key then "answer-key-row" else if failure.isSome then "restored-row" else ""
  let scoreClass ← level share
  let badge ← match failure with
    | none => pure ""
    | some message => do
      pure (" <span class=\"warning-badge\" title=\"Last run failed: " ++ (← escapeValue message)
        ++ "\">&#9888;</span>")
  let cells ← entities.mapM (entityCell substrate grades key)
  let score ← if key then pure "<td class=\"score-cell score-perfect\">100%</td>" else do
    pure (s!"<td class=\"score-cell score-{scoreClass}\">" ++ (← oneDecimal share)
      ++ "%</td>")
  let time ← oneDecimal elapsed
  return "<tr class=\"" ++ rowClass
    ++ "\"><td class=\"substrate-name substrate-row-link\" data-substrate=\"" ++ escape substrate
    ++ "\">" ++ escape (label substrate key) ++ badge ++ "</td>" ++ String.join cells ++ score
    ++ s!"<td class=\"time-cell\">{time}s</td></tr>"

def matrixRows (data : Value) : Except Fault String := do
  let entities ← entityNames data
  let rows ← (← sortedGrades data).mapM fun (n, g) => matrixRow entities n g
  return Text.join "\n                        " rows

def selectOption (value shown : String) : String :=
  s!"<option value=\"{escape value}\">{escape shown}</option>"

def entityOptions (data : Value) : Except Fault String := do
  return Text.join "\n                    " ((← entityNames data).map fun n => selectOption n n)

def substrateOptions (data : Value) : Except Fault String := do
  let options ← (← sortedGrades data).mapM fun (n, g) => do
    return selectOption n (label n (← isKey g))
  return Text.join "\n                    " options

def tabs (attr : String) (entries : List (String × String)) : String :=
  Text.join "\n                " (entries.zipIdx.map fun ((value, shown), i) =>
    "<button class=\"sub-tab " ++ (if i = 0 then "active" else "") ++ s!"\" data-{attr}=\""
      ++ escape value ++ s!"\">{escape shown}</button>")

def entityTabs (data : Value) : Except Fault String := do
  return tabs "entity" ((← entityNames data).map fun n => (n, n))

def substrateTabs (data : Value) : Except Fault String := do
  let entries ← (← sortedGrades data).mapM fun (n, g) => return (n, label n (← isKey g))
  return tabs "substrate" entries

def wholePercent (share : Value) : Except Fault String := do
  match share.number? with
  | some n => return Numeral.fixedText 0 (← Value.toFloat n)
  | none => oneDecimal share

def substrateLinks (data : Value) : Except Fault String := do
  let links ← (← sortedGrades data).mapM fun (n, g) => do
    let key ← isKey g
    let share ← shareIn g
    return "<a href=\"#\" class=\"substrate-link score-" ++ (← level share)
      ++ s!"\" data-substrate=\"{escape n}\">{escape (label n key)}: "
      ++ (← wholePercent share) ++ "%</a>"
  return Text.join "\n                    " links

structure ShownFailure where
  substrate : String
  entity : String
  failure : Record

def allFailures (data : Value) : Except Fault (List ShownFailure) := do
  let substrates := (← part data "substrates" "items").mergeSort fun a b => compare a.1 b.1 != .gt
  let found ← substrates.mapM fun (substrate, grades) => do
    if ← isKey grades then return []
    let entities ← (← grades.getOr "entities" (.dict [])).table "items"
    let perEntity ← entities.mapM fun (entity, e) => do
      let failures ← (← e.getOr "failures" (.list [])).iterate
      failures.mapM fun f => return ShownFailure.mk substrate entity (← f.table "get")
    return perEntity.flatten
  return found.flatten

def shownFailures : Nat := 50

def failureCard (f : ShownFailure) : String :=
  let field := fun key => escape (f.failure.get key).text
  let row := fun title value => Source.div "failure-row" [
    .short "span" "failure-label" title, value]
  let arrow := Source.short "span" "failure-arrow" "&rarr;"
  let card := Source.div "failure-card" [
    .div "failure-header" [.short "span" "failure-substrate" (escape f.substrate), arrow,
      .short "span" "failure-entity" (escape f.entity), arrow,
      .short "span" "failure-field" (field "field")],
    .div "failure-body" [
      row "Record:" (.short "span" "failure-value" (field "pk")),
      row "Expected:" (.short "code" "expected" (field "expected")),
      row "Actual:" (.short "code" "actual" (field "actual"))]]
  Text.join "\n" ("" :: card.lines "            " ++ ["        "])

def failureDetails (data : Value) : Except Fault String := do
  let failures ← allFailures data
  if failures.isEmpty then return "<div class=\"no-failures\">No failures to display</div>"
  let more := if shownFailures < failures.length then
      ["<div class=\"more-failures\">...and " ++ toString (failures.length - shownFailures)
        ++ " more failures</div>"]
    else []
  return Text.join "\n" ((failures.take shownFailures).map failureCard ++ more)

def card (attributes value label : String) : Source :=
  .div "stat-card" [.element s!"div class=\"stat-value{attributes}" [.filled value],
    .short "div" "stat-label" label]

def view (id name tabs : String) : Source :=
  .element s!"section id=\"{id}\" class=\"tab-content\"" [
    .element s!"nav class=\"sub-tabs\" id=\"{name}-tabs\"" [.filled tabs],
    s!"<div id=\"{name}-details\"></div>"]

def overview (data : Value) : Except Fault Source := do
  let summary ← data.member "summary"
  let passing := (← summary.member "passing_substrates").text
  let total := (← summary.member "total_substrates").text
  let share ← summary.member "overall_score"
  let level ← level share
  let score ← oneDecimal share
  let time ← oneDecimal (← summary.member "total_runtime_seconds")
  let entities := (← summary.member "total_entities").text
  let links ← substrateLinks data
  let headers ← entityHeaders data
  let rows ← matrixRows data
  return .element "section id=\"overview\" class=\"tab-content active\"" [
    .div "stats-grid" [
      card "\" id=\"passing-count\"" (passing ++ " / " ++ total) "Substrates Passing",
      card s!" score-{level}\"" (score ++ "%") "Overall Score",
      card "\"" (time ++ "s") "Total Runtime", card "\"" entities "Entities"],
    "", "<h2>Substrates</h2>", .div "substrate-links" [.filled links],
    "", "<h2>Substrate Health Matrix</h2>", .div "matrix-container" [
      .element "table class=\"health-matrix\" id=\"health-matrix\"" [
        .element "thead" [.element "tr" ["<th>Substrate</th>", .filled headers,
          "<th>Score</th>", "<th>Time</th>"]],
        .element "tbody" [.filled rows]]]]

def page (data : Value) : Except Fault String := do
  let title ← escapeValue (← (← data.member "meta").member "project_name")
  let overview ← overview data
  let entityTabs ← entityTabs data
  let substrateTabs ← substrateTabs data
  let tab := fun (class_ id label : String) =>
    s!"<button class=\"{class_}\" data-tab=\"{id}\">{label}</button>"
  return Source.document title [.bare style] [
    .element "header" [
      .div "header-content" [s!"<h1>{title}</h1>",
        .div "header-meta" [.short "span" "project-name" "Orchestration Report"]],
      .element "button id=\"theme-toggle\" title=\"Toggle dark/light mode\"" [
        .short "span" "sun" "&#9728;", .short "span" "moon" "&#9790;"]],
    "", .element "nav class=\"tabs\" id=\"main-tabs\"" [tab "tab active" "overview" "Overview",
      tab "tab" "entities" "Entities", tab "tab" "substrates" "Substrates"],
    "", .element "main" [overview, "", view "entities" "entity" entityTabs,
      "", view "substrates" "substrate" substrateTabs, ""],
    "", .element "footer" ["<p>Generated by ERB Test Orchestrator</p>"],
    "", .element "script" [.bare ("const REPORT_DATA = " ++ Json.write .pretty data ++ ";"),
      "", .bare behaviour]]

def opener (system : String) : Option String :=
  if system = "Darwin" then some "open"
  else if system = "Windows" then some "start"
  else if system = "Linux" then some "xdg-open"
  else none

def showPage (path : String) : Run Unit := do
  match opener (← get).services.system with
  | some program =>
    say "Opening report in browser..."
    let _ ← runChild [program, path] 0
  | none => say s!"Open report: file://{path}"

def report : Run Unit := do
  let given ← parseArguments [{ names := ["--output", "-o"], takesValue := true }] 0
  let root := (← get).root
  let path := (given.value? "--output").getD
    (Path.joinAll root ["orchestration", "orchestration-report.html"])
  Substrate.heading 60 "GENERATING ORCHESTRATION REPORT"
  say ""
  say "Collecting data from all sources..."
  let data ← collect
  let meta_ ← data.member "meta"
  let summary ← data.member "summary"
  let figure := fun (v : Value) key => do return (← v.member key).text
  say ("  - Project: " ++ (← figure meta_ "project_name"))
  say ("  - Substrates: " ++ (← figure summary "total_substrates"))
  say ("  - Entities: " ++ (← figure summary "total_entities"))
  let score ← oneDecimal (← summary.member "overall_score")
  say s!"  - Overall score: {score}%"
  say ""
  say "Generating HTML report..."
  let html ← page data
  writeText path html
  say s!"  -> Report written to: {path}"
  say ""
  showPage (Path.absolute (← get).here path)
  say ""
  Substrate.heading 60 "DONE"

end Rulebook.Page
