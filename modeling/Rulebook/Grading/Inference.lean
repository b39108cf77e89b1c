/-
Grading by inference.

For every candidate of the blank test a language model infers the computed columns, whose texts
must agree with the answer key, whatever their case.
-/

import Rulebook.Grading.Grade
import Rulebook.Model.Client
import Rulebook.Workspace.Files

namespace Rulebook.Grading.Inference

open Workspace

/-! ### What a substrate says about itself -/

def kinds : List (String × List String) := [
  ("english", ["specification.md", "glossary.md", "candidate-profiles.md"]),
  ("docx", ["specification.docx"]),
  ("uml", ["class-diagram.puml", "er-diagram.mmd"]),
  ("owl", ["ontology.owl", "rules.swrl", "individuals.owl"]),
  ("rdf", ["schema.ttl", "data.ttl", "rules.shacl"])]

def readableNames : List String := ["README.md", "specification.md", "glossary.md",
  "candidate-profiles.md", "schema.ttl", "ontology.owl", "rules.swrl", "class-diagram.puml",
  "er-diagram.mmd"]

structure Specification where
  text : String
  files : List String
  kind : String

def Specification.toValue (s : Specification) : Value :=
  .dict [("specification_text", .str s.text), ("file_list", .list (s.files.map .str)),
    ("substrate_type", .str s.kind)]

def kindByName (name : String) : Option String :=
  (kinds.find? fun k => Text.contains (Text.lower name) k.1).map Prod.fst

def kindByFiles (folder : String) : Run (Option String) := do
  for (kind, files) in kinds do
    if ← files.anyM fun f => isThere (Path.join folder f) then return some kind
  return none

def kindOf (folder : String) : Run String := do
  match kindByName (Path.name folder) with
  | some kind => return kind
  | none => return (← kindByFiles folder).getD "unknown"

def readable? (folder file : String) : Run (Option (String × String)) := do
  let path := Path.join folder file
  if !(← isThere path) then return none
  match ← attempted (readText path) with
  | .ok text => return some (file, text)
  | .error f =>
    say s!"Warning: Could not read {file}: {f.message}"
    return none

def loadSpecification (folder : String) : Run Specification := do
  let folder := Path.tidy folder
  let kind ← kindOf folder
  let found ← readableNames.filterMapM (readable? folder)
  return {
    text := Text.join "\n\n" (found.map fun f => s!"=== {f.1} ===\n" ++ f.2)
    files := found.map Prod.fst
    kind }

/-! ### Prompts for inferred values -/

def columns : List String := ["family_feud_mismatch", "family_fued_question",
  "top_family_feud_answer", "has_grammar", "relationship_to_concept"]

def primaryKey : String := "language_candidate_id"

def examplesOf (key : Value) : Except Fault Value := do
  if 3 ≤ (← key.size) then key.front 3 else return key

def promptText (specification : String) (examples candidate : Value) : String :=
  Text.join "\n"
    ["You are evaluating whether a substrate specification correctly describes how to compute derived fields.",
    "", "## Substrate Specification", "",
    "The following is the specification/documentation from the substrate:", "", specification, "",
    "## Computed Columns to Infer", "",
    "Based PURELY on the specification above, determine what values these computed columns should have:",
    "", Json.write .pretty (.list (columns.map .str)), "", "## Field Definitions", "",
    "The computed columns are defined as follows:",
    "- `family_fued_question`: A string in the format \"Is [name] a language?\"",
    "- `top_family_feud_answer`: Boolean - true if the candidate satisfies all language criteria",
    "- `family_feud_mismatch`: String describing any mismatch between computed and expected, or null if no mismatch",
    "- `has_grammar`: String representation of has_syntax field (e.g., \"True\" or \"False\")",
    "- `relationship_to_concept`: \"IsMirrorOf\" if distance_from_concept=1, else \"IsDescriptionOf\"",
    "", "## Example Records (for reference)", "",
    "Here are example records showing the expected format:", "", "```json",
    Json.write .pretty examples, "```", "", "## Candidate to Evaluate", "",
    "Based on the specification above, infer the computed column values for this candidate:", "",
    "```json", Json.write .pretty candidate, "```", "", "## Instructions", "",
    "1. Read the specification carefully",
    "2. For each computed column, determine what value it SHOULD have based on the specification",
    "3. Return ONLY a valid JSON object with the computed column values", "",
    "Respond with ONLY a JSON object in this format (no other text):", "```json", "\x7b",
    "    \"family_fued_question\": \"...\",", "    \"top_family_feud_answer\": true/false,",
    "    \"family_feud_mismatch\": \"...\" or null,",
    "    \"has_grammar\": \"True\" or \"False\",",
    "    \"relationship_to_concept\": \"IsMirrorOf\" or \"IsDescriptionOf\"", "\x7d", "```", ""]

def prompt (specification : String) (key candidate : Value) : Except Fault String := do
  return promptText specification (← examplesOf key) candidate

/-! ### Grading -/

structure Check where
  candidate : String
  field : String
  expected : Value
  inferred : Value

namespace Check

def passes (c : Check) : Bool := Text.lower c.expected.text = Text.lower c.inferred.text

def toValue (c : Check) : Value :=
  .dict [(primaryKey, .str c.candidate), ("field", .str c.field), ("expected", c.expected),
    ("inferred", c.inferred)]

end Check

structure Inferred where
  candidate : String
  values : Record

def checksOf (i : Inferred) (expected : Record) : List Check :=
  columns.map fun c => ⟨i.candidate, c, expected.get c, i.values.get c⟩

structure Graded where
  substrate : String
  kind : String
  provider : String
  records : Nat
  checks : List Check
  inferences : List Inferred

namespace Graded

def failures (g : Graded) : List Check := g.checks.filter (!·.passes)

def tested (g : Graded) : Nat := g.checks.length

def passed (g : Graded) : Nat := g.checks.countP Check.passes

def failed (g : Graded) : Nat := g.failures.length

def score (g : Graded) : Score := ⟨g.passed, g.tested⟩

def toValue (g : Graded) : Value :=
  .dict [("substrate", .str g.substrate), ("substrate_type", .str g.kind),
    ("provider", .str g.provider), ("total_records", .int g.records),
    ("total_fields_tested", .int g.tested), ("fields_passed", .int g.passed),
    ("fields_failed", .int g.failed), ("failures", .list (g.failures.map Check.toValue)),
    ("llm_inferences", .list (g.inferences.map fun i =>
      .dict [(primaryKey, .str i.candidate), ("inferred", .dict i.values)])),
    ("score", if 0 < g.tested then .float g.score.percent else .int 0)]

end Graded

inductive Outcome where
  | noSpecification (substrate : String)
  | graded (g : Graded)

def Outcome.toValue : Outcome → Value
  | noSpecification substrate =>
    .dict [("error", .str "No specification files found"), ("substrate", .str substrate)]
  | graded g => g.toValue

def blankPath : Run String := return Path.joinAll (← get).root ["testing", "blank-test.json"]

def keyPath : Run String := return Path.joinAll (← get).root ["testing", "answer-key.json"]

def candidateOf (v : Value) : Except Fault String := return (← v.member primaryKey).text

def answersByKey (key : Value) : Except Fault (List (String × Record)) := do
  (← key.iterate).mapM fun v => do return (← candidateOf v, v.entries)

def answerFor (answers : List (String × Record)) (candidate : String) : Record :=
  (answers.reverse.lookup candidate).getD []

def reply (provider prompt : String) : Run Value := do
  match ← Model.ready? with
  | some v => return v
  | none => Model.complete prompt provider

def infer (specification : String) (key candidate : Value) (provider : String) : Run Value := do
  let prompt ← prompt specification key candidate
  match ← reply provider prompt with
  | .str response =>
    match Model.objectIn response with
    | .ok v => return v
    | .error f =>
      if f.kind ≠ .value then throw f
      say s!"Warning: {f.message}"
      return .dict []
  | v => throw (.ofType s!"expected string or bytes-like object, got '{v.typeName}'")

def inferSafely (specification : String) (key candidate : Value) (provider : String) :
    Run Value :=
  guarded (infer specification key candidate provider) fun f => do
    say s!"    Error inferring values: {f.message}"
    return .dict []

structure Settings where
  provider : String := "openai"
  sample : Option Int := none
  verbose : Bool := false

def sampled (settings : Settings) (blank : Value) : Except Fault Value :=
  match settings.sample with
  | none | some 0 => .ok blank
  | some n => blank.front n

def announce (settings : Settings) (number total : Nat) (candidate : Value) (id : String) :
    Run Unit := do
  if settings.verbose then
    let name ← candidate.getOr "name" (.str id)
    say s!"  [{number}/{total}] Processing {name.text}..."

def gradeCandidate (settings : Settings) (specification : String) (key : Value)
    (answers : List (String × Record)) (total : Nat) (candidate : Value × Nat) :
    Run (Inferred × List Check) := do
  let id ← candidateOf candidate.1
  announce settings (candidate.2 + 1) total candidate.1 id
  let values ← inferSafely specification key candidate.1 settings.provider
  let values ← values.table "get"
  let inferred := ⟨id, values⟩
  return (inferred, checksOf inferred (answerFor answers id))

def grade (folder : String) (settings : Settings) : Run Outcome := do
  say s!"Loading specification from {folder}..."
  let specification ← loadSpecification folder
  let substrate := Path.name folder
  if specification.text.isEmpty then return .noSpecification substrate
  say (s!"  Loaded {specification.files.length} files: "
    ++ Text.join ", " specification.files)
  say "Loading test data..."
  let blank ← readJson (← blankPath)
  let key ← readJson (← keyPath)
  let answers ← answersByKey key
  let blank ← sampled settings blank
  let total ← blank.size
  say s!"Grading {total} candidates using {settings.provider}..."
  let candidates ← blank.iterate
  let results ← candidates.zipIdx.mapM
    (gradeCandidate settings specification.text key answers total)
  return .graded {
    substrate
    kind := specification.kind
    provider := settings.provider
    records := total
    checks := results.flatMap Prod.snd
    inferences := results.map Prod.fst }

/-! ### Reports on grading by inference -/

def shownFailures : Nat := 50

def failureRow (c : Check) : String :=
  s!"| {c.candidate} | {c.field} | {Text.takeFront c.expected.text 30} | "
    ++ Text.takeFront c.inferred.text 30 ++ " |"

def failureLines (failures : List Check) : List String :=
  if failures.isEmpty then [] else
    ["## Failures", "",
      "These are cases where the LLM's inference did not match the expected answer.",
      "This could indicate:", "- The specification is unclear or incomplete",
      "- The LLM misinterpreted the specification",
      "- The specification describes different logic than what was expected", "",
      s!"| {primaryKey} | Field | Expected | LLM Inferred |",
      "|---------------|-------|----------|--------------|"]
    ++ (failures.take shownFailures).map failureRow
    ++ (if shownFailures < failures.length then
        ["| ... | ... | (" ++ toString (failures.length - shownFailures) ++ " more) | ... |"]
      else [])
    ++ [""]

def reportText (g : Graded) : String :=
  Text.join "\n" (["# Fuzzy Grading Report: " ++ g.substrate, "", "## Overview", "",
      "This report shows the results of LLM-based fuzzy grading. The LLM reads the",
      "substrate's specification/documentation and attempts to infer what the computed",
      "field values SHOULD be, based purely on the instructions.", "", "## Configuration", "",
      "| Setting | Value |", "|---------|-------|", s!"| Substrate Type | {g.kind} |",
      s!"| LLM Provider | {g.provider} |",
      s!"| Total Records | {g.records} |", "", "## Summary", "",
      "| Metric | Value |", "|--------|-------|",
      s!"| Total Fields Tested | {g.tested} |",
      s!"| Passed | {g.passed} |", s!"| Failed | {g.failed} |",
      s!"| Score | {g.score.percentText}% |", ""]
    ++ failureLines g.failures
    ++ ["## Interpretation", "",
      "A high score indicates that the specification clearly describes the computation",
      "in a way that an LLM can follow. A low score may indicate:", "",
      "1. The specification needs more detail about formula logic",
      "2. The specification uses different terminology than the answer key",
      "3. The LLM struggles with this particular format (ontology, diagrams, etc.)", "", "---",
      "", "*Generated by llm-fuzzy-grader.py*"])

def writeSaying (path text : String) : Run Unit := do
  writeText path text
  say s!"Wrote {path}"

def writeReport (folder : String) (g : Graded) : Run Unit :=
  writeSaying (Path.join (Path.tidy folder) "fuzzy-grading-report.md") (reportText g)

def withInferred (inferences : List Inferred) (record : Value) : Except Fault Value := do
  let id ← candidateOf record
  let values := ((inferences.reverse.find? (·.candidate = id)).map Inferred.values).getD []
  return .dict (columns.foldl (fun r c => match values.get? c with
    | some v => Record.put r c v
    | none => r) record.entries)

def answersOf (inferences : List Inferred) (blank : Value) : Except Fault Value :=
  match blank with
  | .list records => return .list (← records.mapM (withInferred inferences))
  | v => do
    let _ ← (← v.iterate).mapM (withInferred inferences)
    return v

def writeAnswers (folder : String) (g : Graded) : Run Unit := do
  let answers ← answersOf g.inferences (← readJson (← blankPath))
  writeSaying (Path.join (Path.tidy folder) "test-answers.json") (Json.write .pretty answers)

def printCounts (g : Graded) : Run Unit := do
  say ""
  say (ruler 60 "=")
  say s!"FUZZY GRADING RESULTS: {g.substrate}"
  say (ruler 60 "=")
  say s!"Provider: {g.provider}"
  say s!"Records: {g.records}"
  say s!"Fields Tested: {g.tested}"
  say s!"Passed: {g.passed}"
  say s!"Failed: {g.failed}"
  say s!"Score: {g.score.percentText}%"
  say (ruler 60 "=")

def options : List CommandOption := [
  { names := ["--provider", "-p"], takesValue := true,
    choices := ["openai", "anthropic", "ollama"] },
  { names := ["--sample", "-s"], takesValue := true, isInteger := true },
  { names := ["--verbose", "-v"] },
  { names := ["--write-answers", "-w"] }]

def sampleOf (given : Arguments) : Option Int :=
  (given.value? "--sample").bind fun s => (Numeral.readInteger s).toOption

def run : Run Unit := do
  let given ← parseArguments options 1
  let name := given.operand 0
  let root := (← get).root
  let folder := if Text.startsWith name "/" then name
    else root ++ "/execution-substrates/" ++ name
  if !(← isFolder folder) then
    say s!"Error: Substrate directory not found: {folder}"
    quit 1
  let outcome ← grade folder {
    provider := (given.value? "--provider").getD "openai"
    sample := sampleOf given
    verbose := given.has "--verbose" }
  match outcome with
  | .noSpecification _ => throw (Value.noKey "total_fields_tested")
  | .graded g =>
    writeReport folder g
    if given.has "--write-answers" then writeAnswers folder g
    printCounts g
    quit (if 0 < g.failed then 1 else 0)

end Rulebook.Grading.Inference
