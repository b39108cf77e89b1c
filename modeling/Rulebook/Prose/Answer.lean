/-
Answering tests from prose.

A language model fills in the computed columns of a blank test. What it returns is taken as it is,
once it is a list of records.
-/

import Rulebook.Model.Client
import Rulebook.Prose.Prompt

namespace Rulebook.Prose

open Workspace Model Substrate

/-!
### Writing a specification in prose

A specification that is there already is kept unless the user wants a new one.
-/

def generatedFiles : List String := ["test-results.md", "specification.md"]

def askProvider (provider model prompt : String) : Run Value := do
  if provider = "openai" then
    require "openai"
    send "openai" [("model", .str model), ("messages", message prompt),
      ("temperature", .float 0.3), ("max_tokens", .int 4096)]
  else if provider = "anthropic" then
    require "anthropic"
    send "anthropic" [("model", .str model), ("max_tokens", .int 4096),
      ("temperature", .float 0.3), ("messages", message prompt)]
  else throw (.ofValue s!"Unknown provider: {provider}")

def respond (prompt : String) (provider tier : Option String) : Run Value := do
  let provider ← match provider.filter (· ≠ "") with
    | some p => pure p
    | none => setting "LLM_PROVIDER" "openai"
  let tier ← match tier.filter (· ≠ "") with
    | some t => pure t
    | none => setting "LLM_TIER" "medium"
  let model ← modelFor tier provider
  say s!"  Calling {Text.upper provider} ({model})..."
  guarded (askProvider provider model prompt) fun f => do
    say s!"Warning: LLM call failed: {f.message}"
    return .str s!"[LLM generation failed: {f.message}]"

def specify (book : Record) (provider tier : String) : Run Value := do
  let name := (book.getD "Name" (.str "Untitled Rulebook")).text
  let prompt := specificationPrompt (.dict book) name
  say "  Generating specification via LLM..."
  match ← ready? with
  | some v => return v
  | none => respond prompt (some provider) (some tier)

def writeReceived (path : String) (v : Value) : Run Unit := do
  match v with
  | .str s => writeText path s
  | v =>
    writeText path ""
    throw (.ofType s!"write() argument must be str, not {v.typeName}")

def consents (question refusal : String) : Run Bool := do
  match ← confirm? question with
  | some true => return true
  | some false =>
    say refusal
    return false
  | none =>
    say s!"\n{refusal}"
    return false

def replaces (silent : Bool) : Run Bool := do
  say "\nExisting specification.md found."
  if silent then
    say "Skipping regeneration (use --regenerate to force)."
    return false
  if !(← isInteractive) then
    say "Non-interactive mode detected. Skipping regeneration (use --regenerate to force)."
    return false
  say "\nRegenerate English specification?"
  consents "Regenerate? [y/N]: " "Skipping regeneration."

def permits (tier provider : String) : Run Bool := do
  let model ← modelFor tier provider
  say s!"\n  This will call {Text.upper provider} ({model}) to generate the specification."
  consents "  Proceed with LLM call? [y/N]: " "  Skipping LLM call."

def options : List CommandOption := [
  { names := ["--tier", "-t"], takesValue := true, choices := ["smart", "medium", "cheap"] },
  { names := ["--provider", "-p"], takesValue := true, choices := ["openai", "anthropic"] },
  { names := ["--regenerate", "-r"] },
  { names := ["--no-prompt"] }]

def generate : Run Value := do
  if ← cleaning generatedFiles
      "English substrate: Removes test-results.md and specification.md." then return .int 0
  let given ← parseArguments options 0
  let tier := (given.value? "--tier").getD (← setting "LLM_TIER" "medium")
  let provider := (given.value? "--provider").getD (← setting "LLM_PROVIDER" "openai")
  let silent := given.has "--no-prompt"
  if ← isThere "specification.md" then
    if !given.has "--regenerate" then
      if !(← replaces silent) then return .int 2
  let name ← ownName
  say s!"Generating {name} substrate..."
  let book ← requireRulebook "Error"
  let book ← book.table "get"
  say ("  Loaded rulebook: " ++ (book.getD "Name" (.str "Unknown")).text)
  say "\n=== Generating Specification (LLM-driven) ==="
  say "  Generating specification via LLM..."
  if !silent then
    if ← isInteractive then
      if !(← permits tier provider) then return .int 2
  let text ← specify book provider tier
  writeReceived "specification.md" text
  say "  Created specification.md"
  say s!"\nDone generating {name} substrate."
  return .int 0

open Schema

def excerpt (title text : String) : Run Unit := do
  let lines := Text.cut text "\n"
  say (Text.times 60 "=")
  say (title ++ " (first 2 lines):")
  (lines.take 2).forM fun l => say s!"  {Text.takeFront l 100}"
  say s!"  ... ({lines.length} total lines, {text.length} chars)"
  say (Text.times 60 "=")

def askModel (prompt : String) (agreed : Bool) : Run Value := do
  match ← attempted (require "openai") with
  | .ok _ => pure ()
  | .error _ =>
    say "Error: openai package not installed"
    say "Run: pip install openai"
    quit 1
  if ((((← get).services.environment.lookup "OPENAI_API_KEY")).getD "").isEmpty then
    say "Error: OPENAI_API_KEY environment variable not set"
    quit 1
  let model ← setting "LLM_MODEL" "gpt-4o-mini"
  excerpt "PROMPT" prompt
  if !agreed then
    if ← isInteractive then
      say s!"\n  This will call OpenAI ({model})."
      match ← confirm? "  Proceed with LLM call? [y/N]: " with
      | some true => pure ()
      | some false =>
        say "  Skipping LLM call."
        return .str "[]"
      | none =>
        say "\n  Skipping LLM call."
        return .str "[]"
  say s!"Calling OpenAI ({model})... please wait..."
  let reply ← send "openai" [("model", .str model), ("messages", message prompt),
    ("temperature", .float 0.3), ("max_tokens", .int 8096)]
  let text ← reply.asText "split"
  excerpt "RESPONSE" text
  return .str text

def reply (prompt : String) : Run Value := do
  match ← ready? with
  | some v => return v
  | none => askModel prompt false

structure Filled where
  records : Nat
  fields : Nat

def countFilled (columns : List String) (answers : Value) : Except Fault Nat := do
  let counts ← (← answers.iterate).mapM fun r => do
    if columns.isEmpty then return 0
    let e ← r.table "get"
    return (columns.filter fun c => !(e.get c).isNull).length
  return Numeral.total counts

def testPrompt (glossary specification entity : String) (schema records : Value)
    (columns : List String) : Run String := do
  if specification.isEmpty then
    say "    WARNING: English documents not available, using raw schema fallback"
    schemaPrompt schema entity records
  else
    say ("    Using English prose documents (specification"
      ++ (if glossary.isEmpty then "" else " + glossary") ++ ")")
    return documentPrompt glossary specification entity records columns

def answerEntity (input output entity : String) (schema : Value)
    (glossary specification : String) : Run Filled := do
  let records ← readJson input
  if !records.truthy then
    writeJson output records
    return ⟨0, 0⟩
  let columns ← computedNames schema
  if columns.isEmpty then
    say s!"    No calculated fields for {entity}, copying as-is"
    writeJson output records
    return ⟨← records.size, 0⟩
  let prompt ← testPrompt glossary specification entity schema records columns
  let response ← match ← reply prompt with
    | .str s => pure s
    | v => throw (.ofType s!"the JSON object must be str, bytes or bytearray, not {v.typeName}")
  let answers := (← arrayIn response).getD .null
  if answers.isNull then
    say s!"Error: Could not parse LLM response as JSON for {entity}"
    say "Response was:"
    say (Text.takeFront response 1000)
    writeJson output records
    return ⟨← records.size, 0⟩
  let given ← answers.size
  let expected ← records.size
  if given ≠ expected then
    say s!"Warning: LLM returned {given} records, expected {expected}"
  let filled ← countFilled columns answers
  writeJson output answers
  return ⟨given, filled⟩

def document? (name : String) : Run (Option String) := do
  let path := Path.join (← get).here name
  if !(← isThere path) then return none
  let text ← readText path
  say s!"  Loaded {name} ({text.length} chars)"
  return some text

def documents : Run (String × String) := do
  let glossary ← document? "glossary.md"
  let specification ← document? "specification.md"
  if specification.isNone then
    say ("  ERROR: specification.md not found at " ++ Path.join (← get).here "specification.md")
    say "  Run inject-into-english.py first to generate specification"
  return (glossary.getD "", specification.getD "")

def answerFile (book : Record) (names : List String) (folder answers file : String)
    (glossary specification : String) : Run (Option Filled) := do
  let entity := entityOf file
  let input := Path.join folder file
  let output := Path.join answers file
  match names.find? (Names.snake · = entity) with
  | none =>
    say s!"  -> {entity}: No matching entity in rulebook, copying as-is"
    let data ← readJson input
    writeJson output data
    return none
  | some name =>
    let schema ← schemaOf .loose book name
    let calculated ← calculatedFields schema
    say s!"\nProcessing {entity}..."
    say ("  Schema: " ++ toString (← schema.size) ++ s!" fields, {calculated.length} calculated")
    let done ← answerEntity input output entity schema glossary specification
    say s!"  -> {entity}: {done.records} records, {done.fields} computed fields filled"
    return some done

def answer : Run Unit := do
  let w ← get
  let folder := Path.joinAll w.root ["testing", "blank-tests"]
  let answers := Path.join w.here "test-answers"
  requireFolder folder
  makeFolder answers true
  say (Text.times 70 "=")
  say "English Execution Substrate - LLM Test Execution"
  say "Using ENGLISH PROSE documents (glossary.md, specification.md)"
  say (Text.times 70 "=")
  say ""
  say "Loading English specification documents..."
  let (glossary, specification) ← documents
  if specification.isEmpty then
    say ""
    say "ERROR: specification.md not found!"
    say "The English substrate requires specification.md"
    say "Run: python inject-into-english.py"
    say ""
    quit 1
  say ""
  say "Loading rulebook for schema metadata..."
  let book ← requireRulebook "ERROR"
  let book ← book.table "items"
  let names := entities book
  say (s!"Discovered {names.length} entities: " ++ Text.join ", " names)
  let files ← testFiles folder false
  let results ← files.mapM fun file =>
    answerFile book names folder answers file glossary specification
  let done := results.reduceOption
  say ""
  say (Text.times 70 "=")
  sayProcessed "English" (done.map Filled.records)
  say ("Filled " ++ toString (Numeral.total (done.map Filled.fields)) ++ " computed fields total")
  say (Text.times 70 "=")

end Rulebook.Prose
