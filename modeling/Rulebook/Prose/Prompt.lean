/-
Prompts about rulebooks in prose.
-/

import Rulebook.Substrate.Basic

namespace Rulebook.Prose

def specificationPrompt (book : Value) (name : String) : String :=
  Text.join "\n"
    ["You are a technical writer creating a specification document.", "",
    "Given this rulebook JSON, write a clear English specification document that explains",
    "how to compute each calculated field.", "", "RULEBOOK:", "```json", Json.write .pretty book,
    "```", "", "Write a specification document in Markdown format that includes:", "",
    "1. A title and brief overview of what this rulebook does",
    "2. For each entity that has calculated fields:",
    "   - List the input fields (type=\"raw\") with their names, types, and descriptions",
    "   - For each calculated field (type=\"calculated\"):",
    "     - Explain in plain English exactly how to compute it from the inputs",
    "     - Include the formula for reference",
    "     - Provide a concrete example using data from the rulebook if available", "",
    "The specification should be clear enough that someone could follow it to compute",
    "the correct values without seeing the original formulas.", "",
    s!"IMPORTANT: Focus on the actual content of this specific rulebook (\"{name}\").",
    "Do not include generic boilerplate about \"language classification\" or unrelated domains."]

def spelled (name : Value) : Except Fault String :=
  match name with
  | .str s => .ok (Names.snake s)
  | v => .error (.ofType s!"expected string or bytes-like object, got '{v.typeName}'")

def enteredFields (schema : Value) : Except Fault (List Record) := do
  (← schema.iterate).filterMapM fun f => do
    let e ← f.table "get"
    return if (e.get "type").equal (.str "raw") then some e else none

def enteredLine (field : Record) : Except Fault String := do
  let name ← spelled (field.getD "name" (.str "Unknown"))
  let about := field.getD "Description" (.str "")
  return s!"- **{name}** (" ++ (field.getD "datatype" (.str "string")).text ++ "): "
    ++ (if about.truthy then about.text else "Input field")

def calculatedLines (field : Record) : Except Fault (List String) := do
  let name ← spelled (field.getD "name" (.str "Unknown"))
  let about := field.getD "Description" (.str "")
  return ["### " ++ name,
    "- **Type:** " ++ (field.getD "datatype" (.str "string")).text,
    "- **Formula:** `" ++ (field.getD "formula" (.str "")).text ++ "`"]
    ++ (if about.truthy then ["- **Description:** " ++ about.text] else []) ++ [""]

def schemaText (schema : Value) : Except Fault String := do
  let entered ← enteredFields schema
  let calculated ← Substrate.calculatedFields schema
  let enteredLines ← entered.mapM enteredLine
  let calculatedLines ← calculated.mapM calculatedLines
  return Text.join "\n" (["## Input Fields (Raw Data)", ""] ++ enteredLines
    ++ ["", "## Calculated Fields (To Be Computed)", ""] ++ calculatedLines.flatten)

def computedNames (schema : Value) : Except Fault (List String) := do
  (← Substrate.calculatedFields schema).mapM fun f => spelled (f.getD "name" (.str ""))

def documentPrompt (glossary specification entity : String) (records : Value)
    (columns : List String) : String :=
  let terms := if glossary.isEmpty then "" else Text.join "\n"
    ["", "# GLOSSARY (Predicate Definitions)", "", glossary, "", "---", ""]
  Text.join "\n"
    ["You are taking a test. Your task is to fill in the computed columns for each record based on the English language specification provided below.",
    "",
    "IMPORTANT: You must follow the instructions in the specification document EXACTLY. The specification contains human-readable instructions for how to compute each calculated field.",
    "", "---", terms, "# SPECIFICATION (Calculation Instructions)", "", specification, "", "---",
    "", "# YOUR TASK", "",
    "Below is a JSON array of \"" ++ entity ++ "\" records. Each record has raw input fields already filled in, but the following computed columns are null and need to be calculated:",
    "", Text.join ", " columns, "", "## Input Data (with null values for computed fields)", "",
    "```json", Json.write .pretty records, "```", "", "## Instructions", "",
    "1. Read the SPECIFICATION above carefully - it tells you exactly how to compute each field",
    "2. For EACH record in the array, compute the null fields following the specification instructions",
    "3. Return ONLY the complete JSON array with all computed fields filled in",
    "4. Use exact field names as shown (snake_case)",
    "5. Boolean values should be true/false (lowercase, no quotes)",
    "6. String values should be in quotes",
    "7. null should remain null (not \"null\") if the formula cannot be computed",
    "8. Preserve ALL other fields exactly as they appear in the input", "",
    "Return ONLY valid JSON - no markdown code blocks, no explanations, just the JSON array."]

def schemaPrompt (schema : Value) (entity : String) (records : Value) :
    Except Fault String := do
  let description ← schemaText schema
  let computed ← (← Substrate.calculatedFields schema).mapM fun f => do
    return "- " ++ (← spelled (f.getD "name" (.str ""))) ++ " ("
      ++ (f.getD "datatype" (.str "string")).text ++ "): " ++ (f.getD "formula" (.str "")).text
  return Text.join "\n"
    ["You are taking a test. Your task is to fill in the computed columns for each record in the \"" ++ entity ++ "\" entity based on the schema and formulas provided.",
    "", "## Schema Definition", "", description, "", "## Your Task", "",
    "Below is a JSON array of " ++ entity ++ " records. Each record has raw input fields already filled in, but the following computed columns are null and need to be calculated:",
    "", Text.join "\n" computed, "", "## Input Data (with null values for computed fields)", "",
    "```json", Json.write .pretty records, "```", "", "## Instructions", "",
    "1. For EACH record in the array, compute the null fields using the formulas provided above",
    "2. Return ONLY the complete JSON array with all computed fields filled in",
    "3. Use exact field names as shown (snake_case)",
    "4. Boolean values should be true/false (lowercase, no quotes)",
    "5. String values should be in quotes",
    "6. null should remain null (not \"null\") if the formula cannot be computed",
    "7. Preserve ALL other fields exactly as they appear in the input", "",
    "Return ONLY valid JSON - no markdown code blocks, no explanations, just the JSON array."]

end Rulebook.Prose
