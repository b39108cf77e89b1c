/-
The text of the generated Python module, with the causes for which it may be refused.
-/

import Rulebook.Script.Program

namespace Rulebook.Script

open Text

/-!
### Names that the generated Python module cannot hold

A function whose name or parameters are no names of the language makes the whole module unusable.
The language first looks for words that it cannot read, then for words out of place, and last for
repeated parameters.
-/

inductive Cause where
  | badNumber
  | noParameters
  | noBody
  | misplaced
  | repeated (name : String)
deriving DecidableEq, Repr

namespace Cause

def message : Cause → String
  | badNumber => "invalid decimal literal"
  | noParameters => "expected '('"
  | noBody => "expected ':'"
  | misplaced => "invalid syntax"
  | repeated name => s!"duplicate argument '{name}' in function definition"

def pass : Cause → Nat
  | badNumber => 0
  | noParameters | noBody | misplaced => 1
  | repeated _ => 2

end Cause

def keywords : List String :=
  ["and", "as", "assert", "async", "await", "break", "class", "continue", "def", "del", "elif",
    "else", "except", "finally", "for", "from", "global", "if", "import", "in", "is", "lambda",
    "nonlocal", "not", "or", "pass", "raise", "return", "try", "while", "with", "yield"]

def isBadNumber (word : String) : Bool :=
  match word.toList with
  | [] => false
  | c :: rest => c.isDigit && rest.any isLetter

def words (spelling : String) : List String :=
  ((String.ofList (spelling.toList.map fun c => if isWord c then c else ' ')).splitOn " ").filter
    (· ≠ "")

def isName (spelling : String) : Bool :=
  match spelling.toList with
  | [] => false
  | c :: rest => isWord c && !c.isDigit && rest.all isWord && spelling ∉ keywords

def isGap (c : Char) : Bool := c == ' ' || c == '\t'

def inner (spelling : String) : String :=
  .ofList (((spelling.toList.dropWhile isGap).reverse.dropWhile isGap).reverse)

def parameterCause? (spelling : String) : Option Cause :=
  if (words spelling).any isBadNumber then some .badNumber
  else if isName (inner spelling) then none
  else some .misplaced

def afterNameCause (rest : List Char) : Cause :=
  match rest with
  | '(' :: rest =>
    let listed := String.ofList (rest.takeWhile (· ≠ ')'))
    if inner listed = "" || (listed.splitOn ",").all fun p => isName (inner p) then .noBody
    else .misplaced
  | _ => .noParameters

/-- Why the name of a function is refused. Its first word is fine, since it starts with the
word that all of them start with. -/
def functionCause? (spelling : String) : Option Cause :=
  if (words spelling).any isBadNumber then some .badNumber
  else
    match (spelling.toList.dropWhile isWord).dropWhile isGap with
    | [] => none
    | rest => some (afterNameCause rest)

def repeatedName? : List String → Option String
  | names => (names.zipIdx.find? fun n => n.1 ∈ names.take n.2).map Prod.fst

def headCauses (name : String) (params : List String) : List Cause :=
  (functionCause? name).toList ++ params.filterMap parameterCause? ++
    ((repeatedName? params).map Cause.repeated).toList

structure Part where
  text : String
  causes : List Cause := []

def Part.height (p : Part) : Nat := (p.text.splitOn "\n").length

def causesFrom : Nat → List Part → List (Cause × Nat)
  | _, [] => []
  | line, p :: rest => p.causes.map (·, line) ++ causesFrom (line + p.height) rest

def reported? (found : List (Cause × Nat)) : Option (Cause × Nat) :=
  [0, 1, 2].findSome? fun pass => found.find? fun c => c.1.pass = pass

def refusal (c : Cause × Nat) : Fault :=
  ⟨.grammar, c.1.message ++ s!" (<string>, line {c.2})"⟩

def plainParts (lines : List String) : List Part := lines.map fun l => ⟨l, []⟩

def rule : String := "# " ++ times 77 "="

def headLines : List String :=
  ["\"\"\"", "ERB Calculation Library (GENERATED - DO NOT EDIT)",
    times 49 "=", "Generated from: effortless-rulebook/effortless-rulebook.json", "",
    "This file contains pure functions that compute calculated fields",
    "from raw field values. Supports multiple entities.", "\"\"\"", "",
    "from typing import Optional, Any", ""]

/-- A formula inside a documentation text: backslashes are doubled, triple quotation marks
replaced, and a quotation mark at the end is kept apart from the closing ones. -/
def docText (formula : String) : String :=
  let s := replace (replace formula "\\" "\\\\") "\"\"\"" "'''"
  if endsWith s "\"" then s ++ " " else s

/-- The documentation of a formula that cannot be read. -/
def unreadable (c : Column) (f : Fault) : String :=
  "ERROR: Could not parse formula: " ++ c.formulaText ++ "\n    Error: " ++ f.message ++ "\n   "
    ++ " "

def refusalText : String := "\n    raise NotImplementedError(\"Formula parsing failed\")\n"

def routineParts (entity : String) (c : Column) : List Part :=
  let name := routineName entity c.name
  match readFormula c with
  | .error f =>
    plainParts [""] ++ [⟨"def " ++ name ++ "():\n    \"\"\"" ++ unreadable c f ++ "\"\"\"" ++ refusalText,
      headCauses name []⟩]
  | .ok (e, text) =>
    let params := e.fields.map Names.snake
    [⟨join "\n" [s!"def {name}(" ++ join ", " params ++ "):",
      s!"    \"\"\"Formula: {docText c.formulaText}\"\"\"", "    return " ++ text],
      headCauses name params⟩]

def stepLine (s : Step) : String :=
  let args := s.args.map fun a => s!"result.get('{a}')"
  "    result['" ++ s.target ++ s!"'] = {s.routine}(" ++ join ", " args ++ ")"

def computationText (s : Section) : String :=
  let levels := s.levels.zipIdx.flatMap fun level =>
    ["    # Level " ++ toString (level.2 + 1) ++ " calculations"] ++
      (level.1.map fun c => stepLine (Step.ofColumn s.entity c)) ++ [""]
  let texts := s.textFields.map fun f => s!"'{f}'"
  let clearing := if texts.isEmpty then []
    else ["    # Convert empty strings to None for string fields",
      "    for key in [" ++ join ", " texts ++ "]:", "        if result.get(key) == '':",
      "            result[key] = None", ""]
  join "\n" ([s!"def compute_{Names.snake s.entity}_fields(record: dict) -> dict:",
    s!"    \"\"\"Compute all calculated fields for {s.entity}.\"\"\"",
    "    result = dict(record)", ""] ++ levels ++ clearing ++ ["    return result"])

/-- The function that chooses the computation of an entity. Without entities there is no case
that its last one could follow. -/
def dispatchParts (entities : List String) : List Part :=
  let cases := entities.zipIdx.flatMap fun e =>
    ["    " ++ (if e.2 = 0 then "if" else "elif") ++ s!" entity_lower == '{Names.snake e.1}':",
      s!"        return compute_{Names.snake e.1}_fields(record)"]
  let opening := ["def compute_all_calculated_fields(record: dict, entity_name: str = None) -> dict:",
    "    \"\"\"", "    Compute all calculated fields for a record.", "    ", "    Args:",
    "        record: The record dict with raw field values",
    "        entity_name: Entity name (snake_case or PascalCase)", "    ", "    Returns:",
    "        Record dict with calculated fields filled in", "    \"\"\"",
    "    if entity_name is None:", "        # Try to infer from record keys",
    "        return dict(record)", "", "    # Normalize to snake_case",
    "    entity_lower = entity_name.lower().replace('-', '_')", ""] ++ cases
  plainParts opening ++ [⟨"    else:", if entities.isEmpty then [.misplaced] else []⟩] ++
    plainParts ["        # Unknown entity, return as-is", "        return dict(record)"]

def sectionParts (s : Section) : List Part :=
  let levels := s.levels.zipIdx.flatMap fun level =>
    plainParts ["", "# Level " ++ toString (level.2 + 1)] ++
      level.1.flatMap fun c => plainParts [""] ++ routineParts s.entity c
  plainParts ["", rule, s!"# {upper s.entity} CALCULATIONS", rule] ++ levels ++
    plainParts ["", "", computationText s]

def parts (sections : List Section) : List Part :=
  plainParts headLines ++ sections.flatMap sectionParts ++
    plainParts ["", "", rule, "# DISPATCHER FUNCTION", rule, ""] ++
    dispatchParts (sections.map Section.entity)

def document (sections : List Section) : String :=
  join "\n" ((parts sections).map Part.text)

def compile (sections : List Section) : Except Fault Program :=
  match reported? (causesFrom 1 (parts sections)) with
  | some cause => .error (refusal cause)
  | none => .ok (.ofSections sections)

end Rulebook.Script
