/-
The columns of the language candidates in the rulebook that comes with the program.

Eight columns are calculated. The program of these columns is what completes the
records of candidates.
-/

import Rulebook.Script.Program

namespace Rulebook.Shipped

def column (name kind datatype : String) (nullable : Bool) (formula : Option String) : Column :=
  let entries : Record := [("name", .str name), ("datatype", .str datatype), ("type", .str kind),
    ("nullable", .bool nullable)] ++ (formula.map fun f => ("formula", .str f)).toList
  { name, kind := some kind, datatype := some datatype
    formula := .str (formula.getD "")
    nullable := some (.bool nullable), entries }

def raw (name datatype : String) : Column := column name "raw" datatype true none

def calculated (name datatype formula : String) : Column :=
  column name "calculated" datatype true (some formula)

def about (text : String) (c : Column) : Column :=
  { c with entries := c.entries ++ [("Description", .str text)] }

def hasGrammarFormula : String :=
  "={{HasSyntax}} = TRUE()"

def questionFormula : String :=
  "=\"Is \" & {{Name}} & \" a language?\""

def predictedAnswerFormula : String :=
  "=AND(\n  {{HasSyntax}},\n  {{IsParsed}},\n  {{IsDescriptionOf}},\n  " ++
    "{{HasLinearDecodingPressure}},\n  {{ResolvesToAnAST}},\n  " ++
    "{{IsStableOntologyReference}},\n  NOT({{CanBeHeld}}),\n  NOT({{HasIdentity}})\n)"

def predictionPredicatesFormula : String :=
  "=IF({{HasSyntax}}, \"Has Syntax\", \"No Syntax\") & \" & \" & IF({{IsParsed}}, " ++
    "\"Requires Parsing\", \"No Parsing Neede\") & \" & \" & IF({{IsDescriptionOf}}, " ++
    "\"Describes the thing\", \"Is the Thing\") & \" & \" & " ++
    "IF({{HasLinearDecodingPressure}}, \"Has Linear Decoding Pressure\", \"No Decoding " ++
    "Pressure\") & \" & \" & IF({{ResolvesToAnAST}}, \"Resolves to AST\", \"No AST\") & \", " ++
    "\" & IF({{IsStableOntologyReference}}, \"Is Stable Ontology\", \"Not 'Ontology'\") & " ++
    "\" AND \" & IF({{CanBeHeld}}, \"Can Be Held\", \"Can't Be Held\") & \", \" " ++
    "&IF({{HasIdentity}}, \"Has Identity\", \"Has no Identity\")"

def predictionFailFormula : String :=
  "=IF(NOT({{PredictedAnswer}} = {{IsLanguage}}),\n  {{Name}} & \" \" & " ++
    "IF({{PredictedAnswer}}, \"Is\", \"Isn't\") & \" a Family Feud Language, but \" & \n  " ++
    "IF({{IsLanguage}}, \"Is\", \"Is Not\") & \" marked as a 'Language Candidate.'\", \"\") " ++
    "& IF({{IsOpenClosedWorldConflicted}}, \" - Open World vs. Closed World " ++
    "Conflict.\", \"\")"

def isDescriptionOfFormula : String :=
  "={{DistanceFromConcept}} > 1"

def isOpenClosedWorldConflictedFormula : String :=
  "=AND({{IsOpenWorld}}, {{IsClosedWorld}})"

def relationshipToConceptFormula : String :=
  "=IF({{DistanceFromConcept}} = 1, \"IsMirrorOf\", \"IsDescriptionOf\")"

def candidateColumns : List Column := [
  column "LanguageCandidateId" "raw" "string" false none,
  about
    ("Name of the language candidate being classified.")
    (raw "Name" "string"),
  about
    ("The test answer that is intended to match the Family Feud answer to be \"correct\".")
    (raw "IsLanguage" "boolean"),
  about
    ("Does this candidate have a Grammar?  Generally follows candidates that have syntax " ++
      "also have grammar.")
    (calculated "HasGrammar" "boolean" hasGrammarFormula),
  about
    ("Does this language candidate have syntax and/or grammar?")
    (raw "HasSyntax" "boolean"),
  about
    ("Is this candidate physical/material.  I.e. could it at least theoretically \"be held\"?")
    (raw "CanBeHeld" "boolean"),
  about
    ("Question that 100 random people could be asked, family feud style.")
    (calculated "Question" "string" questionFormula),
  about
    ("The predicted answer as the top most popular answer among those in the family feud " ++
      "polling pool.")
    (calculated "PredictedAnswer" "boolean" predictedAnswerFormula),
  calculated "PredictionPredicates" "string" predictionPredicatesFormula,
  about
    ("If the family feud answer does not match the chosen language candidates status then " ++
      "this explains what did not match. t also flags (in english) mismatch where a " ++
      "candidate is marked as BOTH open AND closed world which does not make sense.")
    (calculated "PredictionFail" "string" predictionFailFormula),
  about
    ("The general high level category of the candidate.")
    (raw "Category" "string"),
  about
    ("Could this thing be assigned a guid, unique in the universe that would identify it " ++
      "globally?  Like a drivers license or social security number for a person.")
    (raw "HasIdentity" "boolean"),
  about
    ("Is the knowledge/information encoded in a form that requires parsing before meaning " ++
      "can be extracted?")
    (raw "IsParsed" "boolean"),
  about
    ("Is the knowledge/information encoded in a form that requires parsing before meaning " ++
      "can be extracted?")
    (raw "ResolvesToAnAST" "boolean"),
  raw "HasLinearDecodingPressure" "boolean",
  raw "IsStableOntologyReference" "boolean",
  raw "IsLiveOntologyEditor" "boolean",
  raw "IsOpenWorld" "boolean",
  raw "IsClosedWorld" "boolean",
  calculated "IsDescriptionOf" "boolean" isDescriptionOfFormula,
  raw "DistanceFromConcept" "integer",
  calculated "IsOpenClosedWorldConflicted" "boolean" isOpenClosedWorldConflictedFormula,
  raw "DimensionalityWhileEditing" "string",
  calculated "RelationshipToConcept" "string" relationshipToConceptFormula,
  raw "ModelObjectFacilityLayer" "string",
  raw "SortOrder" "integer"]

def candidateSection : Script.Section := .ofColumns "LanguageCandidates" candidateColumns

def candidateProgram : Script.Program := .ofSections [candidateSection]

end Rulebook.Shipped
