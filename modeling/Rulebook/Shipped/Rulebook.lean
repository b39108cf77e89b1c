/-
The rulebook that comes with the program.

Of the candidates only what was entered is kept; the calculated columns come from their formulas,
an empty text standing for no value.
-/

import Rulebook.Shipped.Candidates

namespace Rulebook.Shipped

inductive Trait where
  | language
  | syntactic
  | held
  | identity
  | parsed
  | tree
  | linear
  | stable
  | live
  | openWorld
  | closedWorld
deriving DecidableEq

def Trait.column : Trait → String
  | language => "IsLanguage"
  | syntactic => "HasSyntax"
  | held => "CanBeHeld"
  | identity => "HasIdentity"
  | parsed => "IsParsed"
  | tree => "ResolvesToAnAST"
  | linear => "HasLinearDecodingPressure"
  | stable => "IsStableOntologyReference"
  | live => "IsLiveOntologyEditor"
  | openWorld => "IsOpenWorld"
  | closedWorld => "IsClosedWorld"

def Trait.all : List Trait := [.language, .syntactic, .held, .identity, .parsed, .tree,
  .linear, .stable, .live, .openWorld, .closedWorld]

structure Entered where
  id : String
  name : String
  category : String
  traits : List Trait
  distance : Int
  dimensionality : String
  layer : String
  order : Int

def Entered.values (e : Entered) : Record :=
  [("LanguageCandidateId", .str e.id), ("Name", .str e.name), ("Category", .str e.category),
    ("DistanceFromConcept", .int e.distance),
    ("DimensionalityWhileEditing", .str e.dimensionality),
    ("ModelObjectFacilityLayer", .str e.layer), ("SortOrder", .int e.order)]
  ++ Trait.all.map fun t => (t.column, .bool (e.traits.contains t))

def grammatical : List Trait := [.language, .syntactic, .parsed, .tree, .linear, .stable]

def symbolic : String := "OneDimensionalSymbolic"

def manifold : String := "MultiDimensionalNonSymbolic"

def entered : List Entered := [
  ⟨"english", "English", "Natural Language", grammatical ++ [.openWorld], 2, symbolic, "M1", 1⟩,
  ⟨"a-coffee-mug", "A Coffee Mug", "Physical Object",
    [.held, .identity, .closedWorld], 1, "N/A", "NA", 2⟩,
  ⟨"spoken-words", "Spoken Words", "Natural Language",
    grammatical ++ [.openWorld], 2, symbolic, "M1", 3⟩,
  ⟨"a-game-of-fortnite", "A Game of Fortnite", "Running Software",
    [.identity, .parsed, .closedWorld], 1, manifold, "M4", 4⟩,
  ⟨"sign-language", "Sign Language", "Natural Language",
    grammatical ++ [.openWorld], 2, symbolic, "M1", 5⟩,
  ⟨"editing-airtable-base", "Editing Airtable Base", "Running Software",
    [.identity, .tree, .stable, .live, .closedWorld], 2, manifold, "M4", 6⟩,
  ⟨"math", "Math", "Formal Language", grammatical ++ [.closedWorld], 2, symbolic, "M1", 7⟩,
  ⟨"falsifier-a", "Falsifier A", "MISSING: Have you seen this Language?",
    [.language, .held, .identity, .parsed, .tree, .stable], 1, "N/A", "NA", 8⟩,
  ⟨"falsifier-b", "Falsifier B", "MISSING: Have you seen this Language?",
    [.syntactic, .parsed, .tree, .linear, .stable], 2, "N/A", "M1", 9⟩,
  ⟨"a-smartphone", "A Smartphone", "Physical Object",
    [.held, .identity, .linear, .closedWorld], 1, "N/A", "NA", 10⟩,
  ⟨"python", "Python", "Formal Language", grammatical ++ [.openWorld], 2, symbolic, "M1", 11⟩,
  ⟨"a-running-app", "A Running App ", "Running Software",
    [.identity, .parsed, .linear, .live, .closedWorld], 1, manifold, "M4", 12⟩,
  ⟨"an-xlsx-doc", "An XLSX Doc", "Formal Language", grammatical, 2, symbolic, "M2", 13⟩,
  ⟨"xlsx-editing", "XLSX - Editing", "Running Software", [.tree, .live], 1, manifold, "M4", 14⟩,
  ⟨"an-docx-doc", "An DOCX Doc", "Formal Language", grammatical, 2, symbolic, "M2", 15⟩,
  ⟨"docx-editing", "DOCX - Editing", "Running Software", [.stable, .live], 1, manifold, "M4", 16⟩,
  ⟨"owl-rdf-graphql-generally", "OWL/RDF/GraphQL/... generally", "Natural Language",
    grammatical ++ [.closedWorld], 2, symbolic, "M2", 17⟩,
  ⟨"a-thunderstorm", "A Thunderstorm", "Physical event",
    [.held, .identity, .parsed, .tree], 1, "N/A", "NA", 18⟩,
  ⟨"a-uml-file", "A UML File", "Formal Language", grammatical, 2, symbolic, "M2", 23⟩,
  ⟨"the-mona-lisa", "The Mona Lisa", "Physical Object",
    [.held, .identity, .stable], 1, "N/A", "NA", 20⟩,
  ⟨"binary-code", "Binary Code", "Formal Language", grammatical, 2, symbolic, "M2", 21⟩,
  ⟨"running-calculator-app", "Running Calculator App", "Running Software",
    [.identity, .parsed, .tree], 1, manifold, "M1", 22⟩,
  ⟨"owa-cwa-falsifier", "OWA & CWA Falsifier", "MISSING: Have you seen this Language?",
    grammatical ++ [.openWorld, .closedWorld], 2, symbolic, "M1", 23⟩]

def Entered.answer (e : Entered) : Except Fault Record := do
  let given := candidateColumns.map fun c => (Names.snake c.name, e.values.get c.name)
  let done ← candidateProgram.run (some "language_candidates") given
  return done.map fun (k, v) => (k, if v.isNull then .str "" else v)

def Entered.row (e : Entered) : Except Fault Record := do
  let answer ← e.answer
  return candidateColumns.map fun c => (c.name, answer.get (Names.snake c.name))

def argumentColumns : List String :=
  ["IsEverythingALanguageId", "Name", "ArgumentName", "ArgumentCategory", "StepType",
   "Statement", "Formalization", "RelatedCandidateName", "RelatedCandidateId",
   "EvidenceFromRulebook", "Notes"]

def evidence (traits : List Trait) (distance category : String) : String :=
  let shown := fun (name : String) (t : Trait) =>
    name ++ "=" ++ (if traits.contains t then "True" else "False") ++ "; "
  shown "HasSyntax" .syntactic ++ shown "RequiresParsing" .parsed
    ++ shown "HasLinearDecodingPressure" .linear ++ shown "IsOngologyDescriptor" .stable
    ++ shown "CanBeHeld" .held ++ shown "HasIdentity" .identity
    ++ s!"DistanceFromConcept={distance}; Category=" ++ category

def formalized (n : String) (cells : List String) : List String :=
  ["neial-" ++ n, "NEIAL-" ++ n, "LanguageCanBeFormalized"] ++ cells

def excluded (n : String) (cells : List String) : List String :=
  ["neial-" ++ n, "NEIAL-" ++ n, "NotEverythingIsALanguage"] ++ cells

def witness (n name id category : String) : List String :=
  formalized n ["Premise", "Witness",
    s!"There exists at least one clear witness that satisfies the operational definition: {name}.",
    s!"∃x (x={name} ∧ Language(x))", name, id,
    evidence [.syntactic, .parsed, .linear, .stable] "2" category,
    "If any predicate is false in your current dataset for this witness, adjust the candidate " ++
      "record or relax the definition."]

def nonLanguage (n name id : String) (traits : List Trait) (category : String) : List String :=
  excluded n ["Example", "NonLanguageExample",
    s!"Non-language example: {name} can be meaningful, but meaning here is not generated " ++
      "by an explicit syntax+parsing+serialization descriptor system.",
    s!"¬Language({name})", name, id, evidence traits "1" category,
    "These are strong candidates for 'sign vehicles' rather than 'languages'."]

def fuzzy (n name id evidence : String) : List String :=
  excluded n ["Observation", "FuzzyBoundary",
    s!"Fuzzy case: {name} often contains embedded languages (code, UI grammars), but as " ++
      "an executing/interactive process it behaves like a dynamic system rather than a static " ++
      "serialized language artifact.",
    s!"Borderline({name}): may contain ∃y Language(y) but ¬Language(" ++ name ++
      ") under static-serialization criteria", name, id, evidence,
    "This is where traditional semiotics' 'anything is a sign' doesn’t neatly distinguish: (1) " ++
      "language-as-system vs (2) meaning-making interactive processes."]

def argumentRows : List (List String) := [
  formalized "001" ["Definition", "Motivation",
    "To avoid the slogan 'Everything is a language', treat 'language' as a typed construct " ++
      "defined by testable properties (syntax, parsing, linear decoding pressure, and " ++
      "descriptor-role).", "", "", "", "",
    "This keeps 'can be interpreted' separate from 'is a language system'."],
  formalized "002" ["Definition", "PredicateSet",
    "Use the repo predicates: HasSyntax, RequiresParsing, HasLinearDecodingPressure, " ++
      "StableOntologyReference (spelled IsOngologyDescriptor in the dataset), plus auxiliary " ++
      "checks like CanBeHeld and HasIdentity.",
    "Predicates: Syntax(x), Parse(x), SerializeMeaning(x), OntDesc(x), Tangible(x)", "", "", "",
    "We preserve the dataset's field name even when misspelled to match the generated schema."],
  formalized "003" ["Definition", "Definition",
    "Operational definition: an item x counts as a Language if it has syntax, requires parsing, " ++
      "serializes meaning, and functions as an ontology/descriptor system.",
    "Language(x) := HasSyntax(x) ∧ RequiresParsing(x) ∧ HasLinearDecodingPressure(x) ∧ " ++
      "StableOntologyReference(x)", "", "", "",
    "This is a deliberately 'strong' definition: it matches formal languages and many natural " ++
      "language representations."],
  witness "004" "English" "english" "Natural Language",
  witness "005" "Python" "python" "Formal Language",
  formalized "006" ["Conclusion", "Conclusion",
    "Therefore, 'language' can be formalized as a computable classification boundary over " ++
      "explicit predicates.", "(Definition ∧ Witnesses) ⇒ Formalizable(Language)", "", "", "",
    "This is the concession: language is formalizable (at least operationally)."],
  excluded "007" ["Premise", "Entailment",
    "If Language(x) is defined by necessary conditions, then any x that fails at least one " ++
      "condition is not a language.",
    "∀x (¬(HasSyntax(x) ∧ RequiresParsing(x) ∧ HasLinearDecodingPressure(x) ∧ " ++
      "StableOntologyReference(x)) → ¬Language(x))", "", "", "",
    "This is the standard move: a definition implies exclusions."],
  excluded "008" ["Example", "Counterexample",
    "Counterexample: a chair can be interpreted as a sign (status, design, function), but it " ++
      "does not constitute a language system under the operational definition.", "¬Language(Chair)",
    "A Chair", "", "",
    "This separates semiotic availability (can signify) from linguistic structure (has " ++
      "syntax/parsing/serialized meaning)."],
  nonLanguage "009" "A Thunderstorm" "a-thunderstorm" [.parsed, .identity] "Physical event",
  nonLanguage "010" "A Coffee Mug" "a-coffee-mug" [.held, .identity] "Physical Object",
  nonLanguage "011" "The Mona Lisa" "the-mona-lisa" [.stable, .held, .identity] "Physical Object",
  fuzzy "012" "A Running App" "" "",
  fuzzy "013" "Running Calculator App" "running-calculator-app"
    (evidence [.parsed, .identity] "1" "Running Software"),
  fuzzy "014" "A Game of Fortnite" "a-game-of-fortnite"
    (evidence [.parsed, .identity] "1" "Running Software"),
  excluded "015" ["Definition", "Refinement",
    "Refinement: distinguish LanguageSystem (syntax/parsing/serialization descriptor) from " ++
      "SemioticProcess (interactive/dynamic meaning production) and from SignVehicle " ++
      "(object/phenomenon used as a sign).",
    "Kinds: LanguageSystem(x) | SemioticProcess(x) | SignVehicle(x)", "", "", "",
    "This gives you a place to put running apps and games without forcing 'language' to swallow " ++
      "everything."],
  excluded "016" ["Conclusion", "Conclusion",
    "Given a formalizable definition of language, not everything is a language; some things are " ++
      "better treated as sign vehicles or semiotic processes, with running applications as a " ++
      "key fuzzy region that benefits from explicit modeling.",
    "Formalizable(Language) ∧ ∃x ¬Language(x) ⇒ ¬(EverythingIsALanguage)", "", "", "",
    "This is the repo's thesis in one line."]]

def customizationColumns : List String :=
  ["ERBCustomizationId", "Name", "Title", "SQLCode", "SQLTarget", "CustomizationType"]

def customization (file title code kind : String) : List String :=
  [file ++ "-sql", file ++ ".sql", title, code, "Postgres", kind]

def ruler : String :=
  "-- ============================================================================\n"

def heading (subject about uses after base yours : String) : String :=
  ruler ++ s!"-- CUSTOMIZE {subject}\n{ruler}-- This file is for YOUR custom " ++
    about ++ " that should persist across\n-- regeneration of the base ERB files.\n--\n" ++ uses ++
    s!"-- IMPORTANT:\n--   - This file runs AFTER {after}\n--   - " ++ base ++
    " when this runs\n--   - This file will NOT be overwritten by ERB regeneration\n--\n" ++
    ruler ++ s!"\n-- Your custom {yours} go here:\n"

def customizationRows : List (List String) := [
  customization "01b-customize-schema" "Customize Schema"
    (heading "SCHEMA - User-defined tables and schema modifications" "schema changes"
      ("-- USE THIS FILE FOR:\n--   - Additional tables not defined in the rulebook\n--   - " ++
        "Extra columns on existing tables (ALTER TABLE)\n--   - Custom indexes for performance " ++
        "tuning\n--   - Custom constraints or triggers\n--\n")
      "01-drop-and-create-tables.sql" "The base tables already exist" "schema changes") "Schema",
  customization "02b-customize-functions" "Customize Functions"
    ("-- Prediction Fail: Returns TRUE when predicted_answer doesn't match is_language\n" ++
      "DROP FUNCTION calc_language_candidates_question;\n\nCREATE OR REPLACE FUNCTION " ++
      "public.calc_language_candidates_question(p_language_candidate_id text)\n RETURNS " ++
      "text\n LANGUAGE plpgsql\n STABLE SECURITY DEFINER\nAS $function$\nBEGIN\n  RETURN " ++
      "('Is ' || (SELECT NULLIF(name, '''') FROM language_candidates WHERE " ++
      "language_candidate_id = p_language_candidate_id) || ' a language?')::text;\nEND;\n" ++
      "$function$\n") "Functions",
  customization "03b-customize-views" "Customize Views"
    (heading "VIEWS - User-defined views and view extensions" "views" "" "03-create-views.sql"
      "All base vw_* views already exist" "views") "Views",
  customization "04b-customize-rls" "Customize Policies (RLS)"
    (heading "POLICIES - User-defined Row Level Security policies" "RLS policies" ""
      "04-create-policies.sql" "Base RLS policies already exist" "policies") "RLS",
  customization "05b-customize-data" "Customize Data (Seeds / Migrations)"
    (heading "DATA - User-defined seed data and data migrations" "seed data" ""
      "05-insert-data.sql" "Base seed data already exists" "data inserts") "Data"]

def textSchema (columns : List String) : Value :=
  .list (columns.zipIdx.map fun (name, i) =>
    .dict (column name "raw" "string" (0 < i) none).entries)

def textRecords (columns : List String) (rows : List (List String)) : List Record :=
  rows.map fun row => columns.zip (row.map .str)

def tableValue (name : String) (schema : Value) (data : List Record) : String × Value :=
  (name, .dict [("Description", .str s!"Table: {name}"), ("schema", schema),
    ("data", .list (data.map .dict))])

def bookWith (candidates argument : List Record) : Record :=
  [("$schema", .str "https://example.com/cmcc-schema/v1"),
    ("Name", .str "PUBLISHED - ERB_semiotics-is-everything-a-language"),
    tableValue "LanguageCandidates" (.list (candidateColumns.map (.dict ·.entries))) candidates,
    tableValue "IsEverythingALanguage" (textSchema argumentColumns) argument,
    tableValue "ERBCustomizations" (textSchema customizationColumns)
      (textRecords customizationColumns customizationRows)]

end Rulebook.Shipped
