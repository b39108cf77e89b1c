/-
The formulas of the language candidates, read.
-/

import Rulebook.Graph.Spec
import Rulebook.Proofs.Schema.Levels
import Rulebook.Proofs.Script.Completion
import Rulebook.Shipped.Candidates

namespace Rulebook.Shipped

open List String Formula
open Text Schedule

def choose (field yes no : String) : Expr := .call "IF" [.field field, .str yes, .str no]

def allFields (asked excluded : List String) : Expr :=
  .call "AND" (asked.map .field ++ excluded.map fun field => .unary "NOT" (.field field))

def askedFields : List String :=
  ["HasSyntax", "IsParsed", "IsDescriptionOf", "HasLinearDecodingPressure", "ResolvesToAnAST",
    "IsStableOntologyReference"]

def excludedFields : List String := ["CanBeHeld", "HasIdentity"]

def worldFields : List String := ["IsOpenWorld", "IsClosedWorld"]

def mismatchFormula : Expr :=
  .concat [.field "Name", .str " ", choose "PredictedAnswer" "Is" "Isn't",
    .str " a Family Feud Language, but ", choose "IsLanguage" "Is" "Is Not",
    .str " marked as a 'Language Candidate.'"]

def candidateFormula : String → Expr
  | "HasGrammar" => .binary .eq (.field "HasSyntax") (.bool true)
  | "Question" => .concat [.str "Is ", .field "Name", .str " a language?"]
  | "PredictedAnswer" => allFields askedFields excludedFields
  | "PredictionPredicates" =>
    .concat [choose "HasSyntax" "Has Syntax" "No Syntax", .str " & ",
      choose "IsParsed" "Requires Parsing" "No Parsing Neede", .str " & ",
      choose "IsDescriptionOf" "Describes the thing" "Is the Thing", .str " & ",
      choose "HasLinearDecodingPressure" "Has Linear Decoding Pressure" "No Decoding Pressure",
      .str " & ", choose "ResolvesToAnAST" "Resolves to AST" "No AST", .str ", ",
      choose "IsStableOntologyReference" "Is Stable Ontology" "Not 'Ontology'", .str " AND ",
      choose "CanBeHeld" "Can Be Held" "Can't Be Held", .str ", ",
      choose "HasIdentity" "Has Identity" "Has no Identity"]
  | "PredictionFail" =>
    .concat [.call "IF"
        [.unary "NOT" (.binary .eq (.field "PredictedAnswer") (.field "IsLanguage")),
          mismatchFormula, .str ""],
      choose "IsOpenClosedWorldConflicted" " - Open World vs. Closed World Conflict." ""]
  | "IsDescriptionOf" => .binary .gt (.field "DistanceFromConcept") (.int 1)
  | "IsOpenClosedWorldConflicted" => allFields worldFields []
  | "RelationshipToConcept" =>
    .call "IF" [.binary .eq (.field "DistanceFromConcept") (.int 1), .str "IsMirrorOf",
      .str "IsDescriptionOf"]
  | _ => .str ""

/-! ### Reading the formulas -/

theorem parse_of_scan {f cs ts e}
    (hf : f.toList = cs) (hscan : scan 0 (body cs) = .ok ts) (hparse : parseTokens ts = .ok e) :
    parse f = .ok e := by
  simp [parse, tokenize, hf, hscan, hparse, Except.mapError]

theorem parse_predictedAnswer :
    parse predictedAnswerFormula = .ok (candidateFormula "PredictedAnswer") := by
  refine @parse_of_scan _ ?cs ?ts _ ?text ?scan ?parse
  case text =>
    unfold predictedAnswerFormula
    iterate 2 rewrite [toList_append]
    iterate 3 rewrite [@toList_ofList _]
    rfl
  case scan =>
    cbv
    rfl
  case parse => cbv

set_option maxRecDepth 4000 in
theorem parse_predictionPredicates :
    parse predictionPredicatesFormula = .ok (candidateFormula "PredictionPredicates") := by
  refine @parse_of_scan _ ?cs ?ts _ ?text ?scan ?parse
  case text =>
    unfold predictionPredicatesFormula
    iterate 7 rewrite [toList_append]
    iterate 8 rewrite [@toList_ofList _]
    rfl
  case scan =>
    cbv
    rfl
  case parse => cbv

set_option maxRecDepth 4000 in
theorem parse_predictionFail :
    parse predictionFailFormula = .ok (candidateFormula "PredictionFail") := by
  refine @parse_of_scan _ ?cs ?ts _ ?text ?scan ?parse
  case text =>
    unfold predictionFailFormula
    iterate 4 rewrite [toList_append]
    iterate 5 rewrite [@toList_ofList _]
    rfl
  case scan =>
    cbv
    rfl
  case parse => cbv

/-! ### The calculated columns -/

theorem candidateColumns_formulas :
    (computedOf candidateColumns).map (fun c => (c.name, c.formula)) =
      [("HasGrammar", .str hasGrammarFormula), ("Question", .str questionFormula),
        ("PredictedAnswer", .str predictedAnswerFormula),
        ("PredictionPredicates", .str predictionPredicatesFormula),
        ("PredictionFail", .str predictionFailFormula),
        ("IsDescriptionOf", .str isDescriptionOfFormula),
        ("IsOpenClosedWorldConflicted", .str isOpenClosedWorldConflictedFormula),
        ("RelationshipToConcept", .str relationshipToConceptFormula)] := rfl

/-- **Expressions** of the calculated columns. -/
theorem expression_candidate (hc : c ∈ computedOf candidateColumns) :
    c.expression = .ok (candidateFormula c.name) := by
  have hread : ∀ {name text : String}, (c.name, c.formula) = (name, .str text) →
      parse text = .ok (candidateFormula name) → c.expression = .ok (candidateFormula c.name) := by
    intro name text heq hparse
    obtain ⟨hname, hformula⟩ := Prod.mk.inj heq
    rw [Column.expression, hformula, hname]
    exact hparse
  have hmem : (c.name, c.formula) ∈ (computedOf candidateColumns).map
      (fun c => (c.name, c.formula)) := mem_map_of_mem hc
  rw [candidateColumns_formulas] at hmem
  simp only [mem_cons, not_mem_nil, or_false] at hmem
  rcases hmem with h | h | h | h | h | h | h | h
  · exact hread h (by cbv)
  · exact hread h (by cbv)
  · exact hread h parse_predictedAnswer
  · exact hread h parse_predictionPredicates
  · exact hread h parse_predictionFail
  · exact hread h (by cbv)
  · exact hread h (by cbv)
  · exact hread h (by cbv)

def calculatedFields : List String :=
  ["HasGrammar", "Question", "PredictedAnswer", "PredictionPredicates", "PredictionFail",
    "IsDescriptionOf", "IsOpenClosedWorldConflicted", "RelationshipToConcept"]

def rawFields : List String :=
  ["LanguageCandidateId", "Name", "IsLanguage", "HasSyntax", "CanBeHeld", "Category",
    "HasIdentity", "IsParsed", "ResolvesToAnAST", "HasLinearDecodingPressure",
    "IsStableOntologyReference", "IsLiveOntologyEditor", "IsOpenWorld", "IsClosedWorld",
    "DistanceFromConcept", "DimensionalityWhileEditing", "ModelObjectFacilityLayer", "SortOrder"]

theorem map_name_computedOf : (computedOf candidateColumns).map Column.name = calculatedFields :=
  rfl

theorem name_mem_calculatedFields (hc : c ∈ computedOf candidateColumns) :
    c.name ∈ calculatedFields := map_name_computedOf ▸ mem_map_of_mem hc

theorem jobs_candidate : (computedOf candidateColumns).map Schedule.Job.ofColumn =
    ((computedOf candidateColumns).map Column.name).map fun name =>
      { name, needs := (candidateFormula name).fields } := by
  rw [List.map_map]
  refine map_congr_left fun c hc => ?_
  rw [Schedule.Job.ofColumn, expression_candidate hc]
  rfl

def candidateLevels (spell : String → String) : Levels :=
  levelsBy spell ((computedOf candidateColumns).map Schedule.Job.ofColumn)
    ((rawOf candidateColumns).map Column.name)

/-- Calculated columns become ready in three levels, whether names are spelled as they are
declared or with underscores. -/
theorem candidateLevels_eq (h : spell = id ∨ spell = Names.snake) : (candidateLevels spell).levels =
      [["HasGrammar", "Question", "IsDescriptionOf", "IsOpenClosedWorldConflicted",
        "RelationshipToConcept"], ["PredictedAnswer", "PredictionPredicates"],
        ["PredictionFail"]] := by
  rw [candidateLevels, jobs_candidate]
  rcases h with rfl | rfl
  · rfl
  · rfl

/-- The order in which the explanation specification computes the columns: level by level, in
alphabetical order. -/
def graphOrder : List String :=
  ["HasGrammar", "IsDescriptionOf", "IsOpenClosedWorldConflicted", "Question",
    "RelationshipToConcept", "PredictedAnswer", "PredictionPredicates", "PredictionFail"]

theorem candidateSpec_order : (Graph.EntitySpec.ofColumns candidateColumns).order = graphOrder := by
  have horder : (Graph.EntitySpec.ofColumns candidateColumns).order =
      (candidateLevels id).levels.flatMap sorted := order_eq_levels _ _
  have hfirst : sorted ["HasGrammar", "Question", "IsDescriptionOf",
      "IsOpenClosedWorldConflicted", "RelationshipToConcept"] = ["HasGrammar", "IsDescriptionOf",
      "IsOpenClosedWorldConflicted", "Question", "RelationshipToConcept"] :=
    sorted_eq_of_pairwise (by decide) (by decide)
  have hsecond : sorted ["PredictedAnswer", "PredictionPredicates"] =
      ["PredictedAnswer", "PredictionPredicates"] :=
    sorted_eq_of_pairwise (by decide) (by decide)
  rw [horder, candidateLevels_eq (.inl rfl)]
  simp only [flatMap_cons, hfirst, hsecond]
  simp [graphOrder, sorted]

def scriptOrder : List String :=
  ["HasGrammar", "Question", "IsDescriptionOf", "IsOpenClosedWorldConflicted",
    "RelationshipToConcept", "PredictedAnswer", "PredictionPredicates", "PredictionFail"]

theorem candidateSection_names : candidateSection.levels.flatten.map Column.name = scriptOrder := by
  have hlevels := candidateLevels_eq (.inr rfl)
  have hfound : (candidateLevels Names.snake).levels.flatten ⊆
      (computedOf candidateColumns).map Column.name := by
    rw [hlevels]
    decide
  have hnames := map_name_columnsOf hfound
  rw [hlevels] at hnames
  rw [map_flatten]
  exact congrArg flatten hnames

theorem hasFormula_candidate (hc : c ∈ computedOf candidateColumns) :
    Script.HasFormula c (candidateFormula c.name) := by
  refine ⟨expression_candidate hc, ?_⟩
  have hok : ∀ name ∈ calculatedFields,
      (Emit.render Emit.Script.dialect (candidateFormula name)).isOk = true := by
    decide
  have hc := hok c.name (name_mem_calculatedFields hc)
  cases hrender : Emit.render Emit.Script.dialect (candidateFormula c.name) with
  | error e => simp [hrender, Except.toBool] at hc
  | ok text => exact ⟨text, rfl⟩

end Rulebook.Shipped
