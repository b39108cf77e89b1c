/-
Language candidates and the argument about them.

Whether a candidate counts as a language is derived from what is observed of it. Observations may
be missing, and of another type than expected.
-/

import Rulebook.Value.Access

namespace Rulebook

open Text

structure Candidate where
  id : Value
  name : Value := .null
  category : Value := .null
  canBeHeld : Value := .null
  meaningIsSerialized : Value := .null
  requiresParsing : Value := .null
  isOntologyDescriptor : Value := .null
  hasSyntax : Value := .null
  chosen : Value := .null
  sortOrder : Value := .null
  hasIdentity : Value := .null
  distance : Value := .null

namespace Candidate

def keys : List String :=
  ["language_candidate_id", "name", "category", "can_be_held", "meaning_is_serialized",
    "requires_parsing", "is_ongology_descriptor", "has_syntax", "chosen_language_candidate",
    "sort_order", "has_identity", "distance_from_concept"]

def columns : List String :=
  ["LanguageCandidateId", "Name", "Category", "CanBeHeld", "Meaning_Is_Serialized",
    "RequiresParsing", "IsOngologyDescriptor", "HasSyntax", "ChosenLanguageCandidate",
    "SortOrder", "HasIdentity", "DistanceFromConcept"]

def ofValues (get : Nat → Value) : Candidate where
  id := get 0
  name := get 1
  category := get 2
  canBeHeld := get 3
  meaningIsSerialized := get 4
  requiresParsing := get 5
  isOntologyDescriptor := get 6
  hasSyntax := get 7
  chosen := get 8
  sortOrder := get 9
  hasIdentity := get 10
  distance := get 11

def ofRecord (r : Record) : Except Fault Candidate := do
  match r.keys.find? fun k => !(keys.contains k) with
  | some k => throw (.ofType ("LanguageCandidate.__init__() got an unexpected keyword argument '"
      ++ k ++ "'"))
  | none =>
    if !r.has "language_candidate_id" then
      throw (.ofType ("LanguageCandidate.__init__() missing 1 required positional argument: "
        ++ "'language_candidate_id'"))
    return ofValues fun i => r.get (keys.getD i "")

def ofRow (row : Record) : Candidate :=
  ofValues fun i =>
    row.getD (columns.getD i "") (if i = 0 then .str "" else .null)

def categoryContainsLanguage (c : Candidate) : Except Fault Bool := do
  if c.category.isNull then return false
  return contains (lower (← c.category.asText "lower")) "language"

def hasGrammar (c : Candidate) : String := if c.hasSyntax.truthy then "true" else ""

def relationship (c : Candidate) : String :=
  if c.distance.equal (.int 1) then "IsMirrorOf" else "IsDescriptionOf"

def nameText (c : Candidate) : String := if c.name.truthy then c.name.text else ""

def question (c : Candidate) : String := s!"Is {c.nameText} a language?"

def isTopAnswer (c : Candidate) : Except Fault Bool := do
  return (← c.categoryContainsLanguage) && c.hasSyntax.truthy && !c.canBeHeld.truthy &&
    c.meaningIsSerialized.truthy && c.requiresParsing.truthy && c.isOntologyDescriptor.truthy &&
    !c.hasIdentity.truthy && c.distance.equal (.int 2)

def mismatch (c : Candidate) : Except Fault Value := do
  let top ← c.isTopAnswer
  let chosen := if c.chosen.truthy then c.chosen else .bool false
  if (Value.bool top).equal chosen then return .null
  return .str (c.nameText ++ " " ++ (if top then "Is" else "Isn't")
    ++ " a Family Feud Language, but " ++ (if chosen.truthy then "Is" else "Is Not")
    ++ " marked as a 'Language Candidate.'")

def view (c : Candidate) : Except Fault Record := do
  let contains ← c.categoryContainsLanguage
  let top ← c.isTopAnswer
  let mismatch ← c.mismatch
  return [("language_candidate_id", c.id), ("name", c.name), ("category", c.category),
    ("can_be_held", c.canBeHeld), ("meaning_is_serialized", c.meaningIsSerialized),
    ("requires_parsing", c.requiresParsing),
    ("is_ongology_descriptor", c.isOntologyDescriptor), ("has_syntax", c.hasSyntax),
    ("chosen_language_candidate", c.chosen), ("sort_order", c.sortOrder),
    ("has_identity", c.hasIdentity), ("distance_from_concept", c.distance),
    ("category_contains_language", .bool contains), ("has_grammar", .str c.hasGrammar),
    ("relationship_to_concept", .str c.relationship), ("family_fued_question", .str c.question),
    ("is_a_family_feud_top_answer", .bool top), ("family_feud_mismatch", mismatch)]

/-- Whether a candidate is a language: it has syntax, requires parsing, serialises meaning
and describes an ontology. Gives the last of these, or false. -/
def isLanguage (c : Candidate) : Value :=
  if c.hasSyntax.truthy && c.requiresParsing.truthy && c.meaningIsSerialized.truthy &&
    c.isOntologyDescriptor.truthy then c.isOntologyDescriptor else .bool false

end Candidate

def argumentKeys : List (String × String) :=
  [("is_everything_a_language_id", "IsEverythingALanguageId"), ("name", "Name"),
    ("argument_name", "ArgumentName"), ("argument_category", "ArgumentCategory"),
    ("step_type", "StepType"), ("statement", "Statement"), ("formalization", "Formalization"),
    ("related_candidate_name", "RelatedCandidateName"),
    ("related_candidate_id", "RelatedCandidateId"),
    ("evidence_from_rulebook", "EvidenceFromRulebook"), ("notes", "Notes")]

def argumentOf (row : Record) : Record :=
  argumentKeys.map fun k =>
    (k.1, row.getD k.2 (if k.1 = "is_everything_a_language_id" then .str "" else .null))

def rowsOf (book : Record) (table : String) : Except Fault (List Record) := do
  let data ← (book.getD table (.dict [])).getOr "data" (.list [])
  (← data.iterate).mapM fun row => row.table "get"

def loadCandidates (book : Record) : Except Fault (List Candidate × List Record) := do
  let candidates ← rowsOf book "LanguageCandidates"
  let arguments ← rowsOf book "IsEverythingALanguage"
  return (candidates.map Candidate.ofRow, arguments.map argumentOf)

end Rulebook
