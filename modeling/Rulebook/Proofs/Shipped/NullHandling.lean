/-
Null in the records of language candidates.

The generated program reads a missing truth value as false, while the derivation graphs follow
three-valued logic.
-/

import Rulebook.Proofs.Grading
import Rulebook.Proofs.Shipped.Columns
import Rulebook.Proofs.Workspace.Files
import Rulebook.Substrate.Yaml

namespace Rulebook.Shipped

open List Grading Reading Workspace Script Substrate.Script Value

/-! ### Candidates -/

def OfDatatype : Datatype → Value → Prop
  | .boolean, v => ∃ b, v = .bool b
  | .integer, v => ∃ n, v = .int n
  | .text, v => ∃ t, v = .str t

/-- A record of a candidate: the distance is an integer, and every raw field is null or has its
declared type. -/
structure IsCandidate (r : Record) : Prop where
  distance : ∃ n, valueOf r "DistanceFromConcept" = .int n
  typed : ∀ c ∈ rawOf candidateColumns, valueOf r c.name = .null ∨
    OfDatatype (.ofName c.datatypeName) (valueOf r c.name)

/-- The raw fields of a candidate are null or have their declared types. -/
def IsTyped (r : Record) : Prop :=
  ∀ c ∈ rawOf candidateColumns, valueOf r c.name = .null ∨
    OfDatatype (.ofName c.datatypeName) (valueOf r c.name)

def rawDatatypes : List (String × Datatype) :=
  [("LanguageCandidateId", .text), ("Name", .text), ("IsLanguage", .boolean),
    ("HasSyntax", .boolean), ("CanBeHeld", .boolean), ("Category", .text),
    ("HasIdentity", .boolean), ("IsParsed", .boolean), ("ResolvesToAnAST", .boolean),
    ("HasLinearDecodingPressure", .boolean), ("IsStableOntologyReference", .boolean),
    ("IsLiveOntologyEditor", .boolean), ("IsOpenWorld", .boolean), ("IsClosedWorld", .boolean),
    ("DistanceFromConcept", .integer), ("DimensionalityWhileEditing", .text),
    ("ModelObjectFacilityLayer", .text), ("SortOrder", .integer)]

theorem map_datatype_rawOf :
    (rawOf candidateColumns).map (fun c => (c.name, Datatype.ofName c.datatypeName)) =
      rawDatatypes := rfl

section

variable {r : Record}

theorem IsTyped.ofDatatype (h : IsTyped r) (hfield : (field, τ) ∈ rawDatatypes) :
    valueOf r field = .null ∨ OfDatatype τ (valueOf r field) := by
  rw [← map_datatype_rawOf] at hfield
  obtain ⟨c, hc, heq⟩ := mem_map.mp hfield
  obtain ⟨rfl, rfl⟩ := Prod.mk.inj heq
  exact h c hc

theorem IsCandidate.ofDatatype (h : IsCandidate r) (hfield : (field, τ) ∈ rawDatatypes) :
    valueOf r field = .null ∨ OfDatatype τ (valueOf r field) :=
  IsTyped.ofDatatype h.typed hfield

theorem IsCandidate.isTruth (h : IsCandidate r)
    (hfield : (field, .boolean) ∈ rawDatatypes) : IsTruth (valueOf r field) :=
  h.ofDatatype hfield

theorem IsCandidate.readable (h : IsCandidate r) : Readable r :=
  ⟨h.distance, h.ofDatatype (by decide : ("Name", .text) ∈ rawDatatypes)⟩

theorem isCandidate_of_rawDatatypes (hdistance : ∃ n, valueOf r "DistanceFromConcept" = .int n)
    (h : ∀ p ∈ rawDatatypes, valueOf r p.1 = .null ∨ OfDatatype p.2 (valueOf r p.1)) :
    IsCandidate r := by
  refine ⟨hdistance, fun c hc => h (c.name, .ofName c.datatypeName) ?_⟩
  rw [← map_datatype_rawOf]
  exact mem_map_of_mem hc

end

/-! ### Where null matters -/

def askedValues (r : Record) : List Value :=
  [valueOf r "HasSyntax", valueOf r "IsParsed", .bool (1 < distance r),
    valueOf r "HasLinearDecodingPressure", valueOf r "ResolvesToAnAST",
    valueOf r "IsStableOntologyReference"]

def excludedValues (r : Record) : List Value := excludedFields.map (valueOf r)

def worldValues (r : Record) : List Value := worldFields.map (valueOf r)

/-- No null bears on a column. A complaint about a prediction is also unaffected when the prediction
is not: a language of which something asked is unknown is no predicted language either way. -/
def Unaffected (r : Record) : String → Prop
  | "PredictedAnswer" => Decided (askedValues r) (excludedValues r)
  | "PredictionFail" => Decided (askedValues r) (excludedValues r) ∨
      (valueOf r "IsLanguage" = .bool true ∧ .null ∈ askedValues r)
  | "IsOpenClosedWorldConflicted" => Decided (worldValues r) []
  | _ => True

section

variable {asked excluded : List Value}

theorem agrees_all_iff (hex : ∀ v ∈ excluded, IsTruth v) :
    agrees (twoValued.all asked excluded) (threeValued.all asked excluded) = true ↔
      Decided asked excluded := by
  refine ⟨fun h => ?_, fun h => ?_⟩
  · by_contra hnot
    rw [all_of_not_decided hex hnot] at h
    exact not_agrees_bool_null _ h
  · rw [all_of_decided hex h]
    exact agrees_self _

/-- Where a null bears on a conjunction, two-valued logic takes it for true exactly when nothing
asked is null. -/
theorem twoValued_of_not_decided (has : ∀ v ∈ asked, IsTruth v)
    (hex : ∀ v ∈ excluded, IsTruth v) (h : ¬ Decided asked excluded) :
    twoValued.all asked excluded = .bool true ↔ .null ∉ asked := by
  obtain ⟨hasked, h⟩ := not_or.mp h
  have hexcluded := (not_or.mp h).1
  simp only [twoValued, bool.injEq, all_eq_true, mem_append, mem_map]
  refine ⟨fun hall hnull => ?_, fun hnull b hb => ?_⟩
  · have hfalse := hall false (.inl ⟨.null, hnull, rfl⟩)
    cases hfalse
  · rcases hb with ⟨v, hv, rfl⟩ | ⟨v, hv, rfl⟩
    · rcases has v hv with rfl | ⟨b, rfl⟩
      · exact absurd hv hnull
      · cases b with
        | false => exact absurd hv hasked
        | true => rfl
    · rcases hex v hv with rfl | ⟨b, rfl⟩
      · rfl
      · cases b with
        | false => rfl
        | true => exact absurd hv hexcluded

end

/-! ### Completed records -/

section

variable {R : Reading} {r r' : Record}

theorem IsCompletion.name (h : IsCompletion R r r') : nameOf r' = nameOf r := by
  rw [nameOf, nameOf, h.raw "Name" (by decide)]

theorem IsCompletion.distance (h : IsCompletion R r r') :
    Shipped.distance r' = Shipped.distance r := by
  rw [Shipped.distance, Shipped.distance, h.raw "DistanceFromConcept" (by decide)]

theorem IsCompletion.isDescriptionOf (h : IsCompletion R r r') :
    valueOf r' "IsDescriptionOf" = .bool (1 < Shipped.distance r) := by
  rw [h.column "IsDescriptionOf" (by decide), columnValue, h.distance]

theorem IsCompletion.asked (h : IsCompletion R r r') :
    askedFields.map (valueOf r') = askedValues r := by
  simp [askedFields, askedValues, h.isDescriptionOf, h.raw "HasSyntax" (by decide),
    h.raw "IsParsed" (by decide), h.raw "HasLinearDecodingPressure" (by decide),
    h.raw "ResolvesToAnAST" (by decide), h.raw "IsStableOntologyReference" (by decide)]

theorem IsCompletion.excluded (h : IsCompletion R r r') :
    excludedFields.map (valueOf r') = excludedValues r :=
  map_congr_left fun f hf => h.raw f (by revert f; decide)

theorem IsCompletion.predictedAnswer (h : IsCompletion R r r') :
    valueOf r' "PredictedAnswer" = R.all (askedValues r) (excludedValues r) := by
  rw [h.column "PredictedAnswer" (by decide), columnValue, h.asked, h.excluded]

theorem IsCompletion.conflicted (h : IsCompletion R r r') :
    valueOf r' "IsOpenClosedWorldConflicted" = R.all (worldValues r) [] := by
  rw [h.column "IsOpenClosedWorldConflicted" (by decide), columnValue]
  congr 1
  exact map_congr_left fun f hf => h.raw f (by revert f; decide)

end

/-! ### Complaints -/

def complaint (differ : Bool) (name : String) (predicted marked conflicted : Bool) : String :=
  String.join [pick differ (mismatch name predicted marked) "", conflict conflicted]

section

variable {name : String} {p q marked : Bool}

theorem length_mismatch : (mismatch name p marked).length =
    name.length + (pick p "Is" "Isn't").length + (pick marked "Is" "Is Not").length + 64 := by
  have hlike : " a Family Feud Language, but ".length = 29 := by decide
  have hmarked : " marked as a 'Language Candidate.'".length = 34 := by decide
  have hblank : " ".length = 1 := rfl
  have hempty : (String.join []).length = 0 := rfl
  simp only [mismatch, String.join_cons, String.length_append]
  omega

theorem mismatch_ne_empty : mismatch name p marked ≠ "" := by
  intro heq
  have hlength := @length_mismatch name p marked
  rw [heq, String.length_empty] at hlength
  omega

theorem mismatch_inj : mismatch name p marked = mismatch name q marked ↔ p = q := by
  refine ⟨fun heq => ?_, fun heq => heq ▸ rfl⟩
  have hlength := congrArg String.length heq
  rw [length_mismatch, length_mismatch] at hlength
  have hpick : (pick p "Is" "Isn't").length = (pick q "Is" "Isn't").length := by omega
  revert hpick
  cases p <;> cases q <;> decide

theorem length_complaint (differ name predicted marked conflicted) :
    (complaint differ name predicted marked conflicted).length ≠ 4 := by
  have hlength := @length_mismatch name predicted marked
  have hconflict : (conflict conflicted).length ≠ 4 := by
    cases conflicted <;> decide
  have hempty : (String.join []).length = 0 := rfl
  simp only [complaint, String.join_cons, String.length_append]
  cases differ with
  | false =>
    have hnone : (pick false (mismatch name predicted marked) "").length = 0 := rfl
    omega
  | true =>
    have hsome : pick true (mismatch name predicted marked) "" = mismatch name predicted marked :=
      rfl
    rw [hsome]
    omega

theorem agrees_complaint_iff : agrees (.str (complaint differ name p marked conflicted))
        (.str (complaint differ' name q marked' conflicted)) = true ↔
      pick differ (mismatch name p marked) "" = pick differ' (mismatch name q marked') "" := by
  rw [agrees_str_iff (length_complaint _ _ _ _ _) (length_complaint _ _ _ _ _)]
  simp [complaint]

/-- What is complained about an undecided prediction: in two-valued logic it is some `p`, in
three-valued logic it is null. -/
theorem agrees_undecided_iff (hv : IsTruth v) :
    agrees (.str (complaint (!(Value.bool p).equal v) name p v.isTrue conflicted))
        (.str (complaint (!Value.null.equal v) name false v.isTrue conflicted)) = true ↔
      v = .bool true ∧ p = false := by
  rw [agrees_complaint_iff]
  rcases hv with rfl | ⟨marked, rfl⟩
  · have hleft : (Value.bool p).equal .null = false := rfl
    have hright : Value.null.equal .null = true := rfl
    simpa [hleft, hright, pick] using mismatch_ne_empty
  · have hright : Value.null.equal (.bool marked) = false := rfl
    have hleft : (Value.bool p).equal (.bool marked) = (p == marked) := by
      cases p <;> cases marked <;> decide
    rw [hleft, hright]
    by_cases heq : p = marked
    · subst heq
      have hne := @mismatch_ne_empty name false p
      cases p <;> simp [pick, hne.symm, Value.isTrue]
    · have hbeq : (p == marked) = false := by simpa using heq
      rw [hbeq]
      simp only [pick, Bool.not_false, if_true, mismatch_inj]
      cases p <;> cases marked <;> simp_all

end

/-! ### Agreement -/

section

variable {r s g : Record}

theorem IsCandidate.excluded_isTruth (h : IsCandidate r) : ∀ v ∈ excludedValues r, IsTruth v := by
  intro v hv
  obtain ⟨f, hf, rfl⟩ := mem_map.mp hv
  have hboolean : ∀ f ∈ excludedFields, (f, .boolean) ∈ rawDatatypes := by decide
  exact h.isTruth (hboolean f hf)

theorem IsCandidate.asked_isTruth (h : IsCandidate r) : ∀ v ∈ askedValues r, IsTruth v := by
  simp only [askedValues, forall_mem_cons]
  exact ⟨h.isTruth (by decide), h.isTruth (by decide), .inr ⟨_, rfl⟩, h.isTruth (by decide),
    h.isTruth (by decide), h.isTruth (by decide), forall_mem_nil _⟩

theorem predicates_congr {holds holds'}
    (h : ∀ f ∈ askedFields ++ excludedFields, holds f = holds' f) :
    predicates holds = predicates holds' := by
  simp only [askedFields, excludedFields, cons_append, nil_append,
    forall_mem_cons] at h
  obtain ⟨h1, h2, h3, h4, h5, h6, h7, h8, -⟩ := h
  simp [predicates, h1, h2, h3, h4, h5, h6, h7, h8]

theorem IsCompletion.field_eq (hs : IsCompletion R r s)
    (hg : IsCompletion R' r g) (h : IsCandidate r) :
    ∀ f ∈ askedFields ++ excludedFields, valueOf s f = valueOf g f ∧ IsTruth (valueOf g f) := by
  intro f hf
  rcases mem_append.mp hf with hf | hf
  · refine ⟨map_inj_left.mp (hs.asked.trans hg.asked.symm) f hf, h.asked_isTruth _ ?_⟩
    rw [← hg.asked]
    exact mem_map_of_mem hf
  · refine ⟨map_inj_left.mp (hs.excluded.trans hg.excluded.symm) f hf,
      h.excluded_isTruth _ ?_⟩
    rw [← hg.excluded]
    exact mem_map_of_mem hf

theorem agrees_predictionPredicates (h : IsCandidate r) (hs : IsCompletion .twoValued r s)
    (hg : IsCompletion .threeValued r g) :
    valueOf s "PredictionPredicates" = valueOf g "PredictionPredicates" := by
  rw [hs.column _ (by decide), hg.column _ (by decide)]
  refine congrArg str (predicates_congr fun f hf => ?_)
  obtain ⟨heq, htruth⟩ := hs.field_eq hg h f hf
  rw [heq]
  exact htruth.truthy

theorem agrees_predictionFail_iff (h : IsCandidate r) (hs : IsCompletion .twoValued r s)
    (hg : IsCompletion .threeValued r g) :
    agrees (valueOf s "PredictionFail") (valueOf g "PredictionFail") = true ↔
      Unaffected r "PredictionFail" := by
  have hmarked := h.isTruth (by decide : ("IsLanguage", .boolean) ∈ rawDatatypes)
  have hconflict : (valueOf s "IsOpenClosedWorldConflicted").truthy =
      (valueOf g "IsOpenClosedWorldConflicted").isTrue := by
    rw [hs.conflicted, hg.conflicted]
    simp only [threeValued, Graph.isTrue_conj]
    rfl
  have hscript : valueOf s "PredictionFail" = .str (complaint
      (!(valueOf s "PredictedAnswer").equal (valueOf r "IsLanguage")) (nameOf r)
      (valueOf s "PredictedAnswer").truthy (valueOf r "IsLanguage").isTrue
      (valueOf g "IsOpenClosedWorldConflicted").isTrue) := by
    rw [hs.column _ (by decide), columnValue, hs.name, hs.raw "IsLanguage" (by decide)]
    simp only [twoValued, hconflict, hmarked.truthy]
    rfl
  have hgraph : valueOf g "PredictionFail" = .str (complaint
      (!(valueOf g "PredictedAnswer").equal (valueOf r "IsLanguage")) (nameOf r)
      (valueOf g "PredictedAnswer").isTrue (valueOf r "IsLanguage").isTrue
      (valueOf g "IsOpenClosedWorldConflicted").isTrue) := by
    rw [hg.column _ (by decide), columnValue, hg.name, hg.raw "IsLanguage" (by decide)]
    rfl
  rw [hscript, hgraph, hs.predictedAnswer, hg.predictedAnswer]
  by_cases hd : Decided (askedValues r) (excludedValues r)
  · rw [all_of_decided h.excluded_isTruth hd]
    exact iff_of_true (agrees_self _) (.inl hd)
  · have htwo := twoValued_of_not_decided h.asked_isTruth h.excluded_isTruth hd
    obtain ⟨p, hp⟩ : ∃ p, twoValued.all (askedValues r) (excludedValues r) = .bool p :=
      ⟨_, rfl⟩
    rw [hp, bool.injEq] at htwo
    rw [all_of_not_decided h.excluded_isTruth hd, hp]
    have hmissing : p = false ↔ .null ∈ askedValues r := by
      rw [← not_iff_not, Bool.not_eq_false, htwo]
    refine (agrees_undecided_iff hmarked).trans ?_
    rw [hmissing]
    exact (or_iff_right hd).symm

/-- **Columns.** Two completions of a candidate agree on a calculated column exactly when no null
bears on it. -/
theorem agrees_column_iff (h : IsCandidate r) (hs : IsCompletion .twoValued r s)
    (hg : IsCompletion .threeValued r g) (hname : name ∈ calculatedFields) :
    agrees (valueOf s name) (valueOf g name) = true ↔ Unaffected r name := by
  have hsame : valueOf s name = valueOf g name →
      (agrees (valueOf s name) (valueOf g name) = true ↔ True) := fun heq =>
    iff_of_true (heq ▸ agrees_self _) trivial
  simp only [calculatedFields, mem_cons, not_mem_nil, or_false] at hname
  rcases hname with rfl | rfl | rfl | rfl | rfl | rfl | rfl | rfl
  · refine hsame ?_
    rw [hs.column _ (by decide), hg.column _ (by decide), columnValue, columnValue,
      hs.raw _ (by decide), hg.raw _ (by decide)]
  · refine hsame ?_
    rw [hs.column _ (by decide), hg.column _ (by decide), columnValue, columnValue, hs.name,
      hg.name]
  · rw [hs.predictedAnswer, hg.predictedAnswer]
    exact agrees_all_iff h.excluded_isTruth
  · exact hsame (agrees_predictionPredicates h hs hg)
  · exact agrees_predictionFail_iff h hs hg
  · refine hsame ?_
    rw [hs.isDescriptionOf, hg.isDescriptionOf]
  · rw [hs.conflicted, hg.conflicted]
    exact agrees_all_iff (by simp)
  · refine hsame ?_
    rw [hs.column _ (by decide), hg.column _ (by decide), columnValue, columnValue, hs.distance,
      hg.distance]

/-- **Null handling.** Every candidate is completed by the generated program and by the derivation
graphs, and the two agree on a calculated column exactly when no null bears on it. -/
theorem completions_agree_iff (h : IsCandidate r) (hash : Value) :
    ∃ s g, candidateProgram.run (some "language_candidates") r = .ok s ∧
      ((Graph.EntitySpec.ofColumns candidateColumns).plan hash).complete r = .ok g ∧
      ∀ c ∈ computedOf candidateColumns,
        (agrees (valueOf s c.name) (valueOf g.record c.name) = true ↔ Unaffected r c.name) := by
  obtain ⟨s, hrun, hs⟩ := run_candidate h.readable
  obtain ⟨g, hcomplete, hg⟩ := complete_candidate h.readable hash
  refine ⟨_, g, hrun, hcomplete, fun c hc => ?_⟩
  rw [valueOf, agrees_foldl_clearEmpty]
  exact agrees_column_iff h hs hg (name_mem_calculatedFields hc)

end

/-! ### Two candidates -/

def unknownSyntax : Record :=
  [("language_candidate_id", .str "c2"), ("name", .str "Whistling"), ("is_language", .bool true),
    ("has_syntax", .null), ("can_be_held", .bool false), ("category", .null),
    ("has_identity", .bool false), ("is_parsed", .bool true), ("resolves_to_an_ast", .bool true),
    ("has_linear_decoding_pressure", .bool true), ("is_stable_ontology_reference", .bool true),
    ("is_live_ontology_editor", .null), ("is_open_world", .null), ("is_closed_world", .bool false),
    ("distance_from_concept", .int 2), ("dimensionality_while_editing", .null),
    ("model_object_facility_layer", .null), ("sort_order", .int 7)]

theorem isCandidate_unknownSyntax : IsCandidate unknownSyntax := by
  refine isCandidate_of_rawDatatypes ⟨2, rfl⟩ ?_
  simp only [rawDatatypes, forall_mem_cons]
  and_intros
  all_goals first | exact .inl rfl | exact .inr ⟨_, rfl⟩ | exact forall_mem_nil _

/-- The prediction for this candidate is affected by null, and yet the complaint about it is the
same. -/
theorem completions_agree_unknownSyntax : IsCandidate unknownSyntax ∧
    ∃ s g, candidateProgram.run (some "language_candidates") unknownSyntax = .ok s ∧
      ((Graph.EntitySpec.ofColumns candidateColumns).plan .null).complete unknownSyntax = .ok g ∧
      agrees (valueOf s "PredictedAnswer") (valueOf g.record "PredictedAnswer") = false ∧
      agrees (valueOf s "PredictionFail") (valueOf g.record "PredictionFail") = true ∧
      agrees (valueOf s "IsOpenClosedWorldConflicted")
        (valueOf g.record "IsOpenClosedWorldConflicted") = true := by
  obtain ⟨s, g, hrun, hcomplete, hagree⟩ := completions_agree_iff isCandidate_unknownSyntax .null
  have hcolumn : ∀ name ∈ calculatedFields,
      (agrees (valueOf s name) (valueOf g.record name) = true ↔ Unaffected unknownSyntax name) := by
    intro name hname
    rw [← map_name_computedOf] at hname
    obtain ⟨c, hc, rfl⟩ := mem_map.mp hname
    exact hagree c hc
  have hasked : askedValues unknownSyntax =
      [.null, .bool true, .bool true, .bool true, .bool true, .bool true] := rfl
  have hexcluded : excludedValues unknownSyntax = [.bool false, .bool false] := rfl
  have hworld : worldValues unknownSyntax = [.null, .bool false] := rfl
  have hpredicted : ¬ Unaffected unknownSyntax "PredictedAnswer" := by
    simp [Unaffected, Decided, hasked, hexcluded]
  have hfail : Unaffected unknownSyntax "PredictionFail" := .inr ⟨rfl, by simp [hasked]⟩
  have hconflicted : Unaffected unknownSyntax "IsOpenClosedWorldConflicted" :=
    .inl (by simp [hworld])
  refine ⟨isCandidate_unknownSyntax, s, g, hrun, hcomplete, ?_, ?_, ?_⟩
  · exact Bool.eq_false_iff.mpr (mt (hcolumn _ (by decide)).mp hpredicted)
  · exact (hcolumn _ (by decide)).mpr hfail
  · exact (hcolumn _ (by decide)).mpr hconflicted

def unknownWorld : Record :=
  [("language_candidate_id", .str "c1"), ("name", .str "C"), ("is_language", .bool false),
    ("has_syntax", .bool false), ("can_be_held", .bool false), ("category", .null),
    ("has_identity", .bool false), ("is_parsed", .bool false), ("resolves_to_an_ast", .bool false),
    ("has_linear_decoding_pressure", .bool false), ("is_stable_ontology_reference", .bool false),
    ("is_live_ontology_editor", .null), ("is_open_world", .null), ("is_closed_world", .bool true),
    ("distance_from_concept", .int 2), ("dimensionality_while_editing", .null),
    ("model_object_facility_layer", .null), ("sort_order", .null)]

theorem isCandidate_unknownWorld : IsCandidate unknownWorld := by
  refine isCandidate_of_rawDatatypes ⟨2, rfl⟩ ?_
  simp only [rawDatatypes, forall_mem_cons]
  and_intros
  all_goals first | exact .inl rfl | exact .inr ⟨_, rfl⟩ | exact forall_mem_nil _

/-- **Disagreement.** Whether the worlds of this candidate are in conflict is false for the
generated program and null for the derivation graphs. -/
theorem completions_disagree_unknownWorld : IsCandidate unknownWorld ∧
    "IsOpenClosedWorldConflicted" ∈ (computedOf candidateColumns).map Column.name ∧
    ∃ s g, candidateProgram.run (some "language_candidates") unknownWorld = .ok s ∧
      ((Graph.EntitySpec.ofColumns candidateColumns).plan .null).complete unknownWorld = .ok g ∧
      valueOf s "IsOpenClosedWorldConflicted" = .bool false ∧
      valueOf g.record "IsOpenClosedWorldConflicted" = .null ∧
      agrees (valueOf s "IsOpenClosedWorldConflicted")
        (valueOf g.record "IsOpenClosedWorldConflicted") = false := by
  have h := isCandidate_unknownWorld
  obtain ⟨s, hrun, hs⟩ := run_candidate h.readable
  obtain ⟨g, hcomplete, hg⟩ := complete_candidate h.readable .null
  have hworld : worldValues unknownWorld = [.null, .bool true] := rfl
  have hscript : valueOf (candidateSection.textFields.foldl Script.clearEmpty s)
      "IsOpenClosedWorldConflicted" = .bool false := by
    rw [valueOf, Script.get_foldl_clearEmpty (by decide)]
    exact hs.conflicted.trans (by rw [hworld]; rfl)
  have hgraph : valueOf g.record "IsOpenClosedWorldConflicted" = .null :=
    hg.conflicted.trans (by rw [hworld]; rfl)
  refine ⟨h, by rw [map_name_computedOf]; decide, _, g, hrun, hcomplete, hscript, hgraph, ?_⟩
  rw [hscript, hgraph]
  decide

/-! ### Files -/

variable {r : Record} {v : Value} {w : Workspace} {source target : String} {rs : List Record}

theorem IsTyped.readable (h : IsTyped r) (hdistance : valueOf r "DistanceFromConcept" ≠ .null) :
    Readable r :=
  ⟨(h.ofDatatype (by decide : (_, .integer) ∈ rawDatatypes)).resolve_left hdistance,
    h.ofDatatype (by decide : ("Name", .text) ∈ rawDatatypes)⟩

def Completed (r : Record) (v : Value) : Prop :=
  ∃ r', IsCompletion .twoValued r r' ∧
    v = .dict (candidateSection.textFields.foldl clearEmpty r')

theorem hasTooLong_put (h : (dict r).hasTooLong = false) (hv : v.hasTooLong = false)
    (key : String) : (dict (r.put key v)).hasTooLong = false := by
  refine hasTooLong_dict.mpr fun e he => ?_
  rcases Record.mem_put he with rfl | he
  · exact hv
  · exact hasTooLong_dict.mp h e he

theorem hasTooLong_cleared (h : (dict r).hasTooLong = false) (keys : List String) :
    (dict (keys.foldl clearEmpty r)).hasTooLong = false := by
  induction keys generalizing r with
  | nil => exact h
  | cons key keys ih =>
    refine ih ?_
    rw [clearEmpty]
    split
    · exact hasTooLong_put h rfl key
    · exact h

theorem hasTooLong_columnValue (r : Record) (name : String) :
    (columnValue .twoValued r name).hasTooLong = false := by
  unfold columnValue
  split <;> rfl

/-- **A null distance stops the generated program**: it is not compared with a number. -/
theorem run_null (h : valueOf r "DistanceFromConcept" = .null) :
    ∃ f, candidateProgram.run (some "language_candidates") r = .error f := by
  rw [run_eq_fills]
  cases hrun : Fill.run (scriptOrder.map fun name => fill (name, candidateFormula name)) r with
  | error f => exact ⟨f, rfl⟩
  | ok r' =>
    have hnull : valueOf r' "DistanceFromConcept" = .null := by
      rw [← h]
      refine Fill.run_frame hrun fun g hg => ?_
      obtain ⟨name, hname, rfl⟩ := mem_map.mp hg
      exact rawKey_ne (by decide) (scriptOrder_perm.mem_iff.mp hname)
    have hrule := Fill.run_satisfies hrun scriptOrder_ordered _
      (mem_map_of_mem (by decide : "IsDescriptionOf" ∈ scriptOrder))
    have hshows := @shows_scope r' "IsDescriptionOf" (by decide)
    rw [rule_eq_eval] at hrule
    generalize scope (candidateFormula "IsDescriptionOf") r' = s at hshows hrule
    simp only [candidateFormula, eval, hshows.value "DistanceFromConcept" (by decide), ok_bind,
      hnull] at hrule
    cases hrule

/-- The completed record of a candidate, as it is written. -/
def completed (r : Record) : Except Fault Value :=
  dict <$> candidateProgram.run (some "language_candidates") r

theorem completed_readable (h : Readable r) (hs : (dict r).hasTooLong = false) :
    ∃ v, completed r = .ok v ∧ Completed r v ∧ v.hasTooLong = false := by
  obtain ⟨r', hrun, hr', hs'⟩ := run_candidate_of h
    (P := fun r => (dict r).hasTooLong = false)
    (fun r name hr => hasTooLong_put hr (hasTooLong_columnValue r name) _) hs
  exact ⟨_, by rw [completed, hrun]; rfl, ⟨r', hr', rfl⟩, hasTooLong_cleared hs' _⟩

theorem ends_completeFile (hfound : w.foundJson source = .ok (.list (rs.map .dict))) :
    Ends w (completeFile source target "language_candidates") Q E ↔
      (∀ done, rs.mapM completed = .ok done →
        Ends w (do writeJson target (.list done); return done.length) Q E) ∧
      ∀ f, rs.mapM completed = .error f → E f w := by
  have hmap : (rs.map Value.dict).mapM (fun v => do
      Value.dict <$> candidateProgram.run (some "language_candidates") (← v.toRecord)) =
      rs.mapM completed := by
    rw [mapM_map]
    rfl
  rw [completeFile, ends_bind, ends_readJson, hfound]
  simp [ends_bind, ends_lift, Value.iterate, hmap]

/-- **Files of candidates** are completed, a record for each record, when every distance is known;
a null distance stops the program before anything is written. -/
theorem perform_completeFile (hfound : w.foundJson source = .ok (.list (rs.map .dict)))
    (hshort : (list (rs.map .dict)).hasTooLong = false) (htarget : w.admits target)
    (h : ∀ r ∈ rs, IsTyped r) :
    ((∀ r ∈ rs, valueOf r "DistanceFromConcept" ≠ .null) → ∃ done, Forall₂ Completed rs done ∧
      w.perform (completeFile source target "language_candidates") =
        (.ok rs.length, w.withJson target (.list done))) ∧
    ((∃ r ∈ rs, valueOf r "DistanceFromConcept" = .null) → ∃ f,
      w.perform (completeFile source target "language_candidates") = (.error f, w)) := by
  constructor
  · intro hdistance
    obtain ⟨done, hdone, hall⟩ := exists_mapM fun r hr =>
      completed_readable ((h r hr).readable (hdistance r hr))
        (hasTooLong_list.mp hshort _ (mem_map_of_mem hr))
    refine ⟨done, hall.imp fun _ _ h => h.1, perform_of_ends ?_⟩
    rw [ends_completeFile hfound, hdone]
    refine ⟨?_, fun f hf => by cases hf⟩
    rintro _ ⟨⟩
    rw [ends_bind]
    have hshort' : ∀ v ∈ done, v.hasTooLong = false := by
      clear * - hall
      induction hall with
      | nil => exact forall_mem_nil _
      | cons hv _ ih => exact forall_mem_cons.mpr ⟨hv.2, ih⟩
    refine ends_writeJson (hasTooLong_list.mpr hshort') (fun _ => ⟨?_, rfl⟩) (absurd htarget)
    rw [hall.length_eq]
  · rintro ⟨r, hr, hnull⟩
    obtain ⟨f, hf⟩ := run_null hnull
    obtain ⟨e, he⟩ := exists_mapM_error (f := completed) hr ⟨f, by rw [completed, hf]; rfl⟩
    refine ⟨e, perform_of_ends ?_⟩
    rw [ends_completeFile hfound, he]
    simp

/-- A file of one record that has nothing but a distance. -/
def oneCandidate : Workspace :=
  withJson { root := "/p", here := "/p", directories := [["p"]] } "in.json"
    (.list [.dict [("distance_from_concept", .int 2)]])

theorem perform_completeFile_oneCandidate :
    ∃ done, Forall₂ Completed [[("distance_from_concept", .int 2)]] done ∧
      oneCandidate.perform (completeFile "in.json" "out.json" "language_candidates") =
        (.ok 1, oneCandidate.withJson "out.json" (.list done)) := by
  have hstored : Json.Stored (.list [.dict [("distance_from_concept", .int 2)]]) := by
    simp only [Json.stored_list_iff, Json.stored_dict_iff, forall_mem_singleton]
    exact ⟨by decide, Json.unpaired_of_isAscii (by decide),
      Json.stored_int (Numeral.isTooLong_of_lt_ten (by decide))⟩
  refine (@perform_completeFile _ _ _ [[("distance_from_concept", .int 2)]]
    (foundJson_withJson hstored (by decide +kernel)) (hasTooLong_of_writable hstored.writable)
    (by decide +kernel) ?_).1 ?_ <;> rw [forall_mem_singleton]
  · refine (isCandidate_of_rawDatatypes ⟨2, rfl⟩ ?_).typed
    simp only [rawDatatypes, forall_mem_cons]
    and_intros
    all_goals first | exact .inl rfl | exact .inr ⟨_, rfl⟩ | exact forall_mem_nil _
  · intro h
    cases h

end Rulebook.Shipped
