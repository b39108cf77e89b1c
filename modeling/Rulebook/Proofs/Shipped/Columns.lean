/-
The calculated columns of the language candidates.

In the generated program what is not true counts as false, while the graphs have three truth values.
Up to that both give a column the same value.
-/

import Rulebook.Proofs.Graph.FixedPoint
import Rulebook.Proofs.Shipped.Formulas

namespace Rulebook.Shipped

open List Formula Script
open Text Script.Datum Names

def valueOf (r : Record) (field : String) : Value := r.get (snake field)

/-! ### Readings of truth -/

/-- A reading of truth: which values count as true in a condition, and the conjunction of some
values with the negations of others. -/
structure Reading where
  holds : Value → Bool
  all : (asked excluded : List Value) → Value

/-- In two-valued logic an operand of a conjunction counts when it is the boolean true. -/
def Reading.twoValued : Reading where
  holds := Value.truthy
  all asked excluded :=
    .bool ((asked.map Value.isTrue ++ excluded.map fun v => !v.isTrue).all id)

def Reading.threeValued : Reading where
  holds := Value.isTrue
  all asked excluded := Graph.conj (asked ++ excluded.map Graph.negate)

def IsTruth (v : Value) : Prop := v = .null ∨ ∃ b, v = .bool b

def IsText (v : Value) : Prop := v = .null ∨ ∃ t, v = .str t

/-- No null bears on a conjunction: another operand decides it, or none is null. -/
def Decided (asked excluded : List Value) : Prop :=
  .bool false ∈ asked ∨ .bool true ∈ excluded ∨ .null ∉ asked ++ excluded

theorem IsTruth.truthy (h : IsTruth v) : v.truthy = v.isTrue := by
  rcases h with rfl | ⟨b, rfl⟩ <;> rfl

theorem IsTruth.negate_eq_null (h : IsTruth v) : Graph.negate v = .null ↔ v = .null := by
  rcases h with rfl | ⟨b, rfl⟩ <;> simp [Graph.negate, Value.isNull]

theorem IsTruth.negate_eq_false (h : IsTruth v) :
    Graph.negate v = .bool false ↔ v = .bool true := by
  rcases h with rfl | ⟨b, rfl⟩ <;> simp [Graph.negate, Value.isNull, Value.truthy]

section

variable {asked excluded : List Value}

theorem mem_operands (hw : ∀ u ∈ excluded, Graph.negate u = w ↔ u = v) :
    w ∈ asked ++ excluded.map Graph.negate ↔ w ∈ asked ∨ v ∈ excluded := by
  simp only [mem_append, mem_map]
  refine or_congr_right ⟨?_, fun hv => ⟨v, hv, (hw v hv).mpr rfl⟩⟩
  rintro ⟨u, hu, hneg⟩
  exact (hw u hu).mp hneg ▸ hu

theorem mem_operands_false (hex : ∀ v ∈ excluded, IsTruth v) :
    .bool false ∈ asked ++ excluded.map Graph.negate ↔
      .bool false ∈ asked ∨ .bool true ∈ excluded :=
  mem_operands fun u hu => (hex u hu).negate_eq_false

theorem mem_operands_null (hex : ∀ v ∈ excluded, IsTruth v) :
    .null ∈ asked ++ excluded.map Graph.negate ↔ .null ∈ asked ∨ .null ∈ excluded :=
  mem_operands fun u hu => (hex u hu).negate_eq_null

theorem Reading.all_of_decided (hex : ∀ v ∈ excluded, IsTruth v) (h : Decided asked excluded) :
    threeValued.all asked excluded = twoValued.all asked excluded := by
  simp only [threeValued, twoValued]
  by_cases hfalse : .bool false ∈ asked ++ excluded.map Graph.negate
  · rw [Graph.conj_of_mem hfalse]
    refine congrArg Value.bool (all_eq_false.mpr ⟨false, ?_, by simp⟩).symm
    refine mem_append.mpr ?_
    rcases (mem_operands_false hex).mp hfalse with hmem | hmem
    · exact .inl (mem_map.mpr ⟨_, hmem, rfl⟩)
    · exact .inr (mem_map.mpr ⟨_, hmem, rfl⟩)
  · obtain ⟨hasked, hexcluded⟩ := not_or.mp (mt (mem_operands_false hex).mpr hfalse)
    have hnone : .null ∉ asked ++ excluded := by
      rcases h with h | h | h
      · exact absurd h hasked
      · exact absurd h hexcluded
      · exact h
    have hnull : .null ∉ asked ++ excluded.map Graph.negate := fun hmem =>
      hnone (mem_append.mpr ((mem_operands_null hex).mp hmem))
    have hneg : (excluded.map Graph.negate).map Value.isTrue = excluded.map fun v => !v.isTrue := by
      rw [map_map]
      refine map_congr_left fun v hv => ?_
      rcases hex v hv with rfl | ⟨b, rfl⟩
      · exact absurd (mem_append_right _ hv) hnone
      · rfl
    rw [Graph.conj_of_notMem hfalse hnull, ← hneg, ← map_append, all_map]
    rfl

theorem Reading.all_of_not_decided (hex : ∀ v ∈ excluded, IsTruth v)
    (h : ¬ Decided asked excluded) : threeValued.all asked excluded = .null := by
  obtain ⟨hasked, h⟩ := not_or.mp h
  obtain ⟨hexcluded, hnull⟩ := not_or.mp h
  have hnull := mem_append.mp (not_not.mp hnull)
  refine Graph.conj_of_mem_null ?_ ((mem_operands_null hex).mpr hnull)
  rw [mem_operands_false hex]
  exact not_or.mpr ⟨hasked, hexcluded⟩

end

/-! ### The values of the columns -/

def distance (r : Record) : Int :=
  match valueOf r "DistanceFromConcept" with
  | .int n => n
  | _ => 0

def nameOf (r : Record) : String :=
  match valueOf r "Name" with
  | .str t => t
  | _ => ""

def pick (b : Bool) (yes no : String) : String := if b then yes else no

def predicates (holds : String → Bool) : String :=
  String.join [pick (holds "HasSyntax") "Has Syntax" "No Syntax", " & ",
    pick (holds "IsParsed") "Requires Parsing" "No Parsing Neede", " & ",
    pick (holds "IsDescriptionOf") "Describes the thing" "Is the Thing", " & ",
    pick (holds "HasLinearDecodingPressure") "Has Linear Decoding Pressure" "No Decoding Pressure",
    " & ", pick (holds "ResolvesToAnAST") "Resolves to AST" "No AST", ", ",
    pick (holds "IsStableOntologyReference") "Is Stable Ontology" "Not 'Ontology'", " AND ",
    pick (holds "CanBeHeld") "Can Be Held" "Can't Be Held", ", ",
    pick (holds "HasIdentity") "Has Identity" "Has no Identity"]

def mismatch (name : String) (predicted marked : Bool) : String :=
  String.join [name, " ", pick predicted "Is" "Isn't", " a Family Feud Language, but ",
    pick marked "Is" "Is Not", " marked as a 'Language Candidate.'"]

def conflict (conflicted : Bool) : String :=
  pick conflicted " - Open World vs. Closed World Conflict." ""

def columnValue (R : Reading) (r : Record) : String → Value
  | "HasGrammar" => .bool ((valueOf r "HasSyntax").equal (.bool true))
  | "Question" => .str (String.join ["Is ", nameOf r, " a language?"])
  | "IsDescriptionOf" => .bool (1 < distance r)
  | "IsOpenClosedWorldConflicted" => R.all (worldFields.map (valueOf r)) []
  | "RelationshipToConcept" => .str (pick (distance r = 1) "IsMirrorOf" "IsDescriptionOf")
  | "PredictedAnswer" => R.all (askedFields.map (valueOf r)) (excludedFields.map (valueOf r))
  | "PredictionPredicates" => .str (predicates fun field => R.holds (valueOf r field))
  | "PredictionFail" =>
    .str (String.join
      [pick (!(valueOf r "PredictedAnswer").equal (valueOf r "IsLanguage"))
        (mismatch (nameOf r) (R.holds (valueOf r "PredictedAnswer"))
          (R.holds (valueOf r "IsLanguage"))) "",
        conflict (R.holds (valueOf r "IsOpenClosedWorldConflicted"))])
  | _ => .null

/-- Whether all columns have a value: candidates have a distance, and a name is a text. -/
structure Readable (r : Record) : Prop where
  distance : ∃ n, valueOf r "DistanceFromConcept" = .int n
  name : IsText (valueOf r "Name")

section

variable {r : Record}

theorem Readable.value_distance (h : Readable r) :
    valueOf r "DistanceFromConcept" = .int (Shipped.distance r) := by
  obtain ⟨n, hn⟩ := h.distance
  rw [Shipped.distance, hn]

theorem int_equal_one (n) : (Value.int n).equal (.int 1) = decide (n = 1) := by
  have hcompare : (compare n 1 == .eq) = decide (n = 1) := by
    rw [Bool.eq_iff_iff, beq_iff_eq, decide_eq_true_iff, Int.compare_eq_eq]
  simpa [Value.equal, Value.equalAtom, Value.number?, Number.compare?] using hcompare

theorem int_order_one (n) : Value.order .gt (.int n) (.int 1) = .ok (decide (1 < n)) := by
  have hcompare : (compare n 1 == .gt) = decide (1 < n) := by
    rw [Bool.eq_iff_iff, beq_iff_eq, decide_eq_true_iff, Int.compare_eq_gt]
  simpa [Value.order, Value.orderAtom, Value.number?, Number.compare?, OrderOp.admits]
    using hcompare

/-! ### The generated program -/

section

variable {s : Scope} {field yes no : String} {v : Value}

theorem gives_if {cond yes no t u} (hs : s.hidesText = false)
    (hcond : eval s cond = .ok (.value v)) (hyes : eval s yes = .ok (.value (.str t)))
    (hno : eval s no = .ok (.value (.str u))) :
    Gives s (.call "IF" [cond, yes, no]) (pick v.truthy t u) := by
  refine ⟨.value (.str (pick v.truthy t u)), ?_, ?_⟩
  · rw [eval_if hcond, hyes, hno, truthy]
    cases v.truthy <;> rfl
  · simp [Scope.partText, Scope.text, hs, Expr.isField, textOrEmpty,
      Value.text]

theorem gives_choose (hs : s.hidesText = false) (hv : s.value field = v) :
    Gives s (choose field yes no) (pick v.truthy yes no) :=
  gives_if hs (by rw [eval, hv]) rfl rfl

theorem gives_name (hs : s.hidesText = false) (h : Readable r)
    (hv : s.value "Name" = valueOf r "Name") : Gives s (.field "Name") (nameOf r) := by
  refine ⟨.value (valueOf r "Name"), by rw [eval, hv], ?_⟩
  simp only [Scope.partText, Scope.text, hs, nameOf]
  rcases h.name with hname | ⟨t, hname⟩
  · rw [hname]
    rfl
  · grind [truthy, Value.truthy, textOrEmpty, Value.text]

structure Shows (s : Scope) (e : Expr) (r : Record) : Prop where
  hidesText : s.hidesText = false
  value : ∀ f ∈ e.fields, s.value f = valueOf r f

theorem shows_scope (hname : name ∈ calculatedFields) :
    Shows (scope (candidateFormula name) r) (candidateFormula name) r := by
  have hstr : ∀ name ∈ calculatedFields,
      "str" ∉ (candidateFormula name).fields.map snake := by
    decide
  exact ⟨decide_eq_false (hstr name hname), fun f hf => scope_value hf⟩

theorem eval_hasGrammar (h : Shows s (candidateFormula "HasGrammar") r) :
    eval s (candidateFormula "HasGrammar") =
      .ok (.value (columnValue .twoValued r "HasGrammar")) := by
  simp only [candidateFormula, eval, h.value "HasSyntax" (by decide)]
  rfl

theorem eval_question (hr : Readable r) (h : Shows s (candidateFormula "Question") r) :
    eval s (candidateFormula "Question") =
      .ok (.value (columnValue .twoValued r "Question")) := by
  have hname := gives_name h.hidesText hr (h.value "Name" (by decide))
  exact eval_concat
    (.cons (gives_str _) (.cons hname (.cons (gives_str _) .nil)))

theorem eval_isDescriptionOf (hr : Readable r)
    (h : Shows s (candidateFormula "IsDescriptionOf") r) :
    eval s (candidateFormula "IsDescriptionOf") =
      .ok (.value (columnValue .twoValued r "IsDescriptionOf")) := by
  simp only [candidateFormula, eval, h.value "DistanceFromConcept" (by decide), ok_bind,
    hr.value_distance, Script.compare, order, int_order_one]
  rfl

theorem eval_relationshipToConcept (hr : Readable r)
    (h : Shows s (candidateFormula "RelationshipToConcept") r) :
    eval s (candidateFormula "RelationshipToConcept") =
      .ok (.value (columnValue .twoValued r "RelationshipToConcept")) := by
  have hcond : eval s (.binary .eq (.field "DistanceFromConcept") (.int 1)) =
      .ok (.value (.bool (Shipped.distance r = 1))) := by
    simp [eval, h.value "DistanceFromConcept" (by decide), hr.value_distance,
      Script.compare, equal, int_equal_one]
  simp only [candidateFormula, eval_if hcond, columnValue, pick]
  by_cases hd : Shipped.distance r = 1 <;> simp [hd, truthy, Value.truthy, eval]

theorem eval_allFields (hne : asked ≠ []) (h : ∀ f ∈ asked ++ excluded, s.value f = valueOf r f) :
    eval s (allFields asked excluded) = .ok (.value
      (Reading.twoValued.all (asked.map (valueOf r)) (excluded.map (valueOf r)))) := by
  have hasked : Forall₂ (Holds s) (asked.map .field)
      ((asked.map (valueOf r)).map Value.isTrue) := by
    rw [map_map, forall₂_map_left_iff, forall₂_map_right_iff, forall₂_same]
    intro f hf
    have hholds := @Script.holds_field s f
    rwa [h f (mem_append_left _ hf)] at hholds
  have hexcluded : Forall₂ (Holds s)
      (excluded.map fun f => .unary "NOT" (.field f))
      ((excluded.map (valueOf r)).map fun v => !v.isTrue) := by
    rw [map_map, forall₂_map_left_iff, forall₂_map_right_iff, forall₂_same]
    intro f hf
    have hholds := @Script.holds_not_field s f
    rwa [h f (mem_append_right _ hf)] at hholds
  exact eval_and (by simp [hne]) (rel_append hasked hexcluded)

theorem eval_predictionPredicates (h : Shows s (candidateFormula "PredictionPredicates") r) :
    eval s (candidateFormula "PredictionPredicates") =
      .ok (.value (columnValue .twoValued r "PredictionPredicates")) := by
  have hpart : ∀ {f yes no : String}, f ∈ (candidateFormula "PredictionPredicates").fields →
      Gives s (choose f yes no) (pick (valueOf r f).truthy yes no) := fun hf =>
    gives_choose h.hidesText (h.value _ hf)
  refine eval_concat (.cons (hpart (by decide)) (.cons (gives_str _) ?_))
  iterate 6 refine .cons (hpart (by decide)) (.cons (gives_str _) ?_)
  exact .cons (hpart (by decide)) .nil

theorem eval_predictionFail (hr : Readable r) (h : Shows s (candidateFormula "PredictionFail") r) :
    eval s (candidateFormula "PredictionFail") =
      .ok (.value (columnValue .twoValued r "PredictionFail")) := by
  have hpart : ∀ {f yes no : String}, f ∈ (candidateFormula "PredictionFail").fields →
      Gives s (choose f yes no) (pick (valueOf r f).truthy yes no) := fun hf =>
    gives_choose h.hidesText (h.value _ hf)
  have hname := gives_name h.hidesText hr (h.value "Name" (by decide))
  have hcomplaint : eval s mismatchFormula = .ok (.value (.str
      (mismatch (nameOf r) (valueOf r "PredictedAnswer").truthy
        (valueOf r "IsLanguage").truthy))) := by
    refine eval_concat (.cons hname (.cons (gives_str _) ?_))
    refine .cons (hpart (by decide)) (.cons (gives_str _) ?_)
    exact .cons (hpart (by decide)) (.cons (gives_str _) .nil)
  have hcond : eval s
      (.unary "NOT" (.binary .eq (.field "PredictedAnswer") (.field "IsLanguage"))) =
        .ok (.value (.bool !(valueOf r "PredictedAnswer").equal (valueOf r "IsLanguage"))) := by
    simp only [eval, h.value "PredictedAnswer" (by decide), h.value "IsLanguage" (by decide)]
    rfl
  have hempty : eval s (.str "") = .ok (.value (.str "")) := rfl
  have hfail := gives_if h.hidesText hcond hcomplaint hempty
  exact eval_concat (.cons hfail (.cons (hpart (by decide)) .nil))

/-- **The generated program** gives the columns their values in two-valued logic. -/
theorem script_rule (h : Readable r) (hname : name ∈ calculatedFields) :
    (fill (name, candidateFormula name)).rule r = .ok (columnValue .twoValued r name) := by
  have hs := @shows_scope r name hname
  rw [rule_eq_eval, map_eq_ok_iff]
  refine ⟨.value (columnValue .twoValued r name), ?_, rfl⟩
  generalize scope (candidateFormula name) r = s at hs
  simp only [calculatedFields, mem_cons, not_mem_nil, or_false] at hname
  rcases hname with rfl | rfl | rfl | rfl | rfl | rfl | rfl | rfl
  · exact eval_hasGrammar hs
  · exact eval_question h hs
  · exact @eval_allFields r s askedFields excludedFields (by decide) fun f hf =>
      hs.value f (by revert f; decide)
  · exact eval_predictionPredicates hs
  · exact eval_predictionFail h hs
  · exact eval_isDescriptionOf h hs
  · exact @eval_allFields r s worldFields [] (by decide) fun f hf =>
      hs.value f (by revert f; decide)
  · exact eval_relationshipToConcept h hs

end

/-! ### The derivation graphs -/

section

theorem meaning_ifText {cond yes no v t u}
    (hcond : Graph.meaning r cond = .ok v) (hyes : Graph.meaning r yes = .ok (.str t))
    (hno : Graph.meaning r no = .ok (.str u)) :
    Graph.meaning r (.call "IF" [cond, yes, no]) = .ok (.str (pick v.isTrue t u)) := by
  rw [Graph.meaning_if hcond hyes hno]
  cases v.isTrue <;> rfl

theorem graphGives_choose (field yes no) :
    Graph.Gives r (choose field yes no) (pick (valueOf r field).isTrue yes no) :=
  ⟨.str _, meaning_ifText (Graph.meaning_field field) rfl rfl, rfl⟩

theorem graphGives_name (h : Readable r) : Graph.Gives r (.field "Name") (nameOf r) := by
  refine ⟨valueOf r "Name", Graph.meaning_field "Name", ?_⟩
  rw [nameOf]
  rcases h.name with hname | ⟨t, hname⟩
  · rw [hname]
    rfl
  · rw [hname]
    rfl

theorem meaning_distance (h : Readable r) :
    Graph.meaning r (.field "DistanceFromConcept") = .ok (.int (Shipped.distance r)) := by
  exact congrArg _ h.value_distance

theorem meaning_allFields (asked excluded) : Graph.meaning r (allFields asked excluded) = .ok
      (Reading.threeValued.all (asked.map (valueOf r)) (excluded.map (valueOf r))) := by
  have hasked : Graph.Mean r (asked.map .field) (asked.map (valueOf r)) := by
    rw [Graph.Mean, forall₂_map_left_iff, forall₂_map_right_iff, forall₂_same]
    exact fun f _ => Graph.meaning_field f
  have hexcluded : Graph.Mean r (excluded.map fun f => .unary "NOT" (.field f))
      ((excluded.map (valueOf r)).map Graph.negate) := by
    rw [Graph.Mean, map_map, forall₂_map_left_iff, forall₂_map_right_iff,
      forall₂_same]
    exact fun f _ => Graph.meaning_not (Graph.meaning_field f)
  exact Graph.meaning_and (rel_append hasked hexcluded)

theorem meaning_predictionPredicates : Graph.meaning r (candidateFormula "PredictionPredicates") =
      .ok (columnValue .threeValued r "PredictionPredicates") := by
  refine Graph.meaning_concat (.cons (graphGives_choose _ _ _) (.cons (Graph.gives_str _) ?_))
  iterate 6 refine .cons (graphGives_choose _ _ _) (.cons (Graph.gives_str _) ?_)
  exact .cons (graphGives_choose _ _ _) .nil

theorem meaning_predictionFail (h : Readable r) :
    Graph.meaning r (candidateFormula "PredictionFail") =
      .ok (columnValue .threeValued r "PredictionFail") := by
  have hcomplaint : Graph.meaning r mismatchFormula = .ok (.str
      (mismatch (nameOf r) (valueOf r "PredictedAnswer").isTrue
        (valueOf r "IsLanguage").isTrue)) := by
    refine Graph.meaning_concat (.cons (graphGives_name h) (.cons (Graph.gives_str _) ?_))
    refine .cons (graphGives_choose _ _ _) (.cons (Graph.gives_str _) ?_)
    exact .cons (graphGives_choose _ _ _) (.cons (Graph.gives_str _) .nil)
  have hequal : Graph.meaning r (.binary .eq (.field "PredictedAnswer") (.field "IsLanguage")) =
      .ok (.bool ((valueOf r "PredictedAnswer").equal (valueOf r "IsLanguage"))) :=
    Graph.meaning_eq_of (Graph.meaning_field _) (Graph.meaning_field _)
  have hempty : Graph.meaning r (.str "") = .ok (.str "") := rfl
  have hfail := meaning_ifText (Graph.meaning_not hequal) hcomplaint hempty
  exact Graph.meaning_concat (.cons ⟨_, hfail, rfl⟩ (.cons (graphGives_choose _ _ _) .nil))

/-- **The derivation graphs** give the columns their values in three-valued logic. -/
theorem graph_rule (h : Readable r) {name} (hname : name ∈ calculatedFields) :
    (Graph.fill (name, candidateFormula name)).rule r = .ok (columnValue .threeValued r name) := by
  simp only [calculatedFields, mem_cons, not_mem_nil, or_false] at hname
  rcases hname with rfl | rfl | rfl | rfl | rfl | rfl | rfl | rfl
  · rfl
  · exact Graph.meaning_concat (.cons (Graph.gives_str _)
      (.cons (graphGives_name h) (.cons (Graph.gives_str _) .nil)))
  · exact meaning_allFields askedFields excludedFields
  · exact meaning_predictionPredicates
  · exact meaning_predictionFail h
  · have horder : Graph.applyOrder .gt (.int (Shipped.distance r)) (.int 1) =
        .ok (.bool (1 < Shipped.distance r), "boolean") := by
      simp [Graph.applyOrder, Value.isNull, int_order_one, Except.map]
    exact Graph.meaning_binary (meaning_distance h) rfl horder
  · exact meaning_allFields worldFields []
  · have hone : Graph.meaning r (.int 1) = .ok (.int 1) := rfl
    have hequal := Graph.meaning_eq_of (meaning_distance h) hone
    rw [int_equal_one] at hequal
    exact meaning_ifText hequal rfl rfl

end

end

open Graph.EntitySpec

/-! ### Keys -/

theorem rawKey_ne (hfield : field ∈ rawFields) (hname : name ∈ calculatedFields) :
    snake field ≠ snake name := by
  have hkeys : ∀ name ∈ calculatedFields,
      snake name ∉ rawFields.map snake := by
    decide
  intro heq
  exact hkeys name hname (heq ▸ mem_map_of_mem hfield)

section

variable {r r' : Record}

theorem Readable.of_raw (h : Readable r) (hraw : ∀ f ∈ rawFields, valueOf r' f = valueOf r f) :
    Readable r' := by
  refine ⟨?_, ?_⟩
  · rw [hraw _ (by decide)]
    exact h.distance
  · rw [hraw _ (by decide)]
    exact h.name

/-- A record completed from another: the raw fields are kept, and each calculated column has the
value that follows from the other fields. -/
structure IsCompletion (R : Reading) (r r' : Record) : Prop where
  raw : ∀ f ∈ rawFields, valueOf r' f = valueOf r f
  column : ∀ name ∈ calculatedFields,
    valueOf r' name = columnValue R r' name

def layoutOf (order : List String) : List (String × List String) :=
  order.map fun name => (snake name, (candidateFormula name).fields.map snake)

/-- **Completion.** In an order in which no column is read before it is computed, all columns get
the values that their rules give on the final record. -/
theorem exists_completion {R} {fill : String × Expr → Fill}
    (hkey : ∀ c, (fill c).key = snake c.1)
    (hreads : ∀ c, (fill c).reads = c.2.fields.map snake)
    (hrule : ∀ r, Readable r → ∀ name ∈ calculatedFields,
      (fill (name, candidateFormula name)).rule r = .ok (columnValue R r name))
    {order} (hperm : order.Perm calculatedFields)
    (hordered : Fill.Ordered (layoutOf order)) (h : Readable r) {P : Record → Prop}
    (hP : ∀ r name, P r → P (r.put (snake name) (columnValue R r name))) (hr : P r) :
    ∃ r', Fill.run (order.map fun name => fill (name, candidateFormula name)) r = .ok r' ∧
      IsCompletion R r r' ∧ P r' := by
  have hfill : ∀ f ∈ order.map fun name => fill (name, candidateFormula name),
      ∃ name ∈ calculatedFields,
        f = fill (name, candidateFormula name) := by
    intro f hf
    obtain ⟨name, hname, rfl⟩ := mem_map.mp hf
    exact ⟨name, hperm.mem_iff.mp hname, rfl⟩
  have hput : ∀ name ∈ calculatedFields, ∀ r v, Readable r →
      Readable (r.put (snake name) v) := fun name hname r v hr =>
    hr.of_raw fun f hf => Record.get_put_of_ne (rawKey_ne hf hname)
  have htotal : ∀ f ∈ order.map fun name => fill (name, candidateFormula name), ∀ r,
      Readable r ∧ P r → ∃ v, f.rule r = .ok v ∧ Readable (r.put f.key v) ∧ P (r.put f.key v) := by
    intro f hf r hr
    obtain ⟨name, hname, rfl⟩ := hfill f hf
    refine ⟨_, hrule r hr.1 name hname, ?_⟩
    rw [hkey]
    exact ⟨hput name hname r _ hr.1, hP r name hr.2⟩
  obtain ⟨r', hrun, -, hP'⟩ := Fill.run_total htotal ⟨h, hr⟩
  have hraw : ∀ f ∈ rawFields, valueOf r' f = valueOf r f := by
    intro f hf
    refine Fill.run_frame hrun fun g hg => ?_
    obtain ⟨name, hname, rfl⟩ := hfill g hg
    rw [hkey]
    exact rawKey_ne hf hname
  refine ⟨r', hrun, ⟨hraw, fun name hname => ?_⟩, hP'⟩
  have hlayout : Fill.layout (order.map fun name => fill (name, candidateFormula name)) =
      layoutOf order := by
    rw [Fill.layout, map_map]
    exact map_congr_left fun name _ => by simp [hkey, hreads]
  have hsatisfied := Fill.run_satisfies hrun (hlayout ▸ hordered) _
    (mem_map_of_mem (hperm.mem_iff.mpr hname))
  rw [hrule r' (h.of_raw hraw) name hname, hkey] at hsatisfied
  exact (Except.ok.inj hsatisfied).symm

/-! ### The generated program -/

theorem scriptOrder_perm : scriptOrder.Perm calculatedFields := by decide

theorem scriptOrder_ordered : Fill.Ordered (layoutOf scriptOrder) := by decide

theorem mem_computed_of_mem_levels (hc : c ∈ candidateSection.levels.flatten) :
    c ∈ computedOf candidateColumns :=
  Schedule.mem_of_mem_columnsOf hc

theorem run_eq_compute (r) : candidateProgram.run (some "language_candidates") r =
    candidateProgram.compute candidateSection.computation r := by
  rfl

theorem run_eq_fills (r) : candidateProgram.run (some "language_candidates") r =
    (Fill.run (scriptOrder.map fun name => Script.fill (name, candidateFormula name)) r).map
      (candidateSection.textFields.foldl Script.clearEmpty) := by
  have hkeys : (candidateSection.levels.flatten.map Column.key).Nodup := by
    have hmap : candidateSection.levels.flatten.map Column.key =
        (candidateSection.levels.flatten.map Column.name).map snake := by
      rw [map_map]
      rfl
    rw [hmap, candidateSection_names]
    decide
  have hfills : (candidateSection.levels.flatten.map
        fun c => Script.fill (c.name, candidateFormula c.name)) =
      (candidateSection.levels.flatten.map Column.name).map
        fun name => Script.fill (name, candidateFormula name) := by
    rw [map_map]
    rfl
  rw [run_eq_compute, candidateProgram, Script.Section.compute_eq_run
    (fun c hc => hasFormula_candidate (mem_computed_of_mem_levels hc)) hkeys r, hfills,
    candidateSection_names]

/-- **The generated program** returns for every candidate. -/
theorem run_candidate_of (h : Readable r) {P : Record → Prop}
    (hP : ∀ r name, P r → P (r.put (snake name) (columnValue .twoValued r name))) (hr : P r) :
    ∃ r', candidateProgram.run (some "language_candidates") r =
        .ok (candidateSection.textFields.foldl Script.clearEmpty r') ∧
      IsCompletion .twoValued r r' ∧ P r' := by
  obtain ⟨r', hrun, hr'⟩ := exists_completion (fun _ => rfl) (fun _ => rfl)
    (fun r hr name hname => script_rule hr hname) scriptOrder_perm scriptOrder_ordered h hP hr
  refine ⟨r', ?_, hr'⟩
  rw [run_eq_fills, hrun]
  rfl

theorem run_candidate (h : Readable r) : ∃ r', candidateProgram.run (some "language_candidates") r =
        .ok (candidateSection.textFields.foldl Script.clearEmpty r') ∧
      IsCompletion .twoValued r r' := by
  obtain ⟨r', hrun, hr', -⟩ := run_candidate_of (P := fun _ => True) h (fun _ _ => id) trivial
  exact ⟨r', hrun, hr'⟩

/-! ### The derivation graphs -/

theorem graphOrder_perm : graphOrder.Perm calculatedFields := by decide

theorem graphOrder_ordered : Fill.Ordered (layoutOf graphOrder) := by decide

/-- **The derivation graphs** return for every candidate. -/
theorem complete_candidate (h : Readable r) (hash) :
    ∃ s, ((ofColumns candidateColumns).plan hash).complete r = .ok s ∧
      IsCompletion .threeValued r s.record := by
  obtain ⟨r', hrun, hr', -⟩ := exists_completion (fun _ => rfl) (fun _ => rfl)
    (fun r hr name hname => graph_rule hr hname) graphOrder_perm graphOrder_ordered h
    (P := fun _ => True) (fun _ _ => id) trivial
  have horder : ((ofColumns candidateColumns).plan hash).order =
      (graphOrder.map fun name => (name, candidateFormula name)).map Prod.fst := by
    exact candidateSpec_order.trans (map_id _).symm
  obtain ⟨s, hs, rfl⟩ := complete_of_run (by decide) horder (fun p hp => by
    obtain ⟨name, hname, rfl⟩ := mem_map.mp hp
    rw [graphOrder_perm.mem_iff, ← map_name_computedOf] at hname
    obtain ⟨c, hc, rfl⟩ := mem_map.mp hname
    exact ⟨c, hc, congrArg _ (expression_candidate hc)⟩) hrun
  exact ⟨s, hs, hr'⟩

end

end Rulebook.Shipped
