/-
Grades: how the answers of a substrate compare with the answer keys.

For every record of an answer key, each computed column is compared with that of the answer with
the same primary key. Entities that a substrate did not attempt are left out.
-/

import Rulebook.Schema.Table

namespace Rulebook.Grading

open Numeral

/-!
### Scores and durations

A score is kept as two counts; the percentage is its rounded form for display.
-/

structure Score where
  passed : Int
  total : Int
deriving DecidableEq

namespace Score

def percent (s : Score) : Float :=
  if 0 < s.total then
    match ofRatio s.passed.natAbs s.total.natAbs with
    | some x => (if s.passed < 0 then -x else x) * 100.0
    | none => 1.0 / 0.0
  else 0.0

def isPerfect (s : Score) : Bool := 0 < s.total && s.total ≤ s.passed

def percentText (s : Score) : String := fixedText 1 s.percent

end Score

def colorScale : List (Int × Nat) :=
  [(100, 46), (90, 82), (80, 118), (70, 154), (60, 190), (50, 226), (40, 220), (30, 214),
   (20, 208), (10, 202)]

def reaches (x : Number) (threshold : Int) : Bool :=
  match x.compare? (.int threshold) with
  | some o => o != .lt
  | none => false

def colorOf (x : Number) : String :=
  let code := match colorScale.find? fun step => reaches x step.1 with
    | some step => step.2
    | none => 196
  "\x1b[38;5;" ++ toString code ++ "m"

def Score.color (s : Score) : String := colorOf (.float s.percent)

def classOf (x : Number) : String :=
  if reaches x 100 then "perfect"
  else if reaches x 80 then "good"
  else if reaches x 60 then "warning"
  else "danger"

def wholeSeconds (n : Int) : String :=
  if n < 1 then "< 1s"
  else if n < 60 then toString n ++ "s"
  else toString (n / 60) ++ "m " ++ toString (n % 60) ++ "s"

/-- The minutes and the rest of a duration in floating point, both rounded: the rest is exact
before it is rounded, and the minutes are the rounded quotient of what remains. -/
def splitMinutes (x : Float) (m : Nat) (q : Int) : Int × Nat :=
  let (num, den) := powerOfTwo q
  let rest := (m * num) % (60 * den)
  if den = 1 then
    let less := x - (ofInt rest).getD 0.0
    ((truncate? (less / 60.0)).getD 0, rest)
  else (m * num / (60 * den), roundDiv rest den)

def duration (seconds : Value) : Except Fault String :=
  match seconds.number? with
  | none => .error (Value.noOrder .lt seconds (.int 1))
  | some (.int n) => .ok (wholeSeconds n)
  | some (.float x) =>
    match parts x with
    | .nan => .error (.ofValue "cannot convert float NaN to integer")
    | .infinite true => .ok "< 1s"
    | .infinite false => .error (.ofValue "cannot convert float NaN to integer")
    | .finite negative m q =>
      let (num, den) := powerOfTwo q
      if negative || m * num < den then .ok "< 1s"
      else if m * num < 60 * den then .ok (toString (roundDiv (m * num) den) ++ "s")
      else
        let (minutes, rest) := splitMinutes x m q
        .ok (toString minutes ++ s!"m {rest}s")

def oneDecimal (v : Value) : Except Fault String := do
  match v, v.number? with
  | _, some n => return fixedText 1 (← Value.toFloat n)
  | .str _, none => throw (.ofValue "Unknown format code 'f' for object of type 'str'")
  | v, none => throw (.ofType
      (s!"unsupported format string passed to {v.typeName}.__format__"))

open Schema

/-!
### Comparison of answers

An answer is right when it has the text of the expected value, where the null value, the empty text
and the usual spellings of null count as one.
-/

def nullSpellings : List String := ["None", "null", "NULL"]

def comparable : Value → String
  | .null => ""
  | v => if v.text ∈ nullSpellings then "" else v.text

def agrees (expected actual : Value) : Bool := comparable expected == comparable actual

structure Failure where
  key : String
  column : String
  expected : Value
  actual : Value

structure EntityGrade where
  records : Nat
  columns : List String
  key : String
  tested : Int
  passed : Int
  failed : Int
  failures : List Failure

structure Grades where
  substrate : String
  entities : List (String × EntityGrade) := []
  tested : Int := 0
  passed : Int := 0
  failed : Int := 0
  error : Option String := none
  elapsed : Value := .float 0.0
  skipped : Option Bool := none

namespace EntityGrade

def score (g : EntityGrade) : Score := ⟨g.passed, g.tested⟩

def isUnattempted (g : EntityGrade) : Bool :=
  g.passed == 0 && 0 < g.failed
    && g.failures.all fun f => f.actual.isNull || f.actual.equal (.str "None")

end EntityGrade

namespace Grades

def score (g : Grades) : Score := ⟨g.passed, g.tested⟩

def error? (g : Grades) : Option String := g.error.filter (· ≠ "")

end Grades

def answerFor (answers : List Record) (key wanted : String) : Option Record :=
  answers.reverse.find? fun r => !(r.get key).isNull && (r.get key).text == wanted

/-- The comparison of every computed column of every record: the place of each field and
whether its answer agrees. -/
def comparisons (answers : List Record) (key : String) (columns : List String)
    (expected : List Record) : List Failure :=
  expected.flatMap fun r =>
    let wanted := (r.get key).text
    let answer := (answerFor answers key wanted).getD []
    columns.map fun c => ⟨wanted, c, r.get c, answer.get c⟩

def gradeEntity (answers : List Record) (key : String) (columns : List String)
    (expected : List Record) : EntityGrade :=
  let fields := comparisons answers key columns expected
  let (right, wrong) := fields.partition fun f => agrees f.expected f.actual
  { records := expected.length, columns, key
    tested := fields.length, passed := right.length, failed := wrong.length
    failures := wrong }

def recordsIn (v : Value) : Except Fault (List Record) := do
  (← v.iterate).mapM (Value.table "get")

/-- Grades the answers for one entity of a rulebook; none when there is nothing to grade or
nothing was attempted. -/
def gradeAnswers (book : Record) (keys : Record) (entity : String) (answers : Value) :
    Except Fault (Option EntityGrade) := do
  match keys.get? entity with
  | none => return none
  | some expected =>
    let schema ← schemaOf .close book entity
    let columns ← computedColumns schema
    match ← primaryKey schema, columns with
    | some key, _ :: _ =>
      let answers ← recordsIn answers
      let _ ← expected.size
      let grade := gradeEntity answers key columns (← recordsIn expected)
      return if grade.isUnattempted then none else some grade
    | _, _ => return none

def Grades.ofEntities (substrate : String) (entities : List (String × EntityGrade)) : Grades :=
  { substrate, entities
    tested := entities.foldr (fun e n => e.2.tested + n) 0
    passed := entities.foldr (fun e n => e.2.passed + n) 0
    failed := entities.foldr (fun e n => e.2.failed + n) 0 }

def gradeAll (substrate : String) (keys book answers : Record) : Except Fault Grades := do
  if answers.isEmpty then
    return { substrate, error := some "No test-answers found" }
  let graded ← answers.filterMapM fun (entity, given) => do
    return (← gradeAnswers book keys entity given).map fun g => (entity, g)
  return .ofEntities substrate graded

/-! ### As data -/

def Failure.toValue (f : Failure) : Value :=
  .dict [("pk", .str f.key), ("field", .str f.column), ("expected", f.expected),
    ("actual", f.actual)]

def EntityGrade.toValue (g : EntityGrade) : Value :=
  .dict [("total_records", .int g.records), ("computed_columns", .list (g.columns.map .str)),
    ("primary_key", .str g.key), ("fields_tested", .int g.tested),
    ("fields_passed", .int g.passed), ("fields_failed", .int g.failed),
    ("failures", .list (g.failures.map Failure.toValue))]

def Grades.toValue (g : Grades) : Value :=
  .dict ([("substrate", .str g.substrate),
    ("entities", .dict (g.entities.map fun e => (e.1, e.2.toValue))),
    ("total_fields_tested", .int g.tested), ("fields_passed", .int g.passed),
    ("fields_failed", .int g.failed),
    ("error", match g.error with
      | some e => .str e
      | none => .null),
    ("elapsed_seconds", g.elapsed)]
    ++ match g.skipped with
      | some b => [("skipped", .bool b)]
      | none => [])

def countOf (v : Value) : Except Fault Int :=
  match v.number? with
  | some (.int n) => .ok n
  | _ => .error (.ofType s!"'{v.typeName}' object cannot be interpreted as an integer")

def countAt (r : Record) (key : String) : Except Fault Int := do
  countOf (← (Value.dict r).member key)

def textsIn (v : Value) : Except Fault (List String) := return (← v.iterate).map Value.text

def Failure.ofValue (v : Value) : Except Fault Failure := do
  return ⟨(← v.member "pk").text, (← v.member "field").text, ← v.member "expected",
    ← v.member "actual"⟩

def EntityGrade.ofValue (v : Value) : Except Fault EntityGrade := do
  let r ← v.table "get"
  let tested ← countAt r "fields_tested"
  let passed ← countAt r "fields_passed"
  let columns ← textsIn (← v.member "computed_columns")
  let failures ← (r.getD "failures" (.list [])).iterate
  return {
    records := match r.get "total_records" with
      | .int n => n.toNat
      | _ => 0
    columns
    key := (r.get "primary_key").text
    tested, passed
    failed := ← countOf (r.getD "fields_failed" (.int (tested - passed)))
    failures := ← failures.mapM Failure.ofValue }

def Grades.ofValue (v : Value) : Except Fault Grades := do
  let r ← v.table "get"
  let tested ← countAt r "total_fields_tested"
  let passed ← countAt r "fields_passed"
  let failed ← countAt r "fields_failed"
  let entities ← (r.getD "entities" (.dict [])).table "items"
  return {
    substrate := (r.get "substrate").text
    entities := ← entities.mapM fun (n, e) => return (n, ← EntityGrade.ofValue e)
    tested, passed, failed
    error := match r.get "error" with
      | .null => none
      | e => some e.text
    elapsed := r.getD "elapsed_seconds" (.float 0.0)
    skipped := match r.get? "skipped" with
      | some s => some s.truthy
      | none => none }

end Rulebook.Grading
