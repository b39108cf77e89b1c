/-
What grades account for.

A substrate is graded on every computed column of every record of the answer keys.
-/

import Rulebook.Grading.Report
import Rulebook.Proofs.Grading
import Rulebook.Proofs.Outcome
import Rulebook.Proofs.Workspace

open List

namespace Rulebook.Grading

open Schema Workspace

/-! ### Fields and the answers that count for them -/

/-- A record answers a record of the answer key: it has a primary key, and its text is the same. -/
def IsAnswer (key : String) (expected answer : Record) : Prop :=
  answer.get key ≠ .null ∧ (answer.get key).text = (expected.get key).text

/-- **The answer that counts** for a record of the answer key: the last one, and a record without
entries when there is none. -/
inductive Counts (answers : List Record) (key : String) (expected : Record) : Record → Prop
  | last {before after : List Record} {answer : Record} :
      answers = before ++ answer :: after → IsAnswer key expected answer →
      (∀ a ∈ after, ¬ IsAnswer key expected a) → Counts answers key expected answer
  | missing : (∀ a ∈ answers, ¬ IsAnswer key expected a) → Counts answers key expected []

def answerTo (answers : List Record) (key : String) (expected : Record) : Record :=
  (answerFor answers key (expected.get key).text).getD []

section

variable {answers : List Record} {key : String} {expected answer : Record}

theorem isNull_eq_false_iff {v : Value} : v.isNull = false ↔ v ≠ .null := by
  cases v <;> simp [Value.isNull]

theorem isAnswer_iff : IsAnswer key expected answer ↔
    (!(answer.get key).isNull && (answer.get key).text == (expected.get key).text) = true := by
  rw [IsAnswer, Bool.and_eq_true, Bool.not_eq_true', isNull_eq_false_iff, beq_iff_eq]

theorem counts_answerTo (answers key expected) :
    Counts answers key expected (answerTo answers key expected) := by
  rw [answerTo, answerFor]
  cases hfind : answers.reverse.find? fun r =>
      !(r.get key).isNull && (r.get key).text == (expected.get key).text with
  | none =>
    refine .missing fun a ha hanswer => ?_
    have hnot := find?_eq_none.mp hfind a (mem_reverse.mpr ha)
    exact hnot (isAnswer_iff.mp hanswer)
  | some answer =>
    obtain ⟨hanswer, after, before, hsplit, hafter⟩ := find?_eq_some_iff_append.mp hfind
    have hanswers : answers = before.reverse ++ answer :: after.reverse := by
      rw [← reverse_reverse answers, hsplit]
      simp
    refine .last hanswers (isAnswer_iff.mpr hanswer) fun a ha hanswer' => ?_
    have hnot := hafter a (mem_reverse.mp ha)
    rw [isAnswer_iff.mp hanswer'] at hnot
    cases hnot

end

structure Trial where
  answers : List Record
  key : String
  columns : List String
  expected : List Record

namespace Trial

/-- The fields of a trial: each computed column of each record of the answer key. -/
def fields (t : Trial) : List (Record × String) := t.expected ×ˢ t.columns

def actual (t : Trial) (f : Record × String) : Value := (answerTo t.answers t.key f.1).get f.2

def passes (t : Trial) (f : Record × String) : Bool := agrees (f.1.get f.2) (t.actual f)

def failure (t : Trial) (f : Record × String) : Failure :=
  ⟨(f.1.get t.key).text, f.2, f.1.get f.2, t.actual f⟩

def grade (t : Trial) : EntityGrade := gradeEntity t.answers t.key t.columns t.expected

variable (t : Trial)

theorem comparisons_eq :
    comparisons t.answers t.key t.columns t.expected = t.fields.map t.failure := by
  have hfields : t.fields = t.expected.flatMap fun r => t.columns.map (Prod.mk r) := rfl
  rw [hfields, map_flatMap]
  simp only [map_map]
  rfl

theorem failures_grade :
    t.grade.failures = (t.fields.filter fun f => !t.passes f).map t.failure := by
  have hwrong : t.grade.failures = (comparisons t.answers t.key t.columns t.expected).filter
      fun f => !agrees f.expected f.actual := by
    simp [grade, gradeEntity, Function.comp_def]
  rw [hwrong, comparisons_eq, filter_map]
  rfl

theorem passed_grade : t.grade.passed = t.fields.countP t.passes := by
  have hright : t.grade.passed = ((comparisons t.answers t.key t.columns t.expected).filter
      fun f => agrees f.expected f.actual).length := by
    simp [grade, gradeEntity]
  rw [hright, comparisons_eq, filter_map, length_map, countP_eq_length_filter]
  rfl

theorem failed_grade : t.grade.failed = t.fields.countP fun f => !t.passes f := by
  have hfailed : t.grade.failed = t.grade.failures.length := rfl
  rw [hfailed, failures_grade, length_map, countP_eq_length_filter]

/-- A trial is passed over when it has failures, nothing passed and no answer has a value. -/
def Unattempted (t : Trial) : Prop :=
  (∃ f ∈ t.fields, t.passes f = false) ∧ (∀ f ∈ t.fields, t.passes f = false) ∧
    ∀ f ∈ t.fields, t.actual f = .null ∨ t.actual f = .str "None"

theorem isUnattempted_grade : t.grade.isUnattempted = true ↔ t.Unattempted := by
  have hpassed : t.grade.passed = 0 ↔ ∀ f ∈ t.fields, t.passes f = false := by
    rw [passed_grade]
    simp
  have hfailed : 0 < t.grade.failed ↔ ∃ f ∈ t.fields, t.passes f = false := by
    rw [failed_grade]
    simp
  have hactual : ∀ v : Value, (v.isNull || v.equal (.str "None")) = true ↔
      v = .null ∨ v = .str "None" := by
    intro v
    rw [Bool.or_eq_true, Value.equal_str_iff]
    cases v <;> simp [Value.isNull]
  rw [EntityGrade.isUnattempted, Bool.and_eq_true, Bool.and_eq_true, beq_iff_eq, decide_eq_true_eq,
    hpassed, hfailed, failures_grade, all_eq_true]
  constructor
  · rintro ⟨⟨hnone, hsome⟩, hall⟩
    refine ⟨hsome, hnone, fun f hf => (hactual _).mp (hall (t.failure f) ?_)⟩
    exact mem_map_of_mem (mem_filter.mpr ⟨hf, by rw [hnone f hf]; rfl⟩)
  · rintro ⟨hsome, hnone, hall⟩
    refine ⟨⟨hnone, hsome⟩, fun e he => ?_⟩
    obtain ⟨f, hf, rfl⟩ := mem_map.mp he
    exact (hactual _).mpr (hall f (mem_of_mem_filter hf))

end Trial

/-! ### Grading an entity -/

/-- **An entity that is graded on a trial**: it has an answer key and computed columns. -/
structure Graded (book keys : Record) (entity : String) (given : Value) (t : Trial) : Prop where
  answers : recordsIn given = .ok t.answers
  expected : ∃ v, keys.get? entity = some v ∧ recordsIn v = .ok t.expected
  schema : ∃ schema, schemaOf .close book entity = .ok schema ∧
    computedColumns schema = .ok t.columns ∧ primaryKey schema = .ok (some t.key)
  columns : t.columns ≠ []

theorem exists_size (h : recordsIn v = .ok records) : ∃ n, v.size = .ok n := by
  obtain ⟨items, hitems, -⟩ := bind_eq_ok_iff.mp h
  cases v <;> simp_all [Value.iterate, Value.size]

section

variable {columns : List String}

variable {book keys : Record} {entity : String} {given : Value} {t : Trial} {e : EntityGrade}

theorem Graded.gradeAnswers_eq (h : Graded book keys entity given t) :
    gradeAnswers book keys entity given =
      .ok (if t.grade.isUnattempted then none else some t.grade) := by
  obtain ⟨v, hv, hexpected⟩ := h.expected
  obtain ⟨schema, hschema, hcolumns, hkey⟩ := h.schema
  obtain ⟨n, hsize⟩ := exists_size hexpected
  obtain ⟨c, cs, hcs⟩ := exists_cons_of_ne_nil h.columns
  rw [gradeAnswers, hv]
  simp only [hschema, hcolumns, hkey, h.answers, hsize, hexpected, ok_bind]
  rw [Trial.grade, hcs]
  rfl

theorem exists_graded (h : gradeAnswers book keys entity given = .ok (some e)) :
    ∃ t, Graded book keys entity given t ∧ e = t.grade ∧ t.grade.isUnattempted = false := by
  rw [gradeAnswers] at h
  split at h
  · cases h
  · next v hv =>
    obtain ⟨schema, hschema, h⟩ := bind_eq_ok_iff.mp h
    obtain ⟨columns, hcolumns, h⟩ := bind_eq_ok_iff.mp h
    obtain ⟨key?, hkey, h⟩ := bind_eq_ok_iff.mp h
    cases key? with
    | none => cases h
    | some key =>
      cases columns with
      | nil => cases h
      | cons c cs =>
        obtain ⟨answers, hanswers, h⟩ := bind_eq_ok_iff.mp h
        obtain ⟨n, -, h⟩ := bind_eq_ok_iff.mp h
        obtain ⟨expected, hexpected, h⟩ := bind_eq_ok_iff.mp h
        refine ⟨⟨answers, key, c :: cs, expected⟩, ⟨hanswers, ⟨v, hv, hexpected⟩,
          ⟨schema, hschema, hcolumns, hkey⟩, cons_ne_nil c cs⟩, ?_⟩
        have h := Except.ok.inj h
        split at h
        · cases h
        · next hattempted => exact ⟨(Option.some.inj h).symm, Bool.eq_false_iff.mpr hattempted⟩

theorem primaryKey_ne_none (hcolumns : computedColumns schema = .ok columns)
    (hne : columns ≠ []) : primaryKey schema ≠ .ok none := by
  intro hkey
  obtain ⟨items, hitems, hcolumns⟩ := bind_eq_ok_iff.mp hcolumns
  obtain ⟨items', hitems', hkey⟩ := bind_eq_ok_iff.mp hkey
  cases hitems.symm.trans hitems'
  cases items with
  | nil =>
    cases hcolumns
    exact hne rfl
  | cons c items =>
    obtain ⟨required, -, hkey⟩ := bind_eq_ok_iff.mp hkey
    cases required with
    | some c' =>
      obtain ⟨name, -, hkey⟩ := bind_eq_ok_iff.mp hkey
      cases hkey
    | none =>
      obtain ⟨ending, -, hkey⟩ := bind_eq_ok_iff.mp hkey
      cases ending with
      | some c' =>
        obtain ⟨name, -, hkey⟩ := bind_eq_ok_iff.mp hkey
        cases hkey
      | none =>
        obtain ⟨name, -, hkey⟩ := bind_eq_ok_iff.mp hkey
        cases hkey

end

/-! ### Grading all entities -/

section

variable {ε α β : Type} {f : α → Except ε (Option β)} {items : List α} {found : List β}

theorem mem_of_filterMapM (h : items.filterMapM f = .ok found) :
    (∀ b, b ∈ found ↔ ∃ x ∈ items, f x = .ok (some b)) ∧ ∀ x ∈ items, ∃ r, f x = .ok r := by
  induction items generalizing found with
  | nil =>
    cases h
    simp
  | cons x items ih =>
    rw [filterMapM_cons] at h
    obtain ⟨r, hr, h⟩ := bind_eq_ok_iff.mp h
    cases r with
    | none => grind
    | some b =>
      obtain ⟨rest, hrest, h⟩ := bind_eq_ok_iff.mp h
      cases h
      obtain ⟨hmem, hok⟩ := ih hrest
      refine ⟨fun b' => ?_, by simpa [hr] using hok⟩
      rw [mem_cons, hmem]
      simp [hr, eq_comm]

end

section

variable {substrate : String} {book keys answers : Record} {g : Grades}

theorem exists_filterMapM (h : gradeAll substrate keys book answers = .ok g) :
    (answers.filterMapM fun a => do
      return (← gradeAnswers book keys a.1 a.2).map fun e => (a.1, e)) = .ok g.entities ∧
      g = if answers.isEmpty then { substrate, error := some "No test-answers found" }
        else .ofEntities substrate g.entities := by
  rw [gradeAll] at h
  split at h
  · next hempty =>
    cases h
    obtain rfl := List.isEmpty_iff.mp hempty
    exact ⟨rfl, rfl⟩
  · next hempty =>
    obtain ⟨graded, hgraded, h⟩ := bind_eq_ok_iff.mp h
    cases h
    exact ⟨hgraded, (if_neg hempty).symm⟩

theorem mem_entities_iff (h : gradeAll substrate keys book answers = .ok g) :
    (entity, e) ∈ g.entities ↔
      ∃ given, (entity, given) ∈ answers ∧ gradeAnswers book keys entity given = .ok (some e) := by
  rw [(mem_of_filterMapM (exists_filterMapM h).1).1]
  constructor
  · rintro ⟨⟨name, given⟩, hmem, hgrade⟩
    obtain ⟨o, ho, hsome⟩ := bind_eq_ok_iff.mp hgrade
    obtain ⟨e', rfl, he⟩ := Option.map_eq_some_iff.mp (Except.ok.inj hsome)
    cases he
    exact ⟨given, hmem, ho⟩
  · rintro ⟨given, hmem, hgrade⟩
    refine ⟨(entity, given), hmem, ?_⟩
    rw [hgrade]
    rfl

theorem totals_eq (h : gradeAll substrate keys book answers = .ok g) :
    g.tested = (g.entities.map (·.2.tested)).sum ∧ g.passed = (g.entities.map (·.2.passed)).sum ∧
    g.failed = (g.entities.map (·.2.failed)).sum := by
  have hg := (exists_filterMapM h).2
  split at hg
  · rw [hg]
    exact ⟨rfl, rfl, rfl⟩
  · rw [hg]
    simp [Grades.ofEntities, List.sum, foldr_map]

end

/-! ### Grading a substrate -/

theorem ends_readableFiles (w folder) :
    Ends w (readableFiles folder) (fun found _ => found.keys.Nodup) fun _ _ => True := by
  refine ends_bind_of_forall fun files w' => ?_
  rw [ends_bind]
  refine (ends_forIn nodup_nil fun file _ found w hfound => ?_).imp (fun _ _ h => h)
    fun _ _ h => h
  refine ends_bind_of_forall fun r w' => ?_
  cases r with
  | ok v => exact ⟨_, rfl, Record.nodup_keys_put hfound⟩
  | error f => exact ⟨_, rfl, hfound⟩

theorem ends_singleAnswers (w book path) :
    Ends w (singleAnswers book path) (fun found _ => found.keys.Nodup) fun _ _ => True := by
  refine ends_bind_of_forall fun answers w' => ?_
  split
  · exact nodup_nil
  · repeat
      rw [ends_bind]
      refine ends_of_forall (fun _ _ => ?_) fun _ _ => trivial
    split
    · exact nodup_singleton _
    · exact nodup_singleton _
    · exact nodup_nil

theorem ends_answersOf (w book substrate) :
    Ends w (answersOf book substrate) (fun found _ => found.keys.Nodup) fun _ _ => True := by
  refine ends_bind_of_forall fun folder w' => ?_
  rw [ends_bind]
  refine (ends_readableFiles w' _).imp (fun answers w' hanswers => ?_) fun _ _ h => h
  split
  · exact hanswers
  · refine ends_bind_of_forall fun there w' => ?_
    split
    · exact nodup_nil
    · rw [ends_bind, ends_attempted]
      refine (ends_singleAnswers _ _ _).imp (fun _ _ h => h) fun f _ _ => ?_
      split
      · exact nodup_nil
      · trivial

section

variable {t : Trial} {answers : Record}

variable {w w' : Workspace} {substrate : String} {book keys : Record} {g : Grades}

theorem exists_gradeAll (h : w.perform (gradeSubstrate substrate keys book) = (.ok g, w')) :
    ∃ answers, (w.perform (answersOf book substrate)).1 = .ok answers ∧ answers.keys.Nodup ∧
      gradeAll substrate keys book answers = .ok g := by
  have hnodup := ends_answersOf w book substrate
  rw [gradeSubstrate, perform_bind] at h
  rw [Ends] at hnodup
  rcases hanswers : w.perform (answersOf book substrate) with ⟨f | answers, w1⟩
  · rw [hanswers] at h
    cases h
  · rw [hanswers] at h hnodup
    exact ⟨answers, rfl, hnodup, (Prod.mk.inj h).1⟩

def meterBook : Record :=
  [("Meters", .dict [("schema", .list [
    .dict [("name", .str "MeterId"), ("type", .str "raw"), ("nullable", .bool false)],
    .dict [("name", .str "IsLow"), ("type", .str "calculated")]])])]

def meterKeys : Record :=
  [("meters", .list [.dict [("meter_id", .str "a"), ("is_low", .bool true)],
    .dict [("meter_id", .str "b"), ("is_low", .bool false)]])]

def meterProject (answers : String) : Workspace :=
  Workspace.withFiles { root := "/p", here := "/p" } "/p"
    [("execution-substrates/s/test-answers/meters.json", .str answers)]

/-- No answer of a substrate has a value in a computed column. -/
def Blank (book keys answers : Record) : Prop :=
  ∀ entity given t, (entity, given) ∈ answers → Graded book keys entity given t →
    ∀ a ∈ t.answers, ∀ c ∈ t.columns, a.get c = .null

theorem Trial.actual_of_blank (h : ∀ a ∈ t.answers, ∀ c ∈ t.columns, a.get c = .null) :
    ∀ f ∈ t.fields, t.actual f = .null := by
  rintro ⟨r, c⟩ hf
  have hc : c ∈ t.columns := (mem_product.mp hf).2
  have hcounts := counts_answerTo t.answers t.key r
  rw [Trial.actual]
  generalize answerTo t.answers t.key r = answer at hcounts ⊢
  cases hcounts with
  | missing _ => rfl
  | last hsplit _ _ =>
    refine h answer ?_ c hc
    rw [hsplit]
    simp

/-- Without computed values a trial is left out when no field expects null, and fails nowhere when
all fields do. -/
theorem Trial.blank_cases (hactual : ∀ f ∈ t.fields, t.actual f = .null) :
    t.Unattempted ∨ t.grade.failed = 0 ↔ (∀ f ∈ t.fields, agrees (f.1.get f.2) .null = true) ∨
        ∀ f ∈ t.fields, agrees (f.1.get f.2) .null = false := by
  have hpasses : ∀ f ∈ t.fields, t.passes f = agrees (f.1.get f.2) .null := by
    intro f hf
    rw [Trial.passes, hactual f hf]
  have hfailed : t.grade.failed = 0 ↔ ∀ f ∈ t.fields, agrees (f.1.get f.2) .null = true := by
    grind [t.failed_grade, Int.natCast_eq_zero, countP_eq_zero]
  rw [hfailed]
  constructor
  · rintro (⟨-, hnone, -⟩ | hall)
    · refine .inr fun f hf => ?_
      rw [← hpasses f hf]
      exact hnone f hf
    · exact .inl hall
  · rintro (hall | hnone)
    · exact .inr hall
    · by_cases hfields : t.fields = []
      · exact .inr (by simp [hfields])
      · obtain ⟨f, hf⟩ := exists_mem_of_ne_nil _ hfields
        have hfails : ∀ f ∈ t.fields, t.passes f = false := by
          intro f hf
          rw [hpasses f hf]
          exact hnone f hf
        exact .inl ⟨⟨f, hf, hfails f hf⟩, hfails, fun f hf => .inl (hactual f hf)⟩

theorem status_eq_pass_iff (h : gradeAll substrate keys book answers = .ok g) :
    status g = "PASS" ↔ answers ≠ [] ∧ g.failed = 0 := by
  have hg := (exists_filterMapM h).2
  by_cases hempty : answers = []
  · subst hempty
    have hstatus : status g ≠ "PASS" := by
      rw [hg]
      change "ERROR: " ++ Text.takeFront "No test-answers found" 30 ≠ "PASS"
      decide +kernel
    simp [hstatus]
  · rw [if_neg (by simpa using hempty)] at hg
    have herror : g.error? = none := by
      rw [hg]
      rfl
    rw [status, herror]
    by_cases hfailed : g.failed = 0 <;> simp [hempty]

theorem exists_summaryRow (h : gradeAll substrate keys book answers = .ok g) :
    ∃ front, summaryRow substrate g = .ok (front ++ " | " ++ status g ++ " |") := by
  have hg := (exists_filterMapM h).2
  have helapsed : g.elapsed = .float 0.0 := by
    rw [hg]
    split <;> rfl
  have hshown : (duration (.float 0.0)).toOption = some "< 1s" := by decide +kernel
  rw [summaryRow, helapsed]
  cases hduration : duration (.float 0.0) with
  | error f =>
    rw [hduration] at hshown
    cases hshown
  | ok text => exact ⟨_, rfl⟩

/-- **When a substrate that has computed nothing passes.** It passes exactly when there are answers
and in each entity either all fields of the answer key count as null or none does: an entity whose
fields are all missed is left out, and what is left out is no failure. -/
theorem status_of_blank_answers {answers : Record}
    (h : w.perform (gradeSubstrate substrate keys book) = (.ok g, w'))
    (hanswers : (w.perform (answersOf book substrate)).1 = .ok answers)
    (hblank : Blank book keys answers) :
    (∃ front, summaryRow substrate g = .ok (front ++ " | " ++ status g ++ " |")) ∧
    (status g = "PASS" ↔ answers ≠ [] ∧
      ∀ entity given t, (entity, given) ∈ answers → Graded book keys entity given t →
        (∀ f ∈ t.fields, agrees (f.1.get f.2) .null = true) ∨
          ∀ f ∈ t.fields, agrees (f.1.get f.2) .null = false) := by
  obtain ⟨answers', hanswers', hnodup, hg⟩ := exists_gradeAll h
  cases hanswers.symm.trans hanswers'
  refine ⟨exists_summaryRow hg, ?_⟩
  rw [status_eq_pass_iff hg]
  refine and_congr_right fun _ => ?_
  have hentity : ∀ e ∈ g.entities, ∃ given t, (e.1, given) ∈ answers ∧
      Graded book keys e.1 given t ∧ e.2 = t.grade ∧ ¬ t.Unattempted := by
    rintro ⟨entity, e⟩ he
    obtain ⟨given, hmem, hgrade⟩ := (mem_entities_iff hg).mp he
    obtain ⟨t, ht, rfl, hattempted⟩ := exists_graded hgrade
    refine ⟨given, t, hmem, ht, rfl, ?_⟩
    rw [← t.isUnattempted_grade, hattempted]
    exact Bool.false_ne_true
  have hzero : g.failed = 0 ↔ ∀ e ∈ g.entities, e.2.failed = 0 := by
    rw [(totals_eq hg).2.2]
    have hnonneg : ∀ n ∈ g.entities.map (·.2.failed), 0 ≤ n := by
      intro n hn
      obtain ⟨e, he, rfl⟩ := mem_map.mp hn
      obtain ⟨-, t, -, -, hgrade, -⟩ := hentity e he
      rw [hgrade, t.failed_grade]
      exact Int.natCast_nonneg _
    constructor
    · intro hsum e he
      exact all_zero_of_le_zero_le_of_sum_eq_zero hnonneg hsum
        (mem_map_of_mem (f := (·.2.failed)) he)
    · intro hfailed
      refine sum_eq_zero fun n hn => ?_
      obtain ⟨e, he, rfl⟩ := mem_map.mp hn
      exact hfailed e he
  rw [hzero]
  constructor
  · intro hfailed entity given t hmem ht
    rw [← Trial.blank_cases (Trial.actual_of_blank (hblank entity given t hmem ht))]
    by_cases hunattempted : t.Unattempted
    · exact .inl hunattempted
    · right
      have hgrade := ht.gradeAnswers_eq
      rw [if_neg (by rwa [t.isUnattempted_grade])] at hgrade
      exact hfailed (entity, t.grade) ((mem_entities_iff hg).mpr ⟨given, hmem, hgrade⟩)
  · intro hkeys e he
    obtain ⟨given, t, hmem, ht, hgrade, hattempted⟩ := hentity e he
    have hcases := hkeys e.1 given t hmem ht
    rw [← Trial.blank_cases (Trial.actual_of_blank (hblank e.1 given t hmem ht))] at hcases
    rw [hgrade]
    exact hcases.resolve_left hattempted

theorem graded_meters (h : Graded meterBook meterKeys "meters" given t) :
    t.columns = ["is_low"] ∧ t.expected = [[("meter_id", .str "a"), ("is_low", .bool true)],
      [("meter_id", .str "b"), ("is_low", .bool false)]] := by
  have hknown : (schemaOf .close meterBook "meters" >>= computedColumns).toOption =
      some ["is_low"] := by decide +kernel
  obtain ⟨schema, hschema, hcolumns, -⟩ := h.schema
  obtain ⟨v, hv, hexpected⟩ := h.expected
  constructor
  · rw [hschema, ok_bind, hcolumns] at hknown
    exact Option.some.inj hknown
  · cases hv
    exact (Except.ok.inj hexpected).symm

/-- A substrate passes although it has computed nothing and both values are expected. -/
theorem status_of_blank_answers_meters :
    let w := meterProject "[\x7b\"meter_id\": \"a\", \"is_low\": null\x7d]"
    ∃ g w' answers, w.perform (gradeSubstrate "s" meterKeys meterBook) = (.ok g, w') ∧
      (w.perform (answersOf meterBook "s")).1 = .ok answers ∧ Blank meterBook meterKeys answers ∧
      agrees (.bool true) .null = false ∧ agrees (.bool false) .null = false ∧
      status g = "PASS" := by
  intro w
  have hruns : (w.perform (gradeSubstrate "s" meterKeys meterBook)).1.toOption.isSome = true := by
    decide +kernel
  have hsilent : ((w.perform (answersOf meterBook "s")).1.toOption.map fun answers =>
      (answers.keys, answers.all fun a => (recordsIn a.2).toOption.all fun records =>
        records.all fun r => (r.get "is_low").isNull)) = some (["meters"], true) := by
    decide +kernel
  rcases hrun : w.perform (gradeSubstrate "s" meterKeys meterBook) with ⟨f | g, w'⟩
  · rw [hrun] at hruns
    cases hruns
  obtain ⟨answers, hanswers, -, -⟩ := exists_gradeAll hrun
  rw [hanswers] at hsilent
  obtain ⟨hkeys, hnull⟩ := Prod.mk.inj (Option.some.inj hsilent)
  have hentity : ∀ entity given, (entity, given) ∈ answers → entity = "meters" := by
    intro entity given hmem
    have hkey : entity ∈ answers.keys := mem_map.mpr ⟨_, hmem, rfl⟩
    rw [hkeys] at hkey
    exact mem_singleton.mp hkey
  have hblank : Blank meterBook meterKeys answers := by
    intro entity given t hmem ht a ha c hc
    cases hentity entity given hmem
    rw [(graded_meters ht).1, mem_singleton] at hc
    subst hc
    have hrecords := all_eq_true.mp hnull _ hmem
    rw [ht.answers] at hrecords
    have hget : (a.get "is_low").isNull = true := all_eq_true.mp hrecords a ha
    cases hvalue : a.get "is_low" with
    | null => rfl
    | _ =>
      rw [hvalue] at hget
      cases hget
  refine ⟨g, w', answers, rfl, hanswers, hblank, by decide +kernel, by decide +kernel, ?_⟩
  refine (status_of_blank_answers hrun hanswers hblank).2.mpr ⟨?_, fun entity given t hmem ht => ?_⟩
  · rintro rfl
    cases hkeys
  · cases hentity entity given hmem
    obtain ⟨hcolumns, hexpected⟩ := graded_meters ht
    right
    rintro ⟨r, c⟩ hf
    rw [Trial.fields, hcolumns, hexpected] at hf
    obtain ⟨rfl, rfl⟩ | ⟨rfl, rfl⟩ : _ ∨ _ := by simpa using hf
    · decide +kernel
    · decide +kernel

end

end Rulebook.Grading
