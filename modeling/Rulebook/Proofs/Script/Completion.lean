/-
Completing records by a generated program.

A program calls, for each calculated column of an entity in turn, the function of the column on
the fields that its formula refers to.
-/

import Rulebook.Proofs.Schema.Completion
import Rulebook.Script.Program

namespace Rulebook.Script

open List Formula
open Text Names Program

variable {e : Expr} {c : Column} {entity : String} {formula : String → Expr}

/-! ### Constructs

A conjunction stops at the first operand that is not true; since its operands are turned into truth
values first, its value is that of the conjunction of all. -/

section

variable {s : Scope}

def Holds (s : Scope) (e : Expr) (b : Bool) : Prop :=
  ∃ d, eval s e = .ok d ∧ condition e d = .value (.bool b)

theorem holds_field (name) : Holds s (.field name) (s.value name).isTrue :=
  ⟨.value (s.value name), rfl, rfl⟩

theorem holds_not_field (name) : Holds s (.unary "NOT" (.field name)) !(s.value name).isTrue :=
  ⟨.value (.bool !(s.value name).isTrue), rfl, rfl⟩

theorem eval_and (hne : es ≠ []) (h : Forall₂ (Holds s) es bs) :
    eval s (.call "AND" es) = .ok (.value (.bool (bs.all id))) := by
  rw [eval]
  induction h with
  | nil => exact absurd rfl hne
  | @cons e b es bs he hes ih =>
    obtain ⟨d, hd, hcond⟩ := he
    cases es with
    | nil =>
      cases hes
      simp only [evalAll, hd, ok_bind, hcond, all_cons, all_nil, Bool.and_true]
      rfl
    | cons e' es =>
      simp only [evalAll, hd, ok_bind, hcond, Datum.truthy, Value.truthy]
      cases b with
      | false => simp [pure, Except.pure]
      | true => simpa using ih (by simp)

theorem eval_if {cond yes no d} (h : eval s cond = .ok d) :
    eval s (.call "IF" [cond, yes, no]) = if d.truthy then eval s yes else eval s no := by
  simp [eval, h, evalElse]

def Gives (s : Scope) (e : Expr) (t : String) : Prop :=
  ∃ d, eval s e = .ok d ∧ s.partText e d = .ok t

theorem gives_str (t) : Gives s (.str t) t := ⟨.value (.str t), rfl, rfl⟩

theorem eval_concat (h : Forall₂ (Gives s) es ts) :
    eval s (.concat es) = .ok (.value (.str (String.join ts))) := by
  have hparts : evalParts s es = .ok (String.join ts) := by
    induction h with
    | nil => rfl
    | cons he _ ih =>
      obtain ⟨d, hd, htext⟩ := he
      simp only [evalParts, hd, ok_bind, htext, ih, String.join_cons]
      rfl
  simp only [eval, hparts]
  rfl

end

/-! ### Formulas as rules -/

def routine (e : Expr) : Routine := ⟨e.fields.map snake, some e⟩

def fill (column : String × Expr) : Fill where
  key := snake column.1
  reads := column.2.fields.map snake
  rule r := (routine column.2).call ((column.2.fields.map snake).map r.get)
  rule_congr h := by rw [map_congr_left h]

def scope (e : Expr) (r : Record) : Scope :=
  let params := e.fields.map snake
  { value := fun field => ((params.zip (params.map r.get)).lookup (snake field)).getD .null
    hidesText := "str" ∈ params }

theorem lookup_zip_map {α : Type} (keys : List String) (f : String → α) (key) :
    (keys.zip (keys.map f)).lookup key = if key ∈ keys then some (f key) else none := by
  induction keys with
  | nil => rfl
  | cons k keys ih => grind

theorem scope_value (h : field ∈ e.fields) : (scope e r).value field = r.get (snake field) := by
  simp only [scope, lookup_zip_map, if_pos (mem_map_of_mem h), Option.getD_some]

/-- **The function of a column** evaluates its formula on the record. -/
theorem rule_eq_eval (column r) :
    (fill column).rule r = (eval (scope column.2 r) column.2).map Datum.toValue := by
  have hcall : (fill column).rule r = (do
      let d ← eval (scope column.2 r) column.2
      return d.toValue) := by
    simp only [fill, routine, Routine.call, length_map, ne_eq]
    rfl
  rw [hcall]
  rfl

/-! ### Programs -/

theorem lastDefinition?_of_mem {a : α}
    (hnames : (table.map Prod.fst).Nodup) (h : (name, a) ∈ table) :
    lastDefinition? table name = some a := by
  cases hfind : table.reverse.find? fun e => e.1 = name with
  | none =>
    have hnone := find?_eq_none.mp hfind (name, a) (mem_reverse.mpr h)
    simp at hnone
  | some e =>
    have hmem : e ∈ table := mem_reverse.mp (mem_of_find?_eq_some hfind)
    have hname : e.1 = name := by simpa using find?_some hfind
    have heq : e = (name, a) := inj_on_of_nodup_map hnames hmem h hname
    rw [lastDefinition?, hfind, heq]
    rfl

structure HasFormula (c : Column) (e : Expr) : Prop where
  expression : c.expression = .ok e
  rendered : ∃ text, Emit.render Emit.Script.dialect e = .ok text

theorem HasFormula.routine (h : HasFormula c e) : Routine.ofColumn c = Script.routine e := by
  obtain ⟨text, htext⟩ := h.rendered
  have hread : readFormula c = .ok (e, text) := by
    simp only [readFormula, h.expression, htext, ok_bind]
    rfl
  rw [Routine.ofColumn, hread]
  rfl

theorem HasFormula.step (h : HasFormula c e) (entity) : Step.ofColumn entity c =
      ⟨snake c.name, routineName entity c.name, e.fields.map snake⟩ := by
  rw [Step.ofColumn, h.expression]
  rfl

theorem Program.step_eq_apply {p : Program} (h : HasFormula c e)
    (hroutine : lastDefinition? p.routines (routineName entity c.name) = some (Routine.ofColumn c))
    (r) : p.step r (Step.ofColumn entity c) = Fill.apply r (fill (c.name, e)) := by
  rw [h.step, step, hroutine, h.routine]
  rfl

theorem Program.foldlM_step {p : Program} {columns : List Column}
    (h : ∀ c ∈ columns, HasFormula c (formula c.name) ∧
      lastDefinition? p.routines (routineName entity c.name) = some (Routine.ofColumn c)) (r) :
    (columns.map (Step.ofColumn entity)).foldlM p.step r =
      Fill.run (columns.map fun c => fill (c.name, formula c.name)) r := by
  induction columns generalizing r with
  | nil => rfl
  | cons c columns ih =>
    obtain ⟨hformula, hroutine⟩ := h c (by simp)
    rw [map_cons, map_cons, foldlM_cons, Fill.run_cons,
      p.step_eq_apply hformula hroutine]
    cases Fill.apply r (fill (c.name, formula c.name)) with
    | error fault => rfl
    | ok r1 => exact ih (fun d hd => h d (by simp [hd])) r1

theorem routineName_inj (h : routineName entity field = routineName entity field') :
    snake field = snake field' := by
  have hlist := congrArg String.toList h
  simp only [routineName, String.toList_append, append_cancel_left_eq] at hlist
  exact String.toList_inj.mp hlist

/-- **Programs complete records** as the formulas of their columns do, and replace empty texts by
null. -/
theorem Section.compute_eq_run (hformula : ∀ c ∈ s.levels.flatten, HasFormula c (formula c.name))
    (hnames : (s.levels.flatten.map Column.key).Nodup) (r) :
    (ofSections [s]).compute s.computation r =
      (Fill.run (s.levels.flatten.map fun c => fill (c.name, formula c.name)) r).map
        (s.textFields.foldl clearEmpty) := by
  have hroutines : (ofSections [s]).routines =
      s.levels.flatten.map fun c => (routineName s.entity c.name, Routine.ofColumn c) := by
    simp [ofSections]
  have hnodup : ((ofSections [s]).routines.map Prod.fst).Nodup := by
    have hpair := pairwise_map.mp hnames
    rw [hroutines, map_map]
    exact pairwise_map.mpr (hpair.imp fun hne heq => hne (routineName_inj heq))
  have hdefined : ∀ c ∈ s.levels.flatten, HasFormula c (formula c.name) ∧
      lastDefinition? (ofSections [s]).routines (routineName s.entity c.name) =
        some (Routine.ofColumn c) := fun c hc =>
    ⟨hformula c hc, lastDefinition?_of_mem hnodup (hroutines ▸ mem_map_of_mem hc)⟩
  rw [compute, Section.computation, foldlM_step hdefined]
  rfl

theorem get_foldl_clearEmpty {keys : List String} {key} (h : key ∉ keys) (r) :
    (keys.foldl clearEmpty r).get key = r.get key := by
  induction keys generalizing r with
  | nil => rfl
  | cons k keys ih =>
    obtain ⟨hne, hrest⟩ := not_or.mp (mt mem_cons.mpr h)
    rw [foldl_cons, ih hrest, clearEmpty]
    split
    · exact Record.get_put_of_ne hne
    · rfl

end Rulebook.Script
