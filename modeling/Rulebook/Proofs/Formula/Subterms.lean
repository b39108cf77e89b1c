/-
The parts of a formula.

Subterms are listed once for every place where they stand, each after its own parts.
-/

import Rulebook.Formula.Basic

namespace Rulebook.Formula.Expr

open List

def children : Expr → List Expr
  | unary _ e => [e]
  | binary _ l r => [l, r]
  | call _ args => args
  | concat parts => parts
  | bool _ | int _ | str _ | misfit _ _ | field _ => []

mutual

/-- The subterms, each after its own parts. -/
def subterms : Expr → List Expr
  | unary op e => subterms e ++ [unary op e]
  | binary op l r => subterms l ++ subterms r ++ [binary op l r]
  | call name args => subtermsAll args ++ [call name args]
  | concat parts => subtermsAll parts ++ [concat parts]
  | bool b => [bool b]
  | int n => [int n]
  | str s => [str s]
  | misfit type v => [misfit type v]
  | field name => [field name]

def subtermsAll : List Expr → List Expr
  | [] => []
  | e :: es => subterms e ++ subtermsAll es

end

theorem subterms_eq (e) : e.subterms = subtermsAll e.children ++ [e] := by
  cases e <;> simp [subterms, subtermsAll, children]

theorem mem_subtermsAll : s ∈ subtermsAll es ↔ ∃ e ∈ es, s ∈ e.subterms := by
  induction es with
  | nil => simp [subtermsAll]
  | cons e es ih => simp [subtermsAll, ih]

theorem mem_subterms_self (e : Expr) : e ∈ e.subterms := by
  simp [subterms_eq]

theorem mem_subterms_of_child {e c s : Expr} (hc : c ∈ e.children) (hs : s ∈ c.subterms) :
    s ∈ e.subterms := by
  rw [subterms_eq]
  exact mem_append_left _ (mem_subtermsAll.mpr ⟨c, hc, hs⟩)

theorem sizeOf_lt_of_mem_children {e c : Expr} (h : c ∈ e.children) : sizeOf c < sizeOf e := by
  cases e with
  | bool | int | str | misfit | field => simp [children] at h
  | unary op a => grind [children, unary.sizeOf_spec]
  | binary op l r => grind [binary.sizeOf_spec, children]
  | call name args =>
    have : sizeOf c < sizeOf args := sizeOf_lt_of_mem h
    simp only [call.sizeOf_spec]
    omega
  | concat parts =>
    have : sizeOf c < sizeOf parts := sizeOf_lt_of_mem h
    simp only [concat.sizeOf_spec]
    omega

/-- **Induction over parts.** What passes from the direct parts of every formula to the formula
holds of all formulas. -/
theorem children_induction {motive : Expr → Prop}
    (step : ∀ e, (∀ c ∈ e.children, motive c) → motive e) (e) : motive e :=
  step e fun c _ => children_induction step c
termination_by e
decreasing_by exact sizeOf_lt_of_mem_children ‹_›

/-! ### Fields -/

theorem addFields_eq (h : e.isField = false) (seen) :
    addFields seen e = addFieldsAll seen e.children := by
  cases e with
  | field name => simp [isField] at h
  | _ => rfl

def fieldName? : Expr → Option String
  | field name => some name
  | _ => none

def addName (seen : List String) (name : String) : List String :=
  if name ∈ seen then seen else seen ++ [name]

theorem addFields_foldl (e seen) :
    addFields seen e = (e.subterms.filterMap fieldName?).foldl addName seen := by
  induction e using children_induction generalizing seen with
  | step e ih =>
    cases hfield : e.isField with
    | true =>
      cases e with
      | field n => rfl
      | _ => simp [isField] at hfield
    | false =>
      have hname : fieldName? e = none := by
        cases e with
        | field n => simp [isField] at hfield
        | _ => rfl
      have hall : ∀ (es : List Expr) (seen : List String), (∀ c ∈ es, c ∈ e.children) →
          addFieldsAll seen es = ((subtermsAll es).filterMap fieldName?).foldl addName seen := by
        intro es
        induction es with
        | nil => simp [addFieldsAll, subtermsAll]
        | cons c es ihes =>
          intro seen hes
          rw [addFieldsAll, ihes _ fun d hd => hes d (by simp [hd]), ih c (hes c (by simp)),
            subtermsAll, filterMap_append, foldl_append]
      rw [addFields_eq hfield, hall e.children seen fun c hc => hc, subterms_eq]
      simp [hname]

theorem foldl_addName (ns seen : List String) :
    ns.foldl addName seen = seen ++ (ns.filter (· ∉ seen)).eraseDups := by
  induction ns generalizing seen with
  | nil => simp
  | cons n ns ih =>
    grind [addName, filter_filter, filter_cons_of_pos, append_assoc, singleton_append]

theorem fields_eq (e : Expr) : e.fields = (e.subterms.filterMap fieldName?).eraseDups := by
  rw [fields, addFields_foldl, foldl_addName, nil_append, filter_eq_self.mpr (by simp)]

theorem mem_fields_iff {e : Expr} : name ∈ e.fields ↔ field name ∈ e.subterms := by
  rw [fields_eq, mem_eraseDups, mem_filterMap]
  constructor
  · rintro ⟨s, hs, hname⟩
    cases s with
    | field n => exact Option.some.inj hname ▸ hs
    | _ => cases hname
  · exact fun h => ⟨_, h, rfl⟩

end Rulebook.Formula.Expr
