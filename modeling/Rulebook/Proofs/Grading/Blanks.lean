/-
Blank tests show nothing of the answers.

A blank test is made from an answer key, and a substrate that is tested reads it.
-/

import Rulebook.Proofs.Grading.Accounts

open List

namespace Rulebook.Workspace

theorem ends_filterMapM {α β : Type} {items : List α} {f sel}
    {R : α → β → Prop} {w} (h : ∀ x ∈ items, ∀ w,
      Ends w (f x) (fun o _ => Forall₂ R ([x].filter sel) o.toList) fun _ _ => True) :
    Ends w (items.filterMapM f) (fun found _ => Forall₂ R (items.filter sel) found)
      fun _ _ => True := by
  induction items generalizing w with
  | nil => exact .nil
  | cons x items ih =>
    obtain ⟨hx, hitems⟩ := forall_mem_cons.mp h
    rw [filterMapM_cons, ends_bind]
    refine (hx w).imp ?_ fun _ _ h => h
    intro o w' ho
    have hall : ∀ found, Forall₂ R (items.filter sel) found →
        Forall₂ R ((x :: items).filter sel) (o.toList ++ found) := by
      intro found hfound
      rw [← singleton_append, filter_append]
      exact rel_append ho hfound
    cases o with
    | none => exact (ih hitems).imp (fun found _ => hall found) fun _ _ h => h
    | some b =>
      rw [ends_bind]
      exact (ih hitems).imp (fun found _ => hall found) fun _ _ h => h

end Rulebook.Workspace

namespace Rulebook.Grading

open Schema Workspace

/-! ### Records -/

/-- Records with the same keys, and with the same values outside of some columns. -/
def AgreeOutside (columns : List String) : Record → Record → Prop :=
  Forall₂ fun e e' => e.1 = e'.1 ∧ (e.1 ∉ columns → e.2 = e'.2)

/-- A record with the keys of another, null in some columns and equal to it on every other one. -/
structure IsBlankOf (columns : List String) (blank r : Record) : Prop where
  keys : blank.keys = r.keys
  computed : ∀ k ∈ columns, blank.get k = .null
  other : ∀ k, k ∉ columns → blank.get? k = r.get? k

theorem blankRecord_congr (h : AgreeOutside columns r r') :
    blankRecord columns r = blankRecord columns r' := by
  induction h with
  | nil => rfl
  | @cons e e' r r' he _ ih =>
    obtain ⟨k, v⟩ := e
    obtain ⟨k', v'⟩ := e'
    obtain ⟨rfl, hvalue⟩ : k = k' ∧ (k ∉ columns → v = v') := he
    have hentry : (if columns.contains k then Value.null else v) =
        if columns.contains k then .null else v' := by
      by_cases hk : k ∈ columns
      · simp [hk]
      · simp [hvalue hk]
    exact congrArg₂ List.cons (congrArg (Prod.mk k) hentry) ih

theorem get?_blankRecord (columns r k) :
    (blankRecord columns r).get? k = (r.get? k).map fun v => if k ∈ columns then .null else v := by
  induction r with
  | nil => rfl
  | cons e r ih =>
    change lookup k ((e.1, _) :: blankRecord columns r) = (lookup k (e :: r)).map _
    rw [lookup_cons, lookup_cons]
    by_cases hk : k = e.1
    · simp [hk]
    · rw [beq_false_of_ne hk]
      exact ih

theorem isBlankOf_blankRecord (columns r) : IsBlankOf columns (blankRecord columns r) r where
  keys := by simp [Record.keys, blankRecord]
  computed k hk := by
    rw [Record.get, Record.getD, get?_blankRecord]
    cases r.get? k <;> simp [hk]
  other k hk := by
    rw [get?_blankRecord]
    simp [hk]

/-! ### Entities -/

def columnsOf (book : Record) (entity : String) : Except Fault (List String) :=
  schemaOf .close book entity >>= computedColumns

def hasColumns (book : Record) (entity : String) : Bool :=
  match columnsOf book entity with
  | .ok columns => !columns.isEmpty
  | .error _ => false

/-- Answers of one entity that agree on all columns but the computed ones. -/
def SameQuestions (book : Record) (p p' : String × Value) : Prop :=
  p.1 = p'.1 ∧ ∃ rs rs' : List Record, p.2 = .list (rs.map .dict) ∧ p'.2 = .list (rs'.map .dict) ∧
    ∀ columns, columnsOf book p.1 = .ok columns → Forall₂ (AgreeOutside columns) rs rs'

/-- The test of an entity: its columns, and for each record of the key one with nulls. -/
def IsTestOf (book : Record) (p : String × Value) (t : BlankTest) : Prop :=
  t.entity = p.1 ∧ columnsOf book p.1 = .ok t.columns ∧
    ∀ rs : List Record, p.2 = .list (rs.map .dict) →
      Forall₂ (IsBlankOf t.columns) t.records rs

theorem mapM_toRecord (rs : List Record) : (rs.map Value.dict).mapM Value.toRecord = .ok rs := by
  induction rs with
  | nil => rfl
  | cons r rs ih =>
    rw [map_cons, mapM_cons, ih]
    rfl

/-- **Computed columns have no effect** on the blank test of an entity. -/
theorem blankTest_congr (h : SameQuestions book p p') :
    blankTest book p.1 p.2 = blankTest book p'.1 p'.2 := by
  obtain ⟨entity, answers⟩ := p
  obtain ⟨entity', answers'⟩ := p'
  obtain ⟨rfl, rs, rs', rfl, rfl, hagree⟩ := h
  simp only [blankTest, Value.iterate, ok_bind, mapM_toRecord]
  cases hschema : schemaOf .close book entity with
  | error f => rfl
  | ok schema =>
    rw [ok_bind, ok_bind]
    cases hcolumns : computedColumns schema with
    | error f => rfl
    | ok columns =>
      have hblank : rs.map (blankRecord columns) = rs'.map (blankRecord columns) := by
        have hrecords := hagree columns (by rw [columnsOf, hschema, ok_bind, hcolumns])
        rw [← forall₂_eq_eq_eq, forall₂_map_left_iff, forall₂_map_right_iff]
        exact hrecords.imp fun _ _ => blankRecord_congr
      rw [ok_bind, ok_bind, hblank]

theorem isTestOf_of_blankTest (h : blankTest book p.1 p.2 = .ok o) :
    Forall₂ (IsTestOf book) ([p].filter fun p => hasColumns book p.1) o.toList := by
  obtain ⟨schema, hschema, h⟩ := bind_eq_ok_iff.mp h
  obtain ⟨columns, hcolumns, h⟩ := bind_eq_ok_iff.mp h
  obtain ⟨key?, hkey, h⟩ := bind_eq_ok_iff.mp h
  have hof : columnsOf book p.1 = .ok columns := by rw [columnsOf, hschema, ok_bind, hcolumns]
  cases columns with
  | nil =>
    obtain rfl : o = none := by cases key? <;> cases h <;> rfl
    rw [filter_singleton, hasColumns, hof]
    exact .nil
  | cons c cs =>
    cases key? with
    | none => exact absurd hkey (primaryKey_ne_none hcolumns (cons_ne_nil c cs))
    | some key =>
      obtain ⟨items, hitems, h⟩ := bind_eq_ok_iff.mp h
      obtain ⟨records, hrecords, h⟩ := bind_eq_ok_iff.mp h
      cases h
      rw [filter_singleton, hasColumns, hof]
      refine .cons ⟨rfl, hof, ?_⟩ .nil
      intro rs hrs
      rw [hrs] at hitems
      cases hitems
      cases hrecords.symm.trans (mapM_toRecord rs)
      rw [forall₂_map_left_iff]
      exact forall₂_same.mpr fun r _ => isBlankOf_blankRecord _ r

/-! ### All entities -/

theorem filterMapM_congr {α β : Type} {f : α → Run (Option β)} {items items'}
    (h : Forall₂ (fun x x' => f x = f x') items items') :
    items.filterMapM f = items'.filterMapM f := by
  induction h with
  | nil => rfl
  | cons hx _ ih => rw [filterMapM_cons, filterMapM_cons, hx, ih]

-- commands are taken apart by lemmas only: unfolding them all is slow
attribute [local irreducible] Ends

theorem ends_writeBlankTest (book folder p w) : Ends w (writeBlankTest book folder p) (fun o _ =>
      Forall₂ (IsTestOf book) ([p].filter fun p => hasColumns book p.1) o.toList)
      fun _ _ => True := by
  unfold writeBlankTest
  rw [ends_bind, ends_lift]
  refine ⟨fun o ho => ?_, fun _ _ => trivial⟩
  have htest := isTestOf_of_blankTest ho
  cases o with
  | none => exact ends_bind_of_forall fun _ w => (ends_pure none).mpr htest
  | some t =>
    refine ends_bind_of_forall fun _ w => ?_
    exact ends_bind_of_forall fun _ w => (ends_pure (some t)).mpr htest

theorem ends_writeBlankTests (keys book w) : Ends w (writeBlankTests keys book) (fun tests _ =>
      Forall₂ (IsTestOf book) (keys.filter fun p => hasColumns book p.1) tests)
      fun _ _ => True := by
  refine ends_bind_of_forall fun _ w => ?_
  refine ends_bind_of_forall fun folder w => ?_
  refine ends_bind_of_forall fun _ w => ?_
  rw [ends_bind]
  refine (ends_filterMapM fun p _ w => ends_writeBlankTest book folder p w).imp ?_ fun _ _ h => h
  intro tests w htests
  refine ends_bind_of_forall fun _ w => ?_
  refine ends_bind_of_forall fun _ w => ?_
  exact ends_bind_of_forall fun _ w => (ends_pure tests).mpr htests

/-- **Blank tests show nothing of the answers.** For answer keys that differ in computed columns
only the same tests are written, with the same messages, or writing fails in the same way. There is
then one test for each entity with computed columns, with the records of the key but for nulls in
these. -/
theorem perform_writeBlankTests_congr {book keys keys' : Record}
    (h : List.Forall₂ (SameQuestions book) keys keys') (w : Workspace) :
    w.perform (writeBlankTests keys book) = w.perform (writeBlankTests keys' book) ∧
    ∀ tests w', w.perform (writeBlankTests keys book) = (.ok tests, w') →
      List.Forall₂ (IsTestOf book) (keys.filter fun p => hasColumns book p.1) tests := by
  constructor
  · have hloop : ∀ folder, keys.filterMapM (writeBlankTest book folder) =
        keys'.filterMapM (writeBlankTest book folder) := by
      intro folder
      refine filterMapM_congr (h.imp fun p p' hp => ?_)
      rw [writeBlankTest, writeBlankTest, blankTest_congr hp, hp.1]
    simp only [writeBlankTests, hloop]
  · intro tests w' hrun
    exact (ends_writeBlankTests keys book w).of_perform hrun

def orderBook : Record :=
  [("Orders", .dict [("schema", .list [.dict [("name", .str "OrderId"), ("type", .str "raw")],
    .dict [("name", .str "Total"), ("type", .str "calculated")]])])]

def orderKey (total : Int) : Record :=
  [("orders", .list [.dict [("order_id", .int 1), ("total", .int total)]])]

theorem perform_writeBlankTests_congr_orderKey : hasColumns orderBook "orders" ∧
    List.Forall₂ (SameQuestions orderBook) (orderKey 5) (orderKey 7) ∧ ∀ w : Workspace,
      w.perform (writeBlankTests (orderKey 5) orderBook) =
        w.perform (writeBlankTests (orderKey 7) orderBook) := by
  have hcolumns : columnsOf orderBook "orders" = .ok ["total"] := by cbv
  have hsame : Forall₂ (SameQuestions orderBook) (orderKey 5) (orderKey 7) := by
    refine .cons ⟨rfl, [[("order_id", .int 1), ("total", .int 5)]],
      [[("order_id", .int 1), ("total", .int 7)]], rfl, rfl, ?_⟩ .nil
    intro columns h
    cases hcolumns.symm.trans h
    exact .cons (.cons ⟨rfl, fun _ => rfl⟩ (.cons ⟨rfl, by simp⟩ .nil)) .nil
  refine ⟨by rw [hasColumns, hcolumns]; rfl, hsame, ?_⟩
  intro w
  exact (perform_writeBlankTests_congr hsame w).1

end Rulebook.Grading
