/-
What an exported table depends on.

Where a formula refers to another calculated field, the value stored for that field is read, and not
the one that the export writes into the next column.
-/

import Rulebook.Csv.Export
import Rulebook.Proofs.Numeral
import Rulebook.Proofs.Record
import Rulebook.Proofs.Sheet.Recursion
import Rulebook.Proofs.Workspace

open List

namespace Rulebook.Csv

open Workspace Sheet Text Sheet

/-! ### Values that come back from files of tables -/

def fieldsOf (table : Record) : List Value :=
  ((table.getD "schema" (.list [])).iterate.toOption).getD []

def Named (field : Value) (name : String) : Prop := field.entries.get? "name" = some (.str name)

def FormulaMentions (field : Value) (name : String) : Prop :=
  hasFormula field.entries = true ∧
    ∃ formula, field.entries.get "formula" = .str formula ∧
      Mentions formula.toList name.toList

def Calculated (fields : List Value) (name : String) : Prop :=
  (∃ f ∈ fields, Named f name) ∧ ∀ f ∈ fields, Named f name → hasFormula f.entries = true

/-- No calculated field depends on itself: every name has a level above the levels of what its
formulas mention. -/
def Acyclic (fields : List Value) : Prop :=
  ∃ level : String → Nat, ∀ f ∈ fields, ∀ name other, Named f name → FormulaMentions f other →
    level other < level name

/-- A row holds, for every calculated field, what its formula gives in the row. -/
def UpToDate (fields : List Value) (row : Record) : Prop :=
  ∀ f ∈ fields, hasFormula f.entries = true → ∀ name, Named f name →
    cellOf exportDialect f.entries (.dict row) = .ok (row.get name)

def AgreeOn (P : String → Prop) (row row' : Record) : Prop :=
  ∀ name, P name → row.get name = row'.get name

section

variable {fields : List Value} {f : Value} {row row' : Record}

/-- **A calculated cell** depends on the fields that its formula mentions. -/
theorem cellOf_congr_of_formula (hf : hasFormula f.entries = true)
    (h : AgreeOn (FormulaMentions f) row row') : cellOf exportDialect f.entries (.dict row) =
      cellOf exportDialect f.entries (.dict row') := by
  unfold cellOf
  simp only [hf]
  congr 1
  funext name
  cases hformula : f.entries.get "formula" with
  | str formula =>
    apply evalFormula_congr rfl
    intro name hname
    have hmentions : FormulaMentions f (.ofList name) :=
      ⟨hf, formula, hformula, by rwa [String.toList_ofList]⟩
    exact congrArg Except.ok (h _ hmentions)
  | _ => rfl

/-- **A cell** depends on the field itself, if it is entered, or on the fields that its formula
mentions. -/
theorem cellOf_congr (hentered : hasFormula f.entries = false → AgreeOn (Named f) row row')
    (hmentioned : AgreeOn (FormulaMentions f) row row') :
    cellOf exportDialect f.entries (.dict row) = cellOf exportDialect f.entries (.dict row') := by
  by_cases hf : hasFormula f.entries = true
  · exact cellOf_congr_of_formula hf hmentioned
  · have hagree := hentered (Bool.eq_false_iff.mpr hf)
    unfold cellOf Value.member
    simp only [if_neg hf]
    cases hname : Record.get? f.entries "name" with
    | none => rfl
    | some v =>
      cases v with
      | str s => exact congrArg Except.ok (hagree s hname)
      | _ => rfl

/-- **Entered values settle the results** of rows that are up to date, one level after another. -/
theorem UpToDate.get_eq (hacyclic : Acyclic fields) (h : UpToDate fields row)
    (h' : UpToDate fields row') (hentered : AgreeOn (fun name => ¬ Calculated fields name) row row')
    (name) : row.get name = row'.get name := by
  obtain ⟨level, hlevel⟩ := hacyclic
  induction hn : level name using Nat.strong_induction_on generalizing name with
  | _ n ih =>
    by_cases hcalculated : Calculated fields name
    · obtain ⟨⟨f, hf, hname⟩, hall⟩ := hcalculated
      have hformula := hall f hf hname
      have hcell : cellOf exportDialect f.entries (.dict row) =
          cellOf exportDialect f.entries (.dict row') := by
        apply cellOf_congr_of_formula hformula
        intro other hother
        exact ih _ (hn ▸ hlevel f hf name other hname hother) other rfl
      rw [h f hf hformula name hname, h' f hf hformula name hname] at hcell
      exact Except.ok.inj hcell
    · exact hentered name hcalculated

end

/-! ### Tables -/

def withRows (table : Record) (rows : List Record) : Record :=
  table.put "data" (.list (rows.map .dict))

def ReadBy (fields : List Value) (name : String) : Prop :=
  ∃ f ∈ fields, (hasFormula f.entries = false ∧ Named f name) ∨ FormulaMentions f name

theorem mapM_congr {α β : Type} {items : List α} {f g : α → Except Fault β}
    (h : ∀ x ∈ items, f x = g x) : items.mapM f = items.mapM g := by
  induction items with
  | nil => rfl
  | cons x items ih => grind

theorem forIn_congr_forall₂ {α β : Type} {items items'} {round : α → β → Run (ForInStep β)}
    (h : Forall₂ (fun x x' => round x = round x') items items') (start) :
    forIn items start round = forIn items' start round := by
  induction h generalizing start with
  | nil => rfl
  | cons hround _ ih => simp_all

theorem schema_withRows (table rows) :
    (withRows table rows).getD "schema" (.list []) = table.getD "schema" (.list []) := by
  rw [withRows, Record.getD, Record.get?_put, if_neg (by decide), Record.getD]

theorem data_withRows (table rows) :
    (withRows table rows).getD "data" (.list []) = .list (rows.map .dict) := by
  rw [withRows, Record.getD, Record.get?_put, if_pos rfl, Option.getD_some]

theorem cells_congr {fields row row'} (h : AgreeOn (ReadBy fields) row row') :
    (fields.mapM fun f => exportedText <$> cellOf exportDialect f.entries (.dict row) :
        Except Fault (List String)) =
      fields.mapM fun f => exportedText <$> cellOf exportDialect f.entries (.dict row') := by
  apply mapM_congr
  intro f hf
  rw [cellOf_congr]
  · intro hentered name hname
    exact h name ⟨f, hf, .inl ⟨hentered, hname⟩⟩
  · intro name hname
    exact h name ⟨f, hf, .inr hname⟩

theorem liftM_error_bind (fault) (next : α → Run β) :
    ((liftM (Except.error fault : Except Fault α) : Run α) >>= next) = throw fault := rfl

theorem liftM_ok (a) : (liftM (Except.ok a : Except Fault α) : Run α) = pure a := rfl

/-- **A table** depends on the fields that are entered or mentioned. -/
theorem exportTable_congr {table rows rows'}
    (h : Forall₂ (AgreeOn (ReadBy (fieldsOf table))) rows rows') (name path) :
    exportTable name (withRows table rows) path = exportTable name (withRows table rows') path := by
  have hlength := h.length_eq
  have hitems : ∀ items : List Value, (Value.list items).iterate = .ok items := fun _ => rfl
  have hsize : ∀ items : List Value, (Value.list items).size = .ok items.length := fun _ => rfl
  unfold exportTable
  rw [schema_withRows, schema_withRows, data_withRows, data_withRows]
  cases hfields : (table.getD "schema" (.list [])).iterate with
  | error fault =>
    simp [hfields, liftM_error_bind]
  | ok fields =>
    have hfieldsOf : fieldsOf table = fields := by
      rw [fieldsOf, hfields]
      rfl
    rw [hfieldsOf] at h
    simp only [hfields, hitems, hsize, length_map, hlength, liftM_ok, pure_bind]
    split
    case isTrue => rfl
    case isFalse =>
      -- the same header is written, and then the same lines
      refine bind_congr fun named => bind_congr fun _ => bind_congr fun header =>
        bind_congr fun _ => ?_
      congr 1
      apply forIn_congr_forall₂
      rw [forall₂_map_left_iff, forall₂_map_right_iff]
      refine h.imp fun row row' hagree => ?_
      simp [cells_congr hagree]

/-- **When stored results make no difference.** Take two lists of rows that agree on all that is
not calculated. Their exports are the same if the rows also agree on those results that formulas
mention, and if the results stored in them are up to date. -/
theorem export_eq_of_stored_results {table : Record} {rows rows' : List Record}
    (hentered : List.Forall₂ (AgreeOn fun name => ¬ Calculated (fieldsOf table) name) rows rows')
    (name path : String) (w : Workspace) :
    (List.Forall₂ (AgreeOn fun result => Calculated (fieldsOf table) result ∧
        ∃ f ∈ fieldsOf table, FormulaMentions f result) rows rows' →
      w.perform (exportTable name (withRows table rows) path) =
        w.perform (exportTable name (withRows table rows') path)) ∧
    (Acyclic (fieldsOf table) → (∀ row ∈ rows ++ rows', UpToDate (fieldsOf table) row) →
      w.perform (exportTable name (withRows table rows) path) =
        w.perform (exportTable name (withRows table rows') path)) := by
  have hread : ∀ {row row'}, AgreeOn (fun name => ¬ Calculated (fieldsOf table) name) row row' →
      AgreeOn (fun result => Calculated (fieldsOf table) result ∧
        ∃ f ∈ fieldsOf table, FormulaMentions f result) row row' →
      AgreeOn (ReadBy (fieldsOf table)) row row' := by
    intro row row' hentered hmentioned name hname
    by_cases hcalculated : Calculated (fieldsOf table) name
    · obtain ⟨f, hf, ⟨hplain, hnamed⟩ | hformula⟩ := hname
      · exact absurd (hcalculated.2 f hf hnamed) (Bool.eq_false_iff.mp hplain)
      · exact hmentioned name ⟨hcalculated, f, hf, hformula⟩
    · exact hentered name hcalculated
  rw [forall₂_iff_zip] at hentered
  constructor
  · intro hmentioned
    rw [forall₂_iff_zip] at hmentioned
    rw [exportTable_congr]
    exact forall₂_iff_zip.mpr
      ⟨hentered.1, fun hmem => hread (hentered.2 hmem) (hmentioned.2 hmem)⟩
  · intro hacyclic hcurrent
    rw [exportTable_congr]
    refine forall₂_iff_zip.mpr ⟨hentered.1, ?_⟩
    intro row row' hmem name _
    obtain ⟨hrow, hrow'⟩ := of_mem_zip hmem
    exact UpToDate.get_eq hacyclic (hcurrent row (mem_append_left _ hrow))
      (hcurrent row' (mem_append_right _ hrow')) (hentered.2 hmem) name

def doorFields : List Value :=
  [.dict [("name", .str "IsShut"), ("type", .str "raw")],
    .dict [("name", .str "IsOpen"), ("type", .str "calculated"),
      ("formula", .str "=NOT(\x7b\x7bIsShut\x7d\x7d)")],
    .dict [("name", .str "Notice"), ("type", .str "calculated"),
      ("formula", .str "=IF(\x7b\x7bIsOpen\x7d\x7d, \"come in\", \"closed\")")]]

def doors : Record := [("schema", .list doorFields)]

def openDoor : Record :=
  [("IsShut", .bool false), ("IsOpen", .bool true), ("Notice", .str "come in")]

def openDoorReversed : Record :=
  [("Notice", .str "come in"), ("IsOpen", .bool true), ("IsShut", .bool false)]

def exportDoors (rows : List Record) : Except Fault Nat × Workspace :=
  Workspace.perform { root := "/", here := "/" }
    (exportTable "Doors" (withRows doors rows) "doors.csv")

theorem formulaMentions_doorFields {f other} (hf : f ∈ doorFields) (h : FormulaMentions f other) :
    (f.entries.get? "name", other) ∈
      [(some (.str "IsOpen"), "IsShut"), (some (.str "Notice"), "IsOpen")] := by
  obtain ⟨hformula, formula, htext, hmentions⟩ := h
  have hmem := hmentions.mem_mentioned
  simp only [doorFields, mem_cons, not_mem_nil, or_false] at hf
  rcases hf with rfl | rfl | rfl
  · exact absurd hformula (by decide +kernel)
  all_goals
    obtain rfl := Value.str.inj htext
    first
    | rw [(by decide +kernel : mentioned _ = ["IsShut".toList]), mem_singleton] at hmem
    | rw [(by decide +kernel : mentioned _ = ["IsOpen".toList]), mem_singleton] at hmem
    obtain rfl := String.toList_inj.mp hmem
    exact mem_pair.mpr (by first | exact .inl rfl | exact .inr rfl)

theorem acyclic_doorFields : Acyclic doorFields := by
  refine ⟨fun name => if name = "Notice" then 2 else if name = "IsOpen" then 1 else 0, ?_⟩
  intro f hf name other hname hother
  have hmem := formulaMentions_doorFields hf hother
  rw [Named] at hname
  simp only [hname, mem_pair, Prod.mk.injEq, Option.some.injEq, Value.str.injEq] at hmem
  rcases hmem with ⟨rfl, rfl⟩ | ⟨rfl, rfl⟩ <;> decide

theorem upToDate_of_get {row} (h : ∀ name, row.get name = openDoor.get name) :
    UpToDate doorFields row := by
  intro f hf hformula name hname
  rw [cellOf_congr_of_formula hformula fun name _ => h name, h]
  simp only [doorFields, mem_cons, not_mem_nil, or_false] at hf
  rcases hf with rfl | rfl | rfl
  · exact absurd hformula (by decide +kernel)
  · obtain rfl : "IsOpen" = name := Value.str.inj (Option.some.inj hname)
    rfl
  · obtain rfl : "Notice" = name := Value.str.inj (Option.some.inj hname)
    rfl

theorem get_openDoorReversed (name) : openDoorReversed.get name = openDoor.get name := by
  simp only [openDoor, openDoorReversed, Record.get, Record.getD, Record.get?]
  grind

theorem calculated_notice : Calculated doorFields "Notice" := by
  constructor
  · exact ⟨_, mem_of_getLast? rfl, rfl⟩
  · intro f hf hname
    simp only [doorFields, mem_cons, not_mem_nil, or_false] at hf
    rcases hf with rfl | rfl | rfl
    · exact absurd (Value.str.inj (Option.some.inj hname)) (by decide)
    · rfl
    · rfl

theorem agreeOn_put_notice (hP : ¬ P "Notice") (v) :
    AgreeOn P (openDoor.put "Notice" v) openDoor := by
  intro name hname
  apply Record.get_put_of_ne
  rintro rfl
  exact hP hname

/-- What is stored as a notice makes no difference, since no formula mentions it; and rows that are
up to date may be written down in different orders. -/
theorem export_eq_of_stored_results_doors :
    exportDoors [openDoor.put "Notice" (.str "knock")] = exportDoors [openDoor] ∧
      Acyclic doorFields ∧ UpToDate doorFields openDoorReversed ∧ UpToDate doorFields openDoor ∧
      exportDoors [openDoorReversed] = exportDoors [openDoor] := by
  have hnotice : ¬ (Calculated doorFields "Notice" ∧
      ∃ f ∈ doorFields, FormulaMentions f "Notice") := by
    rintro ⟨-, f, hf, hmentions⟩
    simpa using formulaMentions_doorFields hf hmentions
  have hreversed := upToDate_of_get get_openDoorReversed
  have hopen : UpToDate doorFields openDoor := upToDate_of_get fun _ => rfl
  refine ⟨?_, acyclic_doorFields, hreversed, hopen, ?_⟩
  · refine (export_eq_of_stored_results ?_ _ _ _).1 ?_
    · exact .cons (agreeOn_put_notice (not_not_intro calculated_notice) _) .nil
    · exact .cons (agreeOn_put_notice hnotice _) .nil
  · refine (export_eq_of_stored_results ?_ _ _ _).2 acyclic_doorFields ?_
    · exact .cons (fun name _ => get_openDoorReversed name) .nil
    · intro row hrow
      rcases mem_pair.mp hrow with rfl | rfl
      · exact hreversed
      · exact hopen

/-- Results that are out of date do make a difference: a door stored without any is exported as open
and as closed. -/
example : doorFields.map (fun f => cellOf exportDialect f.entries
    (.dict [("IsShut", .bool false)])) = [.ok (.bool false), .ok (.bool true), .ok (.str "closed")] :=
  rfl

end Rulebook.Csv
