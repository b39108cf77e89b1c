/-
Files of constraints.

No comment is taken for a rule and no rule for a comment, whatever stands in a formula or in the
message about it, so that a file holds the rules of its tables and no others.
-/

import Rulebook.Proofs.Constraint.Rules
import Rulebook.Proofs.Record

namespace Rulebook.Constraint

open List Text Emit.Constraint
open Rulebook.Sheet (Inked)

section

variable {state : ClassTable × Option String} {classes : ClassTable} {name cls rule : String}

theorem readLine_empty : readLine state "" = state := rfl

theorem readLine_comment (s) : readLine state ("--" ++ s) = state := by
  have hstart : startsWith (trim ("--" ++ s)) "--" := by
    rw [trim_append ⟨'-', '-', rfl, rfl, by decide, by decide⟩]
    exact startsWith_append "--" _
  simp [readLine, hstart]

theorem readLine_context (hne : cls ≠ "") (h : trim cls = cls) :
    readLine state ("context " ++ cls) = (state.1.openClass cls, some cls) := by
  have hcontext : Inked "context".toList := ⟨'c', 't', rfl, rfl, by decide, by decide⟩
  have htrim : trim ("context " ++ cls) = "context " ++ cls :=
    trim_inked (by simpa using @Inked.append _ [' '] _ hcontext (inked_of_trim hne h))
  have hdrop : trim (dropFront ("context " ++ cls) 8) = cls := by
    rw [show 8 = "context ".length from rfl, dropFront_append, h]
  have hcomment : startsWith ("context " ++ cls) "--" = false := by
    simp [startsWith, isPrefixOf]
  have hne : ("context " ++ cls).isEmpty = false := by simp
  rw [readLine, htrim, hne, hcomment, Bool.or_self, if_neg Bool.false_ne_true,
    if_pos (startsWith_append _ _), hdrop]

theorem inked_colon (h : trim name = name) : Inked (name ++ ":").toList := by
  have hcolon : Inked [':'] := ⟨':', ':', rfl, rfl, by decide, by decide⟩
  by_cases hne : name = ""
  · simpa [hne] using hcolon
  · simpa using @Inked.append _ [] _ (inked_of_trim hne h) hcolon

theorem readLine_rule (hcolon : ':' ∉ name.toList) (h : trim name = name) (rule) :
    readLine (classes, some cls) ("derive " ++ name ++ ": " ++ rule) =
      (classes.derive cls name (trim rule), some cls) := by
  have hderive : Inked ("derive " ++ (name ++ ":")).toList := by
    have hword : Inked "derive".toList := ⟨'d', 'e', rfl, rfl, by decide, by decide⟩
    simpa using @Inked.append _ [' '] _ hword (inked_colon h)
  have htrim : trim ("derive " ++ name ++ ": " ++ rule) =
      "derive " ++ (name ++ ":" ++ trimEnd (" " ++ rule)) := by
    have hline : "derive " ++ name ++ ": " ++ rule =
        "derive " ++ (name ++ ":") ++ (" " ++ rule) := by
      rw [show ": " = ":" ++ " " from rfl]
      simp only [String.append_assoc]
    rw [hline, trim_append hderive, String.append_assoc]
  have hcut : cutOnce (trim (dropFront ("derive " ++ (name ++ ":" ++ trimEnd (" " ++ rule))) 7))
      ":" = some (name, trimEnd (trimEnd (" " ++ rule))) := by
    rw [show 7 = "derive ".length from rfl, dropFront_append, trim_append (inked_colon h),
      cutOnce_colon hcolon]
  have hne : ("derive " ++ (name ++ ":" ++ trimEnd (" " ++ rule))).isEmpty = false := by simp
  have hother : ∀ lead ∈ ["--", "context "],
      startsWith ("derive " ++ (name ++ ":" ++ trimEnd (" " ++ rule))) lead = false := by
    simp [startsWith, isPrefixOf]
  rw [readLine, htrim, hne, hother "--" (by simp), Bool.or_self, if_neg Bool.false_ne_true,
    hother "context " (by simp), if_neg Bool.false_ne_true, if_pos (startsWith_append _ _), hcut]
  simp only [h, trim_trimEnd, trim_space]

end

/-! ### What the lines of a table are read as -/

def rulesOf (c : Column) : Derivations :=
  match ofColumn c with
  | .ok rule => [(c.name, trim rule)]
  | .error _ => []

abbrev derived (t : Table) : List Column := t.columns.filter Column.isDerived

/-- The rules of the columns whose formulas can be written as rules. -/
def compiled (t : Table) : Derivations := (derived t).flatMap rulesOf

/-- A column whose name and rule stand on one line and are told apart by a colon. -/
structure Plain (c : Column) : Prop where
  unbroken : Unbroken c.name
  colon : ':' ∉ c.name.toList
  trimmed : trim c.name = c.name
  formula : ∃ s, c.formula = .str s ∧
    ∀ e, Formula.parse s = .ok e → ∀ x ∈ e.subterms, OnOneLine x

def ReadAs (lines : List String) (ds : Derivations) : Prop :=
  (∀ l ∈ lines, Unbroken l) ∧ ∀ (classes : ClassTable) (cls : String),
    lines.foldl readLine (classes, some cls) =
      (ds.foldl (fun classes d => classes.derive cls d.1 d.2) classes, some cls)

section

variable {lines lines' : List String} {ds ds' : Derivations} {c : Column} {s : String}

theorem ReadAs.nil : ReadAs [] [] := ⟨by simp, fun _ _ => rfl⟩

theorem ReadAs.append (h : ReadAs lines ds) (h' : ReadAs lines' ds') :
    ReadAs (lines ++ lines') (ds ++ ds') :=
  ⟨forall_mem_append.mpr ⟨h.1, h'.1⟩, fun classes cls => by
    rw [foldl_append, foldl_append, h.2, h'.2]⟩

theorem readAs_empty : ReadAs [""] [] := ⟨by simp; decide, fun _ _ => rfl⟩

theorem readAs_comment (h : Unbroken s) : ReadAs ["--" ++ s] [] :=
  ⟨forall_mem_singleton.mpr (.append (by decide) h), fun _ _ => by
    rw [foldl_cons, foldl_nil, foldl_nil, readLine_comment]⟩

theorem readAs_rule (h : Plain c) (hs : Unbroken s) :
    ReadAs ["derive " ++ c.name ++ ": " ++ s] [(c.name, trim s)] :=
  ⟨forall_mem_singleton.mpr (.append (.append (.append (by decide) h.unbroken) (by decide)) hs),
    fun _ _ => by
      rw [foldl_cons, foldl_nil, readLine_rule h.colon h.trimmed, foldl_cons, foldl_nil]⟩

theorem unbroken_replace (s) : Unbroken (replace s "\n" " ") := by
  rw [Unbroken, Text.replace, String.toList_ofList]
  have hchars := replaceChars_singleton '\n' [' '] s.toList
  rw [show "\n".toList = ['\n'] from rfl, show " ".toList = [' '] from rfl, hchars, mem_flatMap]
  rintro ⟨c, -, hmem⟩
  split at hmem
  · simp at hmem
  · next hc => exact hc (mem_singleton.mp hmem).symm

theorem columnLines_readAs (h : Plain c) :
    ∃ lines, columnLines c = .ok lines ∧ ReadAs lines (rulesOf c) := by
  obtain ⟨s, hs, hlines⟩ := h.formula
  have hshown : c.formulaLine = .ok (replace s "\n" " ") := by
    simp only [Column.formulaLine, hs, Value.asText, ok_bind]
    rfl
  have hformula : Unbroken (replace s "\n" " ") := unbroken_replace s
  simp only [columnLines, hshown, ok_bind, rulesOf]
  cases hcolumn : ofColumn c with
  | ok rule =>
    have hrule := unbroken_of_ofColumn hs hlines hcolumn
    have hcomment : ReadAs ["-- Formula: " ++ replace s "\n" " "] [] := by
      simpa [← String.append_assoc] using
        readAs_comment (s := " Formula: " ++ replace s "\n" " ") (.append (by decide) hformula)
    exact ⟨_, rfl, hcomment.append ((readAs_rule h hrule).append readAs_empty)⟩
  | error f =>
    have hmessage := unbroken_of_ofColumn_error hs hcolumn
    have hwhy : ReadAs ["-- Formula for " ++ c.name ++ " - parse error: " ++ f.message] [] := by
      simpa [← String.append_assoc] using
        readAs_comment (s := " Formula for " ++ c.name ++ " - parse error: " ++ f.message)
          (.append (.append (.append (by decide) h.unbroken) (by decide)) hmessage)
    have hcomment : ReadAs ["-- Original: " ++ replace s "\n" " "] [] := by
      simpa [← String.append_assoc] using
        readAs_comment (s := " Original: " ++ replace s "\n" " ") (.append (by decide) hformula)
    exact ⟨_, rfl, hwhy.append (hcomment.append readAs_empty)⟩

theorem mapM_columnLines {cs : List Column} (h : ∀ c ∈ cs, Plain c) :
    ∃ body, cs.mapM columnLines = .ok body ∧ ReadAs body.flatten (cs.flatMap rulesOf) := by
  induction cs with
  | nil => exact ⟨[], rfl, .nil⟩
  | cons c cs ih =>
    rw [forall_mem_cons] at h
    obtain ⟨lines, hlines, hread⟩ := columnLines_readAs h.1
    obtain ⟨body, hbody, hrest⟩ := ih h.2
    exact ⟨lines :: body, by rw [mapM_cons, hlines, hbody]; rfl, hread.append hrest⟩

end

/-! ### Tables -/

def hasRules (t : Table) : Bool := t.columns.any Column.isDerived

def collected (ds : Derivations) : Derivations := ds.foldl (fun rules d => rules.put d.1 d.2) []

/-- A table whose name and columns can be read back from lines. -/
structure Legible (t : Table) : Prop where
  nonempty : t.name ≠ ""
  unbroken : Unbroken t.name
  trimmed : trim t.name = t.name
  columns : ∀ c ∈ t.columns, c.isDerived → Plain c

section

variable {t : Table} {ts : List Table} {classes : ClassTable} {cls a : String}

theorem lookup_put (ds : Derivations) (name text) :
    (ds.put name text).lookup a = if a = name then some text else ds.lookup a := by
  induction ds with
  | nil => grind [Derivations.put, putBy, lookup]
  | cons d ds ih => grind [Derivations.put, putBy, lookup]

theorem lookup_collected (ds) : (collected ds).lookup a = ds.reverse.lookup a := by
  induction ds using reverseRecOn with
  | nil => rfl
  | append_singleton ds d ih =>
    grind [collected, lookup_put, reverse_append, beq_false_of_ne]

theorem derive_append (h : classes.lookup cls = none) (ds name text) :
    ClassTable.derive (classes ++ [(cls, ds)]) cls name text =
      classes ++ [(cls, ds.put name text)] := by
  rw [lookup_eq_none_iff_notMem] at h
  have hother : ∀ c ∈ classes,
      (if c.1 = cls then (c.1, Derivations.put c.2 name text) else c) = c := fun c hc =>
    if_neg fun heq : c.1 = cls => h (heq ▸ mem_map_of_mem hc)
  rw [ClassTable.derive, map_append, map_congr_left hother, map_id']
  simp

theorem foldl_derive (h : classes.lookup cls = none) (new ds : Derivations) :
    new.foldl (fun classes d => ClassTable.derive classes cls d.1 d.2) (classes ++ [(cls, ds)]) =
      classes ++ [(cls, new.foldl (fun rules d => rules.put d.1 d.2) ds)] := by
  induction new generalizing ds with
  | nil => rfl
  | cons d new ih => rw [foldl_cons, derive_append h, ih, foldl_cons]

theorem openClass_of_none (h : classes.lookup cls = none) :
    classes.openClass cls = classes ++ [(cls, [])] := by
  simp [ClassTable.openClass, h]

def classesOf (ts : List Table) : ClassTable :=
  (ts.filter hasRules).map fun t => (t.name, collected (compiled t))

theorem classesOf_names (ts) :
    (classesOf ts).map Prod.fst = (ts.filter hasRules).map Table.name := by
  rw [classesOf, map_map]
  rfl

theorem tableLines_reads (h : Legible t) : ∃ lines, tableLines t = .ok lines ∧
    (∀ l ∈ lines, Unbroken l) ∧ ∀ classes o, classes.lookup t.name = none →
        ∃ o', lines.foldl readLine (classes, o) = (classes ++ classesOf [t], o') := by
  have hderived : (derived t).isEmpty = !hasRules t := by
    rw [hasRules, Bool.eq_iff_iff]
    simp
  cases hrules : hasRules t with
  | false =>
    refine ⟨[], ?_, by simp, fun classes o _ => ⟨o, by simp [classesOf, hrules]⟩⟩
    simp only [tableLines, hderived, hrules]
    rfl
  | true =>
    have hplain : ∀ c ∈ derived t, Plain c := fun c hc =>
      h.columns c (mem_filter.mp hc).1 (mem_filter.mp hc).2
    obtain ⟨body, hbody, hread⟩ := mapM_columnLines hplain
    refine ⟨["context " ++ t.name, ""] ++ body.flatten, ?_, ?_,
      fun classes o hnew => ⟨some t.name, ?_⟩⟩
    · simp only [tableLines, hderived, hrules, hbody]
      rfl
    · have hcontext : Unbroken ("context " ++ t.name) := .append (by decide) h.unbroken
      refine forall_mem_append.mpr ⟨forall_mem_cons.mpr ⟨hcontext, ?_⟩, hread.1⟩
      exact forall_mem_singleton.mpr (by decide)
    · rw [foldl_append, foldl_cons, foldl_cons, foldl_nil, readLine_context h.nonempty h.trimmed,
        readLine_empty, openClass_of_none hnew, hread.2, foldl_derive hnew]
      simp [classesOf, hrules, collected, compiled]

theorem mapM_tableLines (h : ∀ t ∈ ts, Legible t) (hnames : (ts.map Table.name).Nodup) :
    ∃ body, ts.mapM tableLines = .ok body ∧ (∀ l ∈ body.flatten, Unbroken l) ∧
      ∀ classes o, (∀ t ∈ ts, classes.lookup t.name = none) →
        (body.flatten.foldl readLine (classes, o)).1 = classes ++ classesOf ts := by
  induction ts with
  | nil => exact ⟨[], rfl, by simp, fun classes o _ => by simp [classesOf]⟩
  | cons t ts ih =>
    rw [forall_mem_cons] at h
    rw [map_cons, nodup_cons] at hnames
    obtain ⟨lines, hlines, hunbroken, hread⟩ := tableLines_reads h.1
    obtain ⟨body, hbody, hunbroken', hrest⟩ := ih h.2 hnames.2
    refine ⟨lines :: body, by rw [mapM_cons, hlines, hbody]; rfl,
      forall_mem_append.mpr ⟨hunbroken, hunbroken'⟩, fun classes o hnew => ?_⟩
    rw [forall_mem_cons] at hnew
    have hlater : ∀ t' ∈ ts, (classes ++ classesOf [t]).lookup t'.name = none := by
      intro t' ht'
      have hold := lookup_eq_none_iff_notMem.mp (hnew.2 t' ht')
      rw [lookup_eq_none_iff_notMem, map_append, mem_append, not_or, classesOf_names]
      refine ⟨hold, fun hmem => hnames.1 ?_⟩
      obtain ⟨t'', ht'', heq⟩ := mem_map.mp hmem
      rw [← mem_singleton.mp (mem_of_mem_filter ht''), heq]
      exact mem_map_of_mem ht'
    obtain ⟨o', hstep⟩ := hread classes o hnew.1
    rw [flatten_cons, foldl_append, hstep, hrest _ o' hlater, append_assoc]
    rw [classesOf, classesOf, ← map_append, ← filter_append, singleton_append, classesOf]

theorem readClasses_eq (h : ∀ t ∈ ts, Legible t) (hnames : (ts.map Table.name).Nodup) :
    ∃ text, document ts = .ok text ∧ readClasses text = classesOf ts := by
  obtain ⟨body, hbody, hunbroken, hread⟩ := mapM_tableLines h hnames
  refine ⟨_, by rw [document, hbody]; rfl, ?_⟩
  rw [readClasses, cut_join (by simp), foldl_append]
  · have hlead : (["-- OCL Constraints for ERB", "-- Generated from effortless-rulebook.json",
        ""]).foldl readLine ([], none) = ([], none) := by cbv
    rw [hlead, hread [] none (by simp), nil_append]
  · exact forall_mem_append.mpr ⟨by decide, hunbroken⟩

/-! ### Maps of tables -/

variable {tables : Record}

theorem name_of_ofValue {name v} (h : Table.ofValue name v = .ok t) : t.name = name := by
  obtain ⟨entries, -, h⟩ := bind_eq_ok_iff.mp h
  obtain ⟨schema, -, h⟩ := bind_eq_ok_iff.mp h
  obtain ⟨columns, -, h⟩ := bind_eq_ok_iff.mp h
  dsimp only at h
  split at h
  all_goals
    obtain ⟨rows, -, h⟩ := bind_eq_ok_iff.mp h
    cases h
    rfl

/-- A described entry of a map of tables, and the table that it stands for. -/
def IsTable (tables : Record) (name : String) (t : Table) : Prop :=
  isDescribed name ∧ ∃ v, (name, v) ∈ tables ∧ Table.ofValue name v = .ok t

theorem mem_tablesOf (h : tablesOf tables = .ok ts) :
    t ∈ ts ↔ IsTable tables t.name t ∧ t.columns ≠ [] := by
  obtain ⟨read, hread, h⟩ := bind_eq_ok_iff.mp h
  cases h
  simp only [mem_filter, mem_iff_of_mapM hread, mem_mergeSort, IsTable]
  constructor
  · rintro ⟨⟨⟨name, v⟩, ⟨hmem, hdescribed⟩, ht⟩, hcolumns⟩
    obtain rfl := name_of_ofValue ht
    exact ⟨⟨hdescribed, v, hmem, ht⟩, by simpa using hcolumns⟩
  · grind

theorem nodup_tablesOf (hkeys : (tables.map Prod.fst).Nodup) (h : tablesOf tables = .ok ts) :
    (ts.map Table.name).Nodup := by
  obtain ⟨read, hread, h⟩ := bind_eq_ok_iff.mp h
  cases h
  refine Nodup.sublist (filter_sublist.map _) ?_
  rw [map_eq_of_mapM (fun e t => name_of_ofValue) hread]
  exact (((mergeSort_perm tables _).map Prod.fst).nodup_iff.mpr hkeys).sublist
    (filter_sublist.map _)

/-- **Files of constraints.** The constraints of tables with legible names are read back as the
classes of exactly those tables that are described and have a formula. Each has the rules of the
columns whose formulas can be written as rules, the last one if a name comes twice. -/
theorem readClasses_document {tables : Record} {ts : List Table}
    (hkeys : (tables.map Prod.fst).Nodup) (hts : tablesOf tables = .ok ts)
    (hlegible : ∀ t ∈ ts, Legible t) : ∃ text, document ts = .ok text ∧
      (∀ name, ((readClasses text).lookup name).isSome ↔
        ∃ t, IsTable tables name t ∧ t.columns.any Column.isDerived) ∧
      ∀ name t, IsTable tables name t → t.columns.any Column.isDerived →
        ∃ rules, (readClasses text).lookup name = some rules ∧
          ∀ a, rules.lookup a = (compiled t).reverse.lookup a := by
  have hnames := nodup_tablesOf hkeys hts
  obtain ⟨text, htext, hread⟩ := readClasses_eq hlegible hnames
  have hkept : ∀ name t, IsTable tables name t → hasRules t → t.name = name ∧ t ∈ ts := by
    intro name t ht hrules
    obtain rfl : t.name = name := by
      obtain ⟨-, v, -, hv⟩ := ht
      exact name_of_ofValue hv
    refine ⟨rfl, (mem_tablesOf hts).mpr ⟨ht, fun hnil => ?_⟩⟩
    simp [hasRules, hnil] at hrules
  have hrules : ∀ name t, IsTable tables name t → hasRules t →
      (readClasses text).lookup name = some (collected (compiled t)) := by
    intro name t ht hrules
    obtain ⟨rfl, hmem⟩ := hkept name t ht hrules
    rw [hread]
    refine lookup_of_mem ?_ (mem_map_of_mem (mem_filter.mpr ⟨hmem, hrules⟩))
    rw [classesOf_names]
    exact hnames.sublist (filter_sublist.map _)
  refine ⟨text, htext, fun name => ⟨fun h => ?_, ?_⟩, fun name t ht hany => ?_⟩
  · obtain ⟨rules, hlookup⟩ := Option.isSome_iff_exists.mp h
    obtain ⟨before, behind, hclasses, -⟩ := lookup_eq_some_iff.mp hlookup
    have hmem : (name, rules) ∈ classesOf ts := by rw [← hread, hclasses]; simp
    obtain ⟨t, ht, heq⟩ := mem_map.mp hmem
    obtain ⟨rfl, -⟩ := Prod.mk.inj heq
    exact ⟨t, ((mem_tablesOf hts).mp (mem_filter.mp ht).1).1, (mem_filter.mp ht).2⟩
  · rintro ⟨t, ht, hany⟩
    simp [hrules name t ht hany]
  · exact ⟨_, hrules name t ht hany, fun a => lookup_collected _⟩

end

def totalColumn : Column where
  name := "Total"
  formula := .str "=1"
  entries := [("name", .str "Total"), ("formula", .str "=1")]

def orderTables : Record :=
  [("Orders", .dict [("schema", .list [.dict totalColumn.entries])]), ("_notes", .dict [])]

theorem readClasses_document_orders : (orderTables.map Prod.fst).Nodup ∧
    ∃ ts, tablesOf orderTables = .ok ts ∧ (∀ t ∈ ts, Legible t) ∧
      ∃ text rules, document ts = .ok text ∧ (readClasses text).lookup "_notes" = none ∧
        (readClasses text).lookup "Orders" = some rules ∧
          rules.lookup "Total" = some "1" ∧ rules.lookup "Rest" = none := by
  let orders : Table := ⟨"Orders", [totalColumn], []⟩
  have hkeys : (orderTables.map Prod.fst).Nodup := by decide
  have hts : tablesOf orderTables = .ok [orders] := by cbv
  have htotal : Plain totalColumn := by
    refine ⟨by decide, by decide, by cbv, "=1", rfl, fun e he => ?_⟩
    have hparse : Formula.parse "=1" = .ok (.int 1) := by cbv
    rw [hparse] at he
    cases he
    exact forall_mem_singleton.mpr trivial
  have hlegible : ∀ t ∈ [orders], Legible t := forall_mem_singleton.mpr
    ⟨by decide, by decide, by cbv, fun c hc _ => forall_mem_singleton.mpr htotal c hc⟩
  obtain ⟨text, htext, hclasses, hrules⟩ := readClasses_document hkeys hts hlegible
  have horders : IsTable orderTables "Orders" orders := ⟨by decide, _, (.head _), by cbv⟩
  obtain ⟨rules, hlookup, hcolumns⟩ := hrules "Orders" orders horders (by cbv)
  refine ⟨hkeys, [orders], hts, hlegible, text, rules, htext, ?_, hlookup, ?_, ?_⟩
  · rw [← Option.not_isSome_iff_eq_none, hclasses]
    rintro ⟨t, ⟨hdescribed, -⟩, -⟩
    exact absurd hdescribed (by decide)
  · rw [hcolumns]
    cbv
  · rw [hcolumns]
    cbv

end Rulebook.Constraint
