/-
The order in which rules are evaluated.

A rule waits for every attribute whose name begins what stands behind a `self.` in it, in any letter
case. A circle of such mentions leaves all rules as they are written.
-/

import Rulebook.Proofs.Constraint.File
import Rulebook.Proofs.Constraint.Translation

namespace Rulebook.Constraint

open List Text

/-! ### Taking attributes one by one -/

section

variable {deps : List (String × List String)} {done pending : List String} {a b : String}

theorem least_mem {names} (h : least names = some a) : a ∈ names := by
  induction names generalizing a with
  | nil => cases h
  | cons b names ih =>
    rw [least] at h
    cases hrest : least names <;> grind

theorem least_eq_none {names} (h : least names = none) : names = [] := by
  cases names with
  | nil => rfl
  | cons b names =>
    rw [least] at h
    split at h <;> cases h

/-- **The run.** What is taken are attributes not taken before, each once and each after those it
waits for, and in the end all that wait for none but attributes taken. -/
theorem orderGo_spec (fuel) (hpending : pending.Nodup) :
    ∃ taken, orderGo deps fuel done pending = done ++ taken ∧ taken.Nodup ∧ taken ⊆ pending ∧
      (∀ a ∈ taken, ∀ b ∈ (deps.lookup a).getD [], b ∈ done ∨ [b, a].Sublist taken) ∧
      (pending.length ≤ fuel → ∀ a ∈ pending,
        (∀ b ∈ (deps.lookup a).getD [], b ∈ done ++ taken) → a ∈ taken) := by
  induction fuel generalizing done pending with
  | zero => simp_all [orderGo, length_eq_zero_iff.mp]
  | succ fuel ih =>
    rw [orderGo]
    cases hleast : least (pending.filter fun a => ((deps.lookup a).getD []).all (· ∈ done)) with
    | none =>
      refine ⟨[], by simp, .nil, by simp, by simp, fun _ a ha hdone => ?_⟩
      have hready := filter_eq_nil_iff.mp (least_eq_none hleast) a ha
      exact absurd (by simpa using hdone) hready
    | some a =>
      obtain ⟨ha, hready⟩ := mem_filter.mp (least_mem hleast)
      obtain ⟨taken, htaken, hnodup, hsub, horder, hall⟩ :=
        @ih (done ++ [a]) (pending.filter (· ≠ a)) (hpending.filter _)
      have hrest : ∀ b ∈ taken, b ∈ pending ∧ b ≠ a := fun b hb => by simpa using hsub hb
      refine ⟨a :: taken, by simpa using htaken, ?_, ?_, ?_, ?_⟩
      · exact nodup_cons.mpr ⟨fun h => (hrest a h).2 rfl, hnodup⟩
      · exact cons_subset.mpr ⟨ha, fun b hb => (hrest b hb).1⟩
      · grind
      · intro hlength b hb hdone
        by_cases hba : b = a
        · exact hba ▸ (.head _)
        · have hless : (pending.filter (· ≠ a)).length < pending.length :=
            length_filter_lt_length_iff_exists.mpr ⟨a, ha, by simp⟩
          exact mem_cons_of_mem _ (hall (by omega) b (by simp [hb, hba]) (by simpa using hdone))

variable {rules : Derivations}

/-- The rule of the second attribute mentions the first one. -/
def Needs (rules : Derivations) (a b : String) : Prop :=
  ∃ text, rules.lookup b = some text ∧ a ∈ rules.map Prod.fst ∧ a ≠ b ∧ mentions text a

theorem mem_dependencies : a ∈ ((dependencies rules).lookup b).getD [] ↔ Needs rules a b := by
  have hlookup : ∀ l : Derivations, (l.map fun d => (d.1, (rules.map Prod.fst).filter fun a =>
      a ≠ d.1 && mentions d.2 a)).lookup b =
      (l.lookup b).map fun text =>
        (rules.map Prod.fst).filter fun a => a ≠ b && mentions text a := by
    intro l
    induction l with
    | nil => rfl
    | cons d l ih => grind [lookup]
  rw [dependencies, hlookup, Needs]
  cases rules.lookup b <;> simp

theorem idxOf_lt_of_sublist {l} (hl : l.Nodup) (h : [a, b].Sublist l) : l.idxOf a < l.idxOf b := by
  obtain ⟨l1, l2, rfl, h1, h2⟩ := append_sublist_iff.mp (show ([a] ++ [b]).Sublist l from h)
  rw [singleton_sublist] at h1 h2
  have hb : b ∉ l1 := fun hb => (nodup_append.mp hl).2.2 b hb b h2 rfl
  rw [idxOf_append_of_mem h1, idxOf_append_of_notMem hb]
  have := idxOf_lt_length_of_mem h1
  omega

/-- **The order of evaluation.** All attributes have their place in it. When no path follows
mentions backwards for ever, each comes after those that its rule mentions; else the order is the
written one. -/
theorem evaluationOrder_cases (hnames : (rules.map Prod.fst).Nodup) :
    (evaluationOrder rules).Perm rules ∧ (WellFounded (Needs rules) ∧
          (∀ a b, Needs rules a b → [a, b].Sublist ((evaluationOrder rules).map Prod.fst)) ∨
        ¬ WellFounded (Needs rules) ∧ evaluationOrder rules = rules) := by
  obtain ⟨taken, htaken, hnodup, hsub, horder, hall⟩ :=
    @orderGo_spec (dependencies rules) [] _ (rules.map Prod.fst).length hnames
  simp only [mem_dependencies, not_mem_nil, false_or, nil_append] at horder hall htaken
  simp only [evaluationOrder, htaken]
  by_cases hlength : taken.length = (rules.map Prod.fst).length
  · have hperm : taken.Perm (rules.map Prod.fst) :=
      (hnodup.subperm hsub).perm_of_length_le hlength.ge
    have hsorted : ∀ a b, Needs rules a b → [a, b].Sublist taken := by
      intro a b hneeds
      refine horder b (hperm.mem_iff.mpr (of_not_not fun hb => ?_)) a hneeds
      obtain ⟨text, htext, -⟩ := hneeds
      simp [lookup_eq_none_iff_notMem.mpr hb] at htext
    have hwf : WellFounded (Needs rules) :=
      Subrelation.wf (fun h => idxOf_lt_of_sublist hnodup (hsorted _ _ h))
        (measure fun a => taken.idxOf a).wf
    have hrules : (rules.map Prod.fst).map (fun a => (a, (rules.lookup a).getD "")) = rules := by
      rw [map_map]
      refine (map_congr_left fun d hd => ?_).trans rules.map_id
      simp [lookup_of_mem hnames (show (d.1, d.2) ∈ rules from hd)]
    rw [if_neg (not_not.mpr hlength)]
    refine ⟨(hperm.map _).trans (.of_eq hrules), .inl ⟨hwf, ?_⟩⟩
    simpa [Function.comp_def] using hsorted
  · have hwf : ¬ WellFounded (Needs rules) := fun hwf => by
      have hmem : ∀ b ∈ rules.map Prod.fst, b ∈ taken := by
        intro b
        induction b using hwf.induction with
        | _ b ih =>
          refine fun hb => hall le_rfl b hb fun a ha => ih a ha ?_
          obtain ⟨text, -, hmem, -⟩ := ha
          exact hmem
      exact hlength (le_antisymm (hnodup.subperm hsub).length_le (hnames.subperm hmem).length_le)
    rw [if_pos hlength]
    exact ⟨.refl _, .inr ⟨hwf, rfl⟩⟩

end

/-! ### What a rule mentions -/

section

open Emit.Constraint
open Rulebook.Sheet (Inked inked_of_forall)

variable {w cs l r : List Char} {e c : Formula.Expr} {t name : String} {ts : List String}

theorem infix_intercalate (sep : String) (h : t ∈ ts) :
    t.toList <:+: (sep.intercalate ts).toList := by
  induction ts with
  | nil => cases h
  | cons u ts ih =>
    cases ts with
    | nil => simp [mem_singleton.mp h]
    | cons v ts =>
      rw [String.intercalate_cons_cons, String.toList_append, String.toList_append]
      rcases mem_cons.mp h with rfl | h
      · exact ((prefix_append _ _).trans (prefix_append _ _)).isInfix
      · exact (ih h).trans (suffix_append _ _).isInfix

/-- The texts of the parts stand in a rule. -/
theorem infix_of_framed {u} (h : Framed e ts t) (hu : u ∈ ts) : u.toList <:+: t.toList := by
  cases h with
  | bool | int | str | misfit | field => cases hu
  | and => exact (infix_intercalate " and " hu).trans ⟨['('], [')'], by simp⟩
  | or => exact (infix_intercalate " or " hu).trans ⟨['('], [')'], by simp⟩
  | concat => exact infix_intercalate _ hu
  | negation | callNot =>
    cases mem_singleton.mp hu
    exact ⟨"not (".toList, [')'], by simp⟩
  | lower =>
    cases mem_singleton.mp hu
    exact ⟨[], ".toLower()".toList, by simp⟩
  | relation op l r t v =>
    rcases mem_pair.mp hu with rfl | rfl
    · exact ⟨['('], (" " ++ sign op ++ " " ++ v ++ ")").toList, by simp⟩
    · exact ⟨("(" ++ t ++ " " ++ sign op ++ " ").toList, [')'], by simp⟩
  | find needle haystack t v =>
    rcases mem_pair.mp hu with rfl | rfl
    · exact ⟨(v ++ ".indexOf(").toList, [')'], by simp⟩
    · exact ⟨[], (".indexOf(" ++ t ++ ")").toList, by simp⟩
  | choice cond yes t v =>
    rcases mem_pair.mp hu with rfl | rfl
    · exact ⟨"if ".toList, (" then " ++ v ++ " else '' endif").toList, by simp⟩
    · exact ⟨("if " ++ t ++ " then ").toList, " else '' endif".toList, by simp⟩
  | choiceElse cond yes no rest t v w =>
    simp only [mem_cons, not_mem_nil, or_false] at hu
    rcases hu with rfl | rfl | rfl
    · exact ⟨"if ".toList, (" then " ++ v ++ " else " ++ w ++ " endif").toList, by simp⟩
    · exact ⟨("if " ++ t ++ " then ").toList, (" else " ++ w ++ " endif").toList, by simp⟩
    · exact ⟨("if " ++ t ++ " then " ++ v ++ " else ").toList, " endif".toList, by simp⟩

/-- A field that stands in a part which the rule shows. -/
inductive Shows : Formula.Expr → String → Prop where
  | field (name : String) : Shows (.field name) name
  | part {e c : Formula.Expr} {name : String} : c ∈ shown e → Shows c name → Shows e name

theorem Shows.of_field {a b} (h : Shows (.field a) b) : a = b := by
  cases h with
  | field => rfl
  | part hc => cases hc

theorem exists_text_of_mem {es} (h : Texts es ts) (hc : c ∈ es) :
    ∃ t ∈ ts, Emit.render dialect c = .ok t := by
  induction h with
  | nil => cases hc
  | cons he _ ih => grind

theorem Shows.isInfix (h : Shows e name) (ht : Emit.render dialect e = .ok t) :
    (attr name).toList <:+: t.toList := by
  induction h generalizing t with
  | field name =>
    cases ht
    exact infix_rfl
  | @part e c name hc _ ih =>
    have houtcome := outcome_render e
    rw [ht] at houtcome
    cases houtcome with
    | rule hts hframed =>
      obtain ⟨u, hu, hrender⟩ := exists_text_of_mem hts hc
      exact (ih hrender).trans (infix_of_framed hframed hu)

theorem infix_dropWhile {p} (hw : ∃ c, w.head? = some c ∧ p c = false)
    (h : w <:+: cs) : w <:+: cs.dropWhile p := by
  obtain ⟨c, hc, hp⟩ := hw
  obtain ⟨w, rfl⟩ := head?_eq_some_iff.mp hc
  obtain ⟨l, r, rfl⟩ := h
  rw [append_assoc, dropWhile_append]
  split
  · rw [cons_append, dropWhile_cons_of_neg (by simp [hp])]
    exact (prefix_append (c :: w) r).isInfix
  · exact ⟨l.dropWhile p, r, by simp⟩

theorem infix_trimChars (hw : Inked w) (h : w <:+: cs) : w <:+: trimChars cs := by
  obtain ⟨c, d, hc, hd, hcb, hdb⟩ := hw
  have hfront := reverse_infix.mpr (infix_dropWhile ⟨c, hc, hcb⟩ h)
  rw [trimChars, trimBy, dropEnd, ← reverse_infix, reverse_reverse]
  exact infix_dropWhile ⟨d, by simpa using hd, hdb⟩ hfront

theorem infix_lowerFrom (hw : ∀ c ∈ w, isAscii c) (before l r) :
    w.map Char.toLower <:+: lowerFrom before (l ++ (w ++ r)) := by
  induction l generalizing before with
  | nil =>
    refine IsPrefix.isInfix ?_
    rw [nil_append]
    induction w generalizing before with
    | nil => simp
    | cons c w ih => grind [lowerFrom, lowerCharAt]
  | cons c l ih => grind [lowerFrom]

/-- A text in which an attribute stands mentions it, in any letter case. -/
theorem mentions_of_infix (h : IsName name) (hin : (attr name).toList <:+: t.toList) :
    mentions (trim t) name := by
  have hcamel := (isName_camel h).isAscii
  have hattr : (attr name).toList = ['s', 'e', 'l', 'f', '.'] ++ (Names.camel name).toList := by
    have hne : name.isEmpty = false := by simpa using h.1
    simp [attr, hne]
  have hascii : ∀ c ∈ (attr name).toList, isAscii c := by
    rw [hattr]
    exact forall_mem_append.mpr ⟨by simp [isAscii], hcamel⟩
  have hinked : Inked (attr name).toList := by
    have hself : Inked ['s', 'e', 'l', 'f', '.'] := ⟨'s', '.', rfl, rfl, by decide, by decide⟩
    rw [hattr]
    refine @Inked.append _ [] _ hself (inked_of_forall (isName_camel h).1 fun c hc => ?_)
    have hc := (isName_camel h).2.2 c hc
    exact of_isAscii (P := fun c => ContinuesName c → isBlank c = false) (by decide) hc.isAscii hc
  have hlower : ("self." ++ lower name).toList = (attr name).toList.map Char.toLower := by
    rw [hattr, ← Names.lower_camel h.isAscii, lower, lowerChars_of_ascii hcamel]
    simp
  obtain ⟨l, r, htext⟩ := infix_trimChars hinked hin
  have hfound := infix_lowerFrom hascii [] l r
  rw [← append_assoc, htext, ← hlower] at hfound
  have htrim : (lower (trim t)).toList = lowerFrom [] (trimChars t.toList) := by
    simp [lower, lowerChars, trim]
  rw [mentions, Text.contains, Text.find?, htrim]
  exact isSome_findChars_iff.mpr hfound

end

/-! ### Tables -/

section

open Emit.Constraint

variable {t : Table} {c c' : Column} {columns : List Column} {rule : String}

/-- The rule of the first column shows the second one. -/
def Reads (c c' : Column) : Prop := ∃ e, c.expression = .ok e ∧ Shows e c'.name

/-- Every column comes after those that its rule shows. -/
def InOrder (columns : List Column) (order : List String) : Prop :=
  ∀ c ∈ columns, ∀ c' ∈ columns, Reads c c' → [c'.name, c.name].Sublist order

theorem mentions_of_reads (h : Reads c c') (hname : IsName c'.name)
    (hrule : ofColumn c = .ok rule) : mentions (trim rule) c'.name := by
  obtain ⟨e, he, hshows⟩ := h
  simp only [ofColumn, he, ok_bind] at hrule
  cases hrender : Emit.render dialect e with
  | error f => simp [hrender, Except.mapError] at hrule
  | ok text =>
    obtain rfl : text = rule := by simpa [hrender, Except.mapError] using hrule
    exact mentions_of_infix hname (hshows.isInfix hrender)

theorem compiled_names (h : ∀ c ∈ derived t, ∃ rule, ofColumn c = .ok rule) :
    (compiled t).map Prod.fst = (derived t).map Column.name := by
  have hone : ∀ c ∈ derived t, (rulesOf c).map Prod.fst = [c.name] := by
    intro c hc
    obtain ⟨rule, hrule⟩ := h c hc
    simp [rulesOf, hrule]
  rw [compiled, map_flatMap, flatMap_congr hone, ← map_eq_flatMap]

theorem collected_of_nodup {ds} (h : (ds.map Prod.fst).Nodup) : collected ds = ds :=
  @foldl_putBy _ _ [] _ h

theorem readClasses_compiled (ht : Legible t) (hnames : ((compiled t).map Prod.fst).Nodup) :
    ∃ text, document [t] = .ok text ∧ ((readClasses text).lookup t.name).getD [] = compiled t := by
  obtain ⟨text, htext, hread⟩ := readClasses_eq (forall_mem_singleton.mpr ht) (by simp)
  refine ⟨text, htext, ?_⟩
  rw [hread, classesOf]
  cases hrules : hasRules t with
  | true => simp [hrules, collected_of_nodup hnames]
  | false =>
    have hnone : derived t = [] := by
      simpa [hasRules, filter_eq_nil_iff] using hrules
    simp [hrules, compiled, hnone]

/-- **Rules are evaluated in the order of what they mention.** All rules of a table are read back
and have their place in the order. Each comes after the columns that it shows just when no path
follows mentions backwards for ever, or when the columns are declared in such an order: one mention
too many that closes a circle leaves all rules as they are written. -/
theorem evaluationOrder_inOrder_iff {t : Table} (ht : Legible t)
    (hcolumns : ∀ c ∈ derived t, IsName c.name ∧ ¬ Reads c c ∧ ∃ rule, ofColumn c = .ok rule)
    (hnames : ((derived t).map Column.name).Nodup) : (∃ text, document [t] = .ok text ∧
        ((readClasses text).lookup t.name).getD [] = compiled t) ∧
      (compiled t).map Prod.fst = (derived t).map Column.name ∧
      (evaluationOrder (compiled t)).Perm (compiled t) ∧
      (InOrder (derived t) ((evaluationOrder (compiled t)).map Prod.fst) ↔
        WellFounded (Needs (compiled t)) ∨ InOrder (derived t) ((compiled t).map Prod.fst)) := by
  have hrules := compiled_names fun c hc => (hcolumns c hc).2.2
  have hnodup : ((compiled t).map Prod.fst).Nodup := hrules ▸ hnames
  obtain ⟨hperm, horder⟩ := evaluationOrder_cases hnodup
  refine ⟨readClasses_compiled ht hnodup, hrules, hperm, ?_⟩
  rcases horder with ⟨hwf, horder⟩ | ⟨hwf, horder⟩
  · refine iff_of_true (fun c hc c' hc' hreads => horder _ _ ?_) (.inl hwf)
    obtain ⟨-, hself, rule, hrule⟩ := hcolumns c hc
    have hmem : (c.name, trim rule) ∈ compiled t :=
      mem_flatMap.mpr ⟨c, hc, by simp [rulesOf, hrule]⟩
    refine ⟨_, lookup_of_mem hnodup hmem, hrules ▸ mem_map_of_mem hc', fun heq => hself ?_,
      mentions_of_reads hreads (hcolumns c' hc').1 hrule⟩
    exact inj_on_of_nodup_map hnames hc' hc heq ▸ hreads
  · rw [horder, or_iff_right hwf]

end

/-- The name of the first column begins that of the field which the second one reads. -/
def taxTable : Table where
  name := "Sale"
  columns := [{ name := "Total", formula := .str "=\x7b\x7bX\x7d\x7d" },
    { name := "X", formula := .str "=\x7b\x7bTotalTax\x7d\x7d" }]
  rows := []

theorem evaluationOrder_inOrder_iff_taxes : Legible taxTable ∧
    ¬ InOrder taxTable.columns ((evaluationOrder (compiled taxTable)).map Prod.fst) := by
  have hx : Formula.parse "=\x7b\x7bX\x7d\x7d" = .ok (.field "X") := by cbv
  have htax : Formula.parse "=\x7b\x7bTotalTax\x7d\x7d" = .ok (.field "TotalTax") := by cbv
  have hplain : ∀ c ∈ taxTable.columns, Plain c := by
    refine forall_mem_cons.mpr ⟨⟨by decide, by decide, by cbv, _, rfl, fun e he => ?_⟩,
      forall_mem_singleton.mpr ⟨by decide, by decide, by cbv, _, rfl, fun e he => ?_⟩⟩
    · cases hx.symm.trans he
      exact forall_mem_singleton.mpr (show Unbroken "X" by decide)
    · cases htax.symm.trans he
      exact forall_mem_singleton.mpr (show Unbroken "TotalTax" by decide)
  have hlegible : Legible taxTable := ⟨by decide, by decide, by cbv, fun c hc _ => hplain c hc⟩
  have hcolumns : ∀ c ∈ taxTable.columns,
      IsName c.name ∧ ¬ Reads c c ∧ ∃ rule, ofColumn c = .ok rule := by
    refine forall_mem_cons.mpr ⟨⟨by decide, ?_, "self.x", by cbv⟩,
      forall_mem_singleton.mpr ⟨by decide, ?_, "self.totalTax", by cbv⟩⟩
    · rintro ⟨e, he, hshows⟩
      cases hx.symm.trans he
      exact absurd hshows.of_field (by decide)
    · rintro ⟨e, he, hshows⟩
      cases htax.symm.trans he
      exact absurd hshows.of_field (by decide)
  have hrules : compiled taxTable = [("Total", "self.x"), ("X", "self.totalTax")] := by cbv
  obtain ⟨-, -, -, horder⟩ := evaluationOrder_inOrder_iff hlegible hcolumns (by decide)
  refine ⟨hlegible, fun h => ?_⟩
  rcases horder.mp h with hwf | hwritten
  · have hforth : Needs (compiled taxTable) "X" "Total" :=
      ⟨"self.x", by rw [hrules]; rfl, by rw [hrules]; decide, by decide, by cbv⟩
    have hback : Needs (compiled taxTable) "Total" "X" :=
      ⟨"self.totalTax", by rw [hrules]; rfl, by rw [hrules]; decide, by decide, by cbv⟩
    exact hwf.asymmetric _ _ hforth hback
  · have hfirst := hwritten _ (.head _) _ (.tail _ (.head _))
      ⟨.field "X", hx, .field "X"⟩
    rw [hrules] at hfirst
    exact absurd hfirst (by decide)

end Rulebook.Constraint
