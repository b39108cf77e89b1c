/-
Where the shape of a table ends.

The text of a shape has no addresses and no quotation marks but double ones, so that its full stops
are found with comments and two kinds of literals in view.
-/

import Mathlib
import Rulebook.Ontology.Document
import Rulebook.Proofs.Outcome

namespace Rulebook.Ontology

open List Text

inductive Mode where
  | plain
  | comment
  | short
  | long

/-- The full stops that stand outside comments and literals. -/
def stops : Mode → List Char → Nat
  | .plain, '"' :: '"' :: '"' :: cs => stops .long cs
  | .plain, '"' :: cs => stops .short cs
  | .plain, '#' :: cs => stops .comment cs
  | .plain, '.' :: cs => stops .plain cs + 1
  | .comment, '\n' :: cs | .short, '"' :: cs | .long, '"' :: '"' :: '"' :: cs => stops .plain cs
  | .short, '\\' :: _ :: cs => stops .short cs
  | .long, '\\' :: _ :: cs => stops .long cs
  | m, _ :: cs => stops m cs
  | _, [] => 0

/-- A text with `n` full stops leads from one mode to another one, whatever follows it. -/
def Leads (m : Mode) (cs : List Char) (n : Nat) (m' : Mode) : Prop :=
  ∀ rest, stops m (cs ++ rest) = stops m' rest + n

def flat (lines : List String) : List Char := lines.flatMap fun l => l.toList ++ ['\n']

def IsName (s : String) : Prop := s.toList.all isWord

/-- The rule of a column stays in its literal, or the error in its place on its line. -/
def Contained (table : String) (c : Column) : Prop :=
  IsName c.name ∧ match expression c with
    | .error f => '\n' ∉ f.message.toList
    | .ok (text, needed) => Leads .long (flat [join "\n" (query table c text needed)]) 0 .long

variable {m m' : Mode} {cs ds : List Char} {table : String} {c : Column}

theorem Leads.append {m''} (h : Leads m cs 0 m') (h' : Leads m' ds k m'') :
    Leads m (cs ++ ds) k m'' := fun rest => by
  rw [append_assoc, h, h', Nat.add_zero]

theorem leads_same (h : ∀ c ∈ cs, ∀ rest, stops m (c :: rest) = stops m rest) :
    Leads m cs 0 m := by
  intro rest
  induction cs with
  | nil => rfl
  | cons c cs ih =>
    rw [cons_append, h c mem_cons_self, ih fun c hc => h c (mem_cons_of_mem _ hc)]

theorem leads_name {s} (h : IsName s) : Leads m s.toList 0 m := by
  refine leads_same fun c hc rest => ?_
  have hc := all_eq_true.mp h c hc
  have hne : ∀ d, isWord d = false → c ≠ d := fun d hd heq => by simp [heq, hd] at hc
  have h1 := hne '"' (by decide)
  have h2 := hne '#' (by decide)
  have h3 := hne '.' (by decide)
  have h4 := hne '\n' (by decide)
  have h5 := hne '\\' (by decide)
  rw [stops] <;> simp [*]

theorem leads_comment (h : '\n' ∉ cs) : Leads .plain ("    #".toList ++ cs ++ ['\n']) 0 .plain := by
  have hstart : Leads .plain "    #".toList 0 .comment := fun _ => rfl
  have hrest : Leads .comment cs 0 .comment := leads_same fun c hc rest => by
    have hne := ne_of_mem_of_not_mem hc h
    rw [stops] <;> simp [*]
  exact (hstart.append hrest).append fun _ => rfl

/-- A comment stays one when a full stop is put behind it. -/
theorem toList_closed {l : String} (h : l.toList = "    #".toList ++ cs) : (closed l).toList =
    "    #".toList ++ (dropEnd (fun c => c == ' ' || c == ';') cs ++ [' ', '.']) := by
  rw [closed, h]
  simp [dropEnd, dropWhile_append]
  split <;> simp_all

theorem leads_ruleLines (htable : IsName table) (h : Contained table c) :
    Leads .plain (flat (ruleLines table c)) 0 .plain ∧
      Leads .plain (flat (closeStatement (ruleLines table c)))
        (if (expression c).isOk then 1 else 0) .plain := by
  obtain ⟨hname, h⟩ := h
  rw [ruleLines]
  cases hc : expression c with
  | error f =>
    simp only [hc] at h
    have hline : '\n' ∉ c.name.toList := fun hmem => absurd (all_eq_true.mp hname _ hmem) (by decide)
    let text := (" Rule for " ++ c.name ++ " - parse error: " ++ f.message).toList
    have htext : '\n' ∉ text := by simp [text, hline, h]
    have hl : ("    # Rule for " ++ c.name ++ " - parse error: " ++ f.message).toList =
      "    #".toList ++ text := by simp [text]
    constructor
    · rw [flat, flatMap_singleton, hl]
      exact leads_comment htext
    · change Leads .plain (flat [closed _]) 0 .plain
      rw [flat, flatMap_singleton, toList_closed hl]
      refine leads_comment fun hmem => htext ?_
      simp only [dropEnd, mem_append, mem_reverse] at hmem
      exact mem_reverse.mp ((dropWhile_sublist _).subset (hmem.resolve_right (by decide)))
  | ok p =>
    simp only [hc] at h
    have hlead : Leads .plain (flat ["    sh:rule [", "        a sh:SPARQLRule ;"] ++
        "        rdfs:label \"rule_".toList) 0 .short := fun _ => rfl
    have hopen : Leads .short ("\" ;\n".toList ++ flat ["        sh:prefixes erb: ;",
        "        sh:construct \"\"\""]) 0 .long := fun _ => rfl
    have hgap : Leads .short ['_'] 0 .short := fun _ => rfl
    have hall {tail k} (htail : Leads .long tail k .plain) :=
      hlead.append <| (leads_name htable).append <| hgap.append <|
        (leads_name hname).append <| hopen.append <| h.append htail
    constructor
    · have htail := @hall (flat ["        \"\"\" ;", "    ] ;"]) 0 fun _ => rfl
      simpa [flat] using htail
    · change Leads .plain (flat [_, _, _, _, _, _, _, closed _]) 1 .plain
      rw [(by decide : closed "    ] ;" = "    ] .")]
      have htail := @hall (flat ["        \"\"\" ;", "    ] ."]) 1 fun _ => rfl
      simpa [flat] using htail

theorem leads_head {name} (h : IsName name) :
    Leads .plain (flat ["# === Shape with rules for " ++ name ++ " ===",
      "erb:" ++ name ++ "Shape a sh:NodeShape ;", "    sh:targetClass erb:" ++ name ++ " ;"])
      0 .plain := by
  have h1 : Leads .plain "# === Shape with rules for ".toList 0 .comment := fun _ => rfl
  have h2 : Leads .comment " ===\nerb:".toList 0 .plain := fun _ => rfl
  have h3 : Leads .plain "Shape a sh:NodeShape ;\n    sh:targetClass erb:".toList 0 .plain :=
    fun _ => rfl
  have h4 : Leads .plain (flat [" ;"]) 0 .plain := fun _ => rfl
  have hall := h1.append <| (leads_name h).append <| h2.append <| (leads_name h).append <|
    h3.append <| (leads_name h).append h4
  simpa [flat] using hall

theorem closeStatement_append {ls'} (h : ls' ≠ []) (ls) :
    closeStatement (ls ++ ls') = ls ++ closeStatement ls' := by
  obtain ⟨front, l, rfl⟩ := (eq_nil_or_concat ls').resolve_left h
  simp [closeStatement]

/-- **A shape is closed** by one full stop exactly if the formula of its last derived column can be
written as a rule. Otherwise the full stop is part of a comment. -/
theorem stops_shapeLines {t : Table} {cols c} (hname : IsName t.name)
    (hcols : t.columns.filter Column.isDerived = cols ++ [c])
    (h : ∀ d ∈ cols ++ [c], Contained t.name d) (rest : List Char) :
    stops .plain (flat (shapeLines t) ++ rest) =
      stops .plain rest + if (expression c).isOk then 1 else 0 := by
  have hrules : Leads .plain (flat (cols.flatMap (ruleLines t.name))) 0 .plain := by
    replace h c (hc : c ∈ cols) := h c (mem_append_left _ hc)
    clear hcols
    induction cols with
    | nil => exact fun _ => rfl
    | cons c cols ih =>
      rw [flatMap_cons, flat, flatMap_append]
      exact (leads_ruleLines hname (h c mem_cons_self)).1.append
        (ih fun c hc => h c (mem_cons_of_mem _ hc))
  have hne : ruleLines t.name c ≠ [] := by
    rw [ruleLines]
    split <;> simp
  have hall := ((leads_head hname).append hrules).append (leads_ruleLines hname (h c (by simp))).2
  rw [shapeLines, hcols, if_neg (by simp), flatMap_append, flatMap_singleton, ← append_assoc,
    closeStatement_append hne]
  simpa [flat, stops] using hall ('\n' :: rest)

def ruled : Column := { name := "A", formula := .str "=1" }

def unruled : Column := { name := "C", formula := .str "=\"" }

theorem stops_unruled : stops .plain (flat (shapeLines ⟨"T", [ruled, unruled], []⟩)) = 0 := by
  have hruled : expression ruled = .ok ("1", []) := by cbv
  have hunruled : expression unruled = .error (LexError.unterminatedString 0).fault := by
    have htokens : Formula.tokenize "=\"" = .error (.unterminatedString 0) := by cbv
    simp [unruled, expression, Column.expression, Value.asText, Formula.parse, htokens]
  have hone : Contained "T" ruled := by
    rw [Contained, hruled]
    have hall : (flat [join "\n" (query "T" ruled "1" [])]).all fun c => c ≠ '"' && c ≠ '\\' := by
      decide +kernel
    refine ⟨rfl, leads_same fun c hc rest => ?_⟩
    have hc := all_eq_true.mp hall c hc
    rw [stops] <;> simp_all
  have htwo : Contained "T" unruled := by
    rw [Contained, hunruled]
    exact ⟨rfl, by decide +kernel⟩
  have h := @stops_shapeLines ⟨"T", [ruled, unruled], []⟩ [ruled] unruled rfl rfl
    (by simp [hone, htwo]) []
  rwa [hunruled, append_nil] at h

end Rulebook.Ontology
