/-
The constraints that formulas become.

Calls of many arguments become chains of operators, and nested concatenations become one sum.
-/

import Rulebook.Proofs.Constraint.Spelling
import Rulebook.Proofs.Names

namespace Rulebook.Emit

open Formula

/-! ### Rendering by construct -/

variable {e : Expr} {t t1 t2 : String} {ts : List String} {args : List Expr}

variable {d : Dialect}

theorem render_binary (hl : render d l = .ok lt)
    (hr : render d r = .ok rt) : render d (.binary op l r) = d.relation op (l, lt) (r, rt) := by
  simp [render, hl, hr]

theorem render_concat (h : gather (renderAll d parts) = .ok ts) :
    render d (.concat parts) = d.concat (parts.zip ts) := by
  simp [render, h]

theorem render_of_map {y : Except Error α} {f} (hy : y = .ok a) (hx : render d e = y.map f) :
    render d e = .ok (f a) := by
  rw [hx, hy]
  rfl

theorem render_of_bind {y : Except Error α} {f} (hy : y = .ok a)
    (hx : render d e = y >>= f) : render d e = f a := by
  rw [hx, hy]
  rfl

end Rulebook.Emit

namespace Rulebook.Constraint

open List Text Emit.Constraint Emit

variable {e cond yes : Formula.Expr} {t t1 t2 : String} {x : Expr} {args : List Formula.Expr}
  {ts : List String}

/-! ### The constraint of a formula -/

def relationOp : Formula.Relation → BinaryOp
  | .eq | .other _ => .eq
  | .ne => .ne
  | .lt => .lt
  | .le => .le
  | .gt => .gt
  | .ge => .ge

/-- The constraint of a call, from those of its arguments; a missing else part is empty. -/
def callTree (name : String) (args : List Expr) : Expr :=
  match name, args with
  | "AND", args => chain .and args
  | "OR", args => chain .or args
  | "IF", [cond, yes] => .ite cond yes (.str "")
  | "IF", [cond, yes, no] => .ite cond yes no
  | "NOT", [e] => .not e
  | "LOWER", [e] => .method e "toLower" []
  | "FIND", [needle, haystack] => .method haystack "indexOf" [needle]
  | _, _ => .str ""

mutual

/-- The terms of the sum that a formula becomes: one, but for a concatenation. -/
def terms : Formula.Expr → List Expr
  | .bool b => [.bool b]
  | .int n => [.int n]
  | .str s => [.str s]
  | .misfit _ _ => []
  | .field name => [.attr (Names.camel name)]
  | .binary op l r => [.binary (relationOp op) (chain .add (terms l)) (chain .add (terms r))]
  | .unary _ e => [.not (chain .add (terms e))]
  | .call name args => [callTree name (translateAll args)]
  | .concat parts => (termsAll parts).flatten

def termsAll : List Formula.Expr → List (List Expr)
  | [] => []
  | e :: es => terms e :: termsAll es

def translateAll : List Formula.Expr → List Expr
  | [] => []
  | e :: es => chain .add (terms e) :: translateAll es

end

def translate (e : Formula.Expr) : Expr := chain .add (terms e)

/-- Formulas that become negations, which bind less tightly than their texts show. -/
def isNegation : Formula.Expr → Bool
  | .unary _ _ => true
  | .call name _ => name = "NOT"
  | _ => false

def isConcat : Formula.Expr → Bool
  | .concat _ => true
  | _ => false

/-- Formulas that the constraint language expresses. -/
inductive Translatable : Formula.Expr → Prop where
  | bool (b : Bool) : Translatable (.bool b)
  | int {n : Int} : Numeral.isTooLong n = false → Translatable (.int n)
  | str {s : String} : '\\' ∉ s.toList → Translatable (.str s)
  | field {name : String} :
      IsName name → Keyword.ofWord? (lower name) = none → Translatable (.field name)
  | binary {op : Formula.Relation} {l r : Formula.Expr} :
      Translatable l → Translatable r → isNegation l = false → isNegation r = false →
        Translatable (.binary op l r)
  | negation {e : Formula.Expr} : Translatable e → Translatable (.unary "NOT" e)
  | callNot {e : Formula.Expr} : Translatable e → Translatable (.call "NOT" [e])
  | and {args : List Formula.Expr} :
      args ≠ [] → (∀ a ∈ args, Translatable a) → Translatable (.call "AND" args)
  | or {args : List Formula.Expr} :
      args ≠ [] → (∀ a ∈ args, Translatable a) → Translatable (.call "OR" args)
  | choice {cond yes no : Formula.Expr} :
      Translatable cond → Translatable yes → Translatable no →
        Translatable (.call "IF" [cond, yes, no])
  | choiceNoElse {cond yes : Formula.Expr} :
      Translatable cond → Translatable yes → Translatable (.call "IF" [cond, yes])
  | lower {e : Formula.Expr} :
      Translatable e → isNegation e = false → isConcat e = false →
        Translatable (.call "LOWER" [e])
  | find {needle haystack : Formula.Expr} :
      Translatable needle → Translatable haystack → isNegation haystack = false →
        isConcat haystack = false → Translatable (.call "FIND" [needle, haystack])
  | concat {parts : List Formula.Expr} :
      parts ≠ [] → (∀ p ∈ parts, Translatable p) → (∀ p ∈ parts, isNegation p = false) →
        Translatable (.concat parts)

/-! ### The text of a formula -/

/-- A text is that of a formula and spells its constraint: tightly, unless the formula is a
concatenation or a negation. -/
structure Renders (e : Formula.Expr) (t : String) : Prop where
  text : render dialect e = .ok t
  negation : Spells .negation t (translate e)
  sum : isNegation e = false → SpellsSum t (terms e)
  access : isNegation e = false → isConcat e = false → Spells .access t (translate e)

theorem Renders.full (h : Renders e t) : Spells .disjunction t (translate e) :=
  h.negation.loosen (by decide)

theorem translate_of_terms (h : terms e = [x]) : translate e = x := by
  simp [translate, h, chain]

theorem Renders.of_access (hterms : terms e = [x])
    (htext : render dialect e = .ok t) (h : Spells .access t x) :
    Renders e t where
  text := htext
  negation := translate_of_terms hterms ▸ h.loosen (by decide)
  sum _ := hterms ▸ h.toSum
  access _ _ := translate_of_terms hterms ▸ h

theorem Renders.of_primary (hterms : terms e = [x])
    (htext : render dialect e = .ok t) (h : Spells .primary t x) :
    Renders e t :=
  .of_access hterms htext (h.loosen (by decide))

theorem Renders.of_negation (hneg : isNegation e) (hterms : terms e = [x])
    (htext : render dialect e = .ok t) (h : Spells .negation t x) :
    Renders e t where
  text := htext
  negation := translate_of_terms hterms ▸ h
  sum hpos := absurd hneg (by simp [hpos])
  access hpos := absurd hneg (by simp [hpos])

theorem exists_forall₂ {α β : Type} {R : α → β → Prop} {as}
    (h : ∀ a ∈ as, ∃ b, R a b) : ∃ bs, Forall₂ R as bs := by
  induction as with
  | nil => exact ⟨[], .nil⟩
  | cons a as ih =>
    obtain ⟨b, hb⟩ := h a (by simp)
    obtain ⟨bs, hbs⟩ := ih fun a' ha' => h a' (by simp [ha'])
    exact ⟨b :: bs, .cons hb hbs⟩

theorem forall₂_ne_nil {α β : Type} {R} {as : List α} {bs : List β}
    (h : Forall₂ R as bs) (hne : as ≠ []) : bs ≠ [] := by
  rintro rfl
  cases h
  exact hne rfl

theorem gather_texts (h : Forall₂ Renders args ts) :
    gather (renderAll dialect args) = .ok ts := by
  induction h with
  | nil => rfl
  | cons ht _ ih => simp [renderAll, gather, ht.text, ih, Except.map]

theorem zip_texts (h : Forall₂ Renders args ts) : (args.zip ts).map Prod.snd = ts :=
  map_snd_zip (by simp [h.length_eq])

theorem forall₂_translateAll (h : Forall₂ Renders args ts) :
    Forall₂ (Spells .negation) ts (translateAll args) := by
  induction h with
  | nil => exact .nil
  | cons hr _ ih => exact .cons hr.negation ih

theorem forall₂_termsAll (h : Forall₂ Renders args ts)
    (hneg : ∀ a ∈ args, isNegation a = false) : Forall₂ SpellsSum ts (termsAll args) := by
  induction h with
  | nil => exact .nil
  | @cons a t args ts hr _ ih =>
    exact .cons (hr.sum (hneg a (by simp))) (ih fun b hb => hneg b (by simp [hb]))

/-! ### The rules of rendering -/

theorem isName_camel (h : IsName name) : IsName (Names.camel name) := by
  obtain ⟨hne, hstart, hall⟩ := h
  cases hcs : name.toList with
  | nil => exact absurd hcs hne
  | cons c cs =>
    rw [hcs] at hstart hall
    have hc := hstart c rfl
    have hlower := of_isAscii (P := fun c => StartsName c → StartsName c.toLower) (by decide)
      hc.continuesName.isAscii hc
    have hchars : (Names.camel name).toList = c.toLower :: cs := by
      simp [Names.camel, hcs, lowerChars_of_ascii, hc.continuesName.isAscii]
    rw [IsName, hchars]
    refine ⟨by simp, by simpa using hlower, fun d hd => ?_⟩
    rcases mem_cons.mp hd with rfl | hd
    · exact hlower.continuesName
    · exact hall d (mem_cons_of_mem c hd)

theorem IsName.isAscii {name : String} (h : IsName name) : ∀ c ∈ name.toList, isAscii c :=
  fun c hc => (h.2.2 c hc).isAscii

theorem renders_field (hname : IsName name) (hkey : Keyword.ofWord? (lower name) = none) :
    Renders (.field name) ("self." ++ Names.camel name) := by
  have hne : name ≠ "" := by
    rintro rfl
    exact hname.1 rfl
  refine .of_primary rfl ?_ (spells_attr (isName_camel hname) ?_)
  · simp [render, dialect, attr, hne]
  · rw [Names.lower_camel hname.isAscii, hkey]

theorem renders_binary (op) (hl : Renders l t1)
    (hr : Renders r t2) (hnl : isNegation l = false) (hnr : isNegation r = false) :
    Renders (.binary op l r) ("(" ++ t1 ++ " " ++ sign op ++ " " ++ t2 ++ ")") := by
  have hop : (signMark op).relation? = some (relationOp op) := by cases op <;> rfl
  have hrel := (hl.sum hnl).spells.relate hop (hr.sum hnr).spells
  refine .of_primary rfl (render_binary hl.text hr.text) ?_
  simpa [String.append_assoc] using (hrel.loosen (by decide)).group

theorem renders_negation (h : Renders e t) : Renders (.unary "NOT" e) ("not (" ++ t ++ ")") :=
  .of_negation rfl rfl (by rw [render_of_map h.text rfl]; rfl) h.full.negate

theorem renders_callNot (h : Renders e t) : Renders (.call "NOT" [e]) ("not (" ++ t ++ ")") :=
  .of_negation rfl rfl (by rw [render_of_map h.text rfl]; rfl) h.full.negate

theorem renders_and (hne : args ≠ []) (h : Forall₂ Renders args ts) :
    Renders (.call "AND" args) ("(" ++ " and ".intercalate ts ++ ")") := by
  refine .of_primary rfl ?_ (spells_and (forall₂_ne_nil h hne) (forall₂_translateAll h))
  rw [render_of_map (gather_texts h) rfl]
  simp only [dialect, zip_texts h]

theorem renders_or (hne : args ≠ []) (h : Forall₂ Renders args ts) :
    Renders (.call "OR" args) ("(" ++ " or ".intercalate ts ++ ")") := by
  refine .of_primary rfl ?_ (spells_or (forall₂_ne_nil h hne) (forall₂_translateAll h))
  rw [render_of_map (gather_texts h) rfl]
  simp only [dialect, zip_texts h]

theorem renders_choice {no t3} (h1 : Renders cond t1) (h2 : Renders yes t2) (h3 : Renders no t3) :
    Renders (.call "IF" [cond, yes, no])
      ("if " ++ t1 ++ " then " ++ t2 ++ " else " ++ t3 ++ " endif") :=
  .of_primary rfl (by
    rw [render_of_bind h1.text rfl, h2.text]
    simp only [renderAll, h3.text, ok_bind]
    rfl) (h1.full.choose h2.full h3.full)

theorem renders_choice_noElse (h1 : Renders cond t1) (h2 : Renders yes t2) :
    Renders (.call "IF" [cond, yes])
      ("if " ++ t1 ++ " then " ++ t2 ++ " else " ++ "''" ++ " endif") := by
  have hempty : Spells .primary ("'" ++ escape "" ++ "'") (.str "") :=
    spells_string (by decide)
  have htext : "'" ++ escape "" ++ "'" = "''" := by cbv
  rw [htext] at hempty
  exact .of_primary rfl (by rw [render_of_bind h1.text rfl, h2.text]; rfl)
    (h1.full.choose h2.full (hempty.loosen (by decide)))

theorem renders_lower (h : Renders e t) (hneg : isNegation e = false)
    (hconcat : isConcat e = false) : Renders (.call "LOWER" [e]) (t ++ ".toLower()") :=
  .of_access rfl (by rw [render_of_map h.text rfl]; rfl) (h.access hneg hconcat).lowered

theorem renders_find (h1 : Renders needle t1)
    (h2 : Renders haystack t2) (hneg : isNegation haystack = false)
    (hconcat : isConcat haystack = false) :
    Renders (.call "FIND" [needle, haystack]) (t2 ++ ".indexOf(" ++ t1 ++ ")") :=
  .of_access rfl (by rw [render_of_bind h1.text rfl, h2.text]; rfl)
    ((h2.access hneg hconcat).found h1.full)

theorem renders_concat {parts} (hne : parts ≠ [])
    (h : Forall₂ Renders parts ts) (hneg : ∀ p ∈ parts, isNegation p = false) :
    Renders (.concat parts) (" + ".intercalate ts) := by
  have hsum := SpellsSum.join (forall₂_ne_nil h hne) (forall₂_termsAll h hneg)
  refine ⟨?_, hsum.spells.loosen (by decide), fun _ => hsum, fun _ hconcat => ?_⟩
  · rw [render_concat (gather_texts h)]
    simp only [dialect, zip_texts h]
  · simp [isConcat] at hconcat

/-- **Rendering.** The text of a formula spells its constraint. -/
theorem Translatable.renders (h : Translatable e) : ∃ t, Renders e t := by
  induction h with
  | bool b => exact ⟨_, .of_primary rfl rfl (spells_truth b)⟩
  | int hn => exact ⟨_, .of_primary rfl rfl (spells_number hn)⟩
  | str hs => exact ⟨_, .of_primary rfl rfl (spells_string hs)⟩
  | field hname hkey => exact ⟨_, renders_field hname hkey⟩
  | binary _ _ hnl hnr ihl ihr =>
    obtain ⟨t1, hl⟩ := ihl
    obtain ⟨t2, hr⟩ := ihr
    exact ⟨_, renders_binary _ hl hr hnl hnr⟩
  | negation _ ih =>
    obtain ⟨t, ht⟩ := ih
    exact ⟨_, renders_negation ht⟩
  | callNot _ ih =>
    obtain ⟨t, ht⟩ := ih
    exact ⟨_, renders_callNot ht⟩
  | and hne _ ih =>
    obtain ⟨ts, hts⟩ := exists_forall₂ ih
    exact ⟨_, renders_and hne hts⟩
  | or hne _ ih =>
    obtain ⟨ts, hts⟩ := exists_forall₂ ih
    exact ⟨_, renders_or hne hts⟩
  | choice _ _ _ ih1 ih2 ih3 =>
    obtain ⟨t1, h1⟩ := ih1
    obtain ⟨t2, h2⟩ := ih2
    obtain ⟨t3, h3⟩ := ih3
    exact ⟨_, renders_choice h1 h2 h3⟩
  | choiceNoElse _ _ ih1 ih2 =>
    obtain ⟨t1, h1⟩ := ih1
    obtain ⟨t2, h2⟩ := ih2
    exact ⟨_, renders_choice_noElse h1 h2⟩
  | lower _ hneg hconcat ih =>
    obtain ⟨t, ht⟩ := ih
    exact ⟨_, renders_lower ht hneg hconcat⟩
  | find _ _ hneg hconcat ih1 ih2 =>
    obtain ⟨t1, h1⟩ := ih1
    obtain ⟨t2, h2⟩ := ih2
    exact ⟨_, renders_find h1 h2 hneg hconcat⟩
  | concat hne _ hneg ih =>
    obtain ⟨ts, hts⟩ := exists_forall₂ ih
    exact ⟨_, renders_concat hne hts hneg⟩

/-- **Reading back.** The text of a formula is parsed as its constraint. -/
theorem Translatable.parse_render (h : Translatable e) :
    ∃ t, render dialect e = .ok t ∧ parse t = .ok (translate e) := by
  obtain ⟨t, ht⟩ := h.renders
  exact ⟨t, ht.text, ht.full.parse⟩

/-- **Round trip.** A formula that the constraint language expresses has a text. All lexemes of
the text together derive the formula's constraint, and the text is parsed as this constraint. -/
theorem parse_render_eq_translate {e : Formula.Expr} (h : Translatable e) :
    ∃ t, render dialect e = .ok t ∧ Spells .disjunction t (translate e) ∧
      parse t = .ok (translate e) := by
  obtain ⟨t, ht⟩ := h.renders
  have hspells : Spells .disjunction t (translate e) := ht.full
  exact ⟨t, ht.text, hspells, hspells.parse⟩

def itemNotice : Formula.Expr :=
  .call "IF"
    [.call "OR" [.unary "NOT" (.field "IsOpen"), .binary .le (.field "Distance") (.int (-2)),
        .call "FIND" [.str "o'", .call "LOWER" [.field "Name"]]],
      .concat [.field "Name", .concat [.str "'s at ", .field "Distance"], .str "."]]

theorem parse_render_itemNotice : Translatable itemNotice ∧ translate itemNotice = .ite (.binary .or
          (.binary .or (.not (.attr "isOpen")) (.binary .le (.attr "distance") (.int (-2))))
          (.method (.method (.attr "name") "toLower" []) "indexOf" [.str "o'"]))
        (.binary .add (.binary .add (.binary .add (.attr "name") (.str "'s at "))
          (.attr "distance")) (.str ".")) (.str "") ∧
      ∃ t, render dialect itemNotice = .ok t ∧
        Spells .disjunction t (translate itemNotice) ∧ parse t = .ok (translate itemNotice) := by
  have hopen : Translatable (.field "IsOpen") := .field (by decide) (by cbv)
  have hdistance : Translatable (.field "Distance") := .field (by decide) (by cbv)
  have hname : Translatable (.field "Name") := .field (by decide) (by cbv)
  have hnear : Translatable (.binary .le (.field "Distance") (.int (-2))) :=
    .binary hdistance (.int (Numeral.isTooLong_of_lt_ten (by decide))) rfl rfl
  have hfind : Translatable (.call "FIND" [.str "o'", .call "LOWER" [.field "Name"]]) :=
    .find (.str (by decide)) (.lower hname rfl rfl) rfl rfl
  have hplace : Translatable (.concat [.str "'s at ", .field "Distance"]) := by
    refine .concat (by simp) ?_ (by simp [isNegation])
    simpa using ⟨.str (by decide), hdistance⟩
  have htext : Translatable
      (.concat [.field "Name", .concat [.str "'s at ", .field "Distance"], .str "."]) := by
    refine .concat (by simp) ?_ (by simp [isNegation])
    simpa using ⟨hname, hplace, .str (by decide)⟩
  have hnotice : Translatable itemNotice := by
    refine .choiceNoElse (.or (by simp) ?_) htext
    simpa using ⟨.negation hopen, hnear, hfind⟩
  exact ⟨hnotice, by cbv, parse_render_eq_translate hnotice⟩

end Rulebook.Constraint
