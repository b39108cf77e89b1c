/-
Printing formulas, and reading them back.

The printer writes every comparison and concatenation in parentheses, so that what it prints is
always an operand of the grammar.
-/

import Rulebook.Proofs.Formula.Grammar
import Rulebook.Proofs.Formula.Lexing

open List

namespace Rulebook.Formula

open Text Expr

/-! ### The printer -/

/-- White space that a printer leaves. -/
structure Spacing where
  sign : List Char
  comma : List Char
  isGap_sign : ∀ c ∈ sign, isGap c
  isGap_comma : ∀ c ∈ comma, isGap c

def Spacing.blank : Spacing where
  sign := [' ']
  comma := [' ']
  isGap_sign := by simp [isGap]
  isGap_comma := by simp [isGap]

namespace Expr

variable {e : Expr}

mutual

def chars (sp : Spacing) : Expr → List Char
  | bool b => (if b then "TRUE" else "FALSE").toList ++ ['(', ')']
  | int n => (toString n).toList
  | str s => '"' :: (s.toList ++ ['"'])
  | misfit _ _ => []
  | field name => '\x7b' :: '\x7b' :: (name.toList ++ ['\x7d', '\x7d'])
  | binary op l r =>
    '(' :: (chars sp l ++ sp.sign ++ op.symbol.toList ++ sp.sign ++ chars sp r ++ [')'])
  | unary op e => op.toList ++ '(' :: (chars sp e ++ [')'])
  | call name args => name.toList ++ '(' :: (charsAll sp (',' :: sp.comma) args ++ [')'])
  | concat parts => '(' :: (charsAll sp (sp.sign ++ '&' :: sp.sign) parts ++ [')'])

def charsAll (sp : Spacing) (sep : List Char) : List Expr → List Char
  | [] => []
  | e :: es => chars sp e ++ charsMore sp sep es

def charsMore (sp : Spacing) (sep : List Char) : List Expr → List Char
  | [] => []
  | e :: es => sep ++ (chars sp e ++ charsMore sp sep es)

end

def print (sp : Spacing) (e : Expr) : String := .ofList (e.chars sp)

/-- Whether the outermost part of a formula has a spelling. A text must not close early, nor keep
its closing quote from closing it; a name in braces must not close early; a call must not be
taken for a truth value or a negation. -/
def Spelled : Expr → Prop
  | bool _ => True
  | int n => Numeral.isTooLong n = false
  | str s => ClosesAtEnd s
  | misfit _ _ => False
  | field name => IsReferable name
  | binary (.other _) _ _ => False
  | binary _ _ _ => True
  | unary op _ => op = "NOT"
  | call name args => IsFunctionName name ∧ name ≠ "TRUE" ∧ name ≠ "FALSE" ∧
      (name = "NOT" → args.length ≠ 1)
  | concat parts => 2 ≤ parts.length

instance : DecidablePred Spelled
  | bool _ | binary .eq _ _ | binary .ne _ _ | binary .lt _ _ | binary .le _ _ | binary .gt _ _
  | binary .ge _ _ => inferInstanceAs (Decidable True)
  | misfit _ _ | binary (.other _) _ _ => inferInstanceAs (Decidable False)
  | int _ => inferInstanceAs (Decidable (_ = false))
  | str s => inferInstanceAs (Decidable (ClosesAtEnd s))
  | field name => inferInstanceAs (Decidable (IsReferable name))
  | unary op _ => inferInstanceAs (Decidable (op = "NOT"))
  | call _ _ => inferInstanceAs (Decidable (_ ∧ _))
  | concat _ => inferInstanceAs (Decidable (_ ≤ _))

def Printable (e : Expr) : Prop := ∀ s ∈ e.subterms, s.Spelled

instance (e : Expr) : Decidable e.Printable := inferInstanceAs (Decidable (∀ s ∈ _, _))

theorem Printable.spelled (h : e.Printable) : e.Spelled := h e (mem_subterms_self e)

theorem Printable.child (h : e.Printable) (hc : c ∈ e.children) : c.Printable :=
  fun s hs => h s (mem_subterms_of_child hc hs)

/-! ### How printed formulas start -/

theorem chars_eq_cons (sp) (h : e.Spelled) :
    ∃ c cs, e.chars sp = c :: cs ∧ continuesSign c = false := by
  cases e with
  | bool b => cases b <;> exact ⟨_, _, rfl, by decide⟩
  | int n =>
    obtain ⟨c, ds, htext, -, hc⟩ := Numeral.toString_eq_cons n
    exact ⟨c, ds, htext, (startsNumber_plain (hc.imp_right And.left)).2.1⟩
  | misfit type v => exact absurd h id
  | unary op e =>
    obtain rfl : op = "NOT" := h
    exact ⟨_, _, rfl, by decide⟩
  | call name args =>
    obtain ⟨⟨⟨c, hhead, hstart⟩, -⟩, -⟩ := h
    obtain ⟨cs, hcs⟩ := head?_eq_some_iff.mp hhead
    have hother := (startsName_plain hstart).2.2.2
    refine ⟨c, _, by rw [chars, hcs, cons_append], ?_⟩
    simp only [mem_cons, not_or] at hother
    simp [continuesSign, hother]
  | str | field | binary | concat => exact ⟨_, _, rfl, by decide⟩

theorem notAhead_chars (sp) (h : e.Spelled) (rest) :
    NotAhead continuesSign (e.chars sp ++ rest) := by
  obtain ⟨c, cs, hcs, hc⟩ := chars_eq_cons sp h
  rw [hcs]
  exact notAhead_cons hc

theorem body_chars (sp) (h : e.Spelled) : body (e.chars sp) = e.chars sp := by
  obtain ⟨c, cs, hcs, hc⟩ := chars_eq_cons sp h
  have hne : c ≠ '=' := by
    rintro rfl
    exact absurd hc (by decide)
  rw [hcs]
  unfold body
  split
  · rename_i heq
    exact absurd (List.cons.inj heq).1 hne
  · rfl

end Expr

/-! ### Tokens of printed formulas -/

structure Separates (sep : List Char) (l : Lexeme) : Prop where
  scans : ∀ rest, Scans sep rest (IsToken l)
  notAhead : ∀ rest, NotAhead isDigit (sep ++ rest)

theorem notAhead_mark (h : (c, l) ∈ marks) (rest) : NotAhead isDigit (c :: rest) := by
  simp only [marks, mem_cons, not_mem_nil, or_false] at h
  rcases h with ⟨rfl, -⟩ | ⟨rfl, -⟩ | ⟨rfl, -⟩ | ⟨rfl, -⟩ <;> exact notAhead_cons (by decide)

theorem separates_mark (h : (c, l) ∈ marks)
    (hbefore : ∀ c ∈ before, isGap c) (hbehind : ∀ c ∈ behind, isGap c) :
    Separates (before ++ c :: behind) l := by
  constructor
  · intro rest
    have hgap : Scans (behind ++ []) rest (· = []) := Scans.gap hbehind (.nil rfl)
    rw [append_nil] at hgap
    refine Scans.gap hbefore (((scans_mark h (behind ++ rest)).append hgap).imp ?_)
    rintro _ ⟨_, _, rfl, ht, rfl⟩
    rwa [append_nil]
  · intro rest
    rw [append_assoc]
    exact (notAhead_mark h _).gap (fun c hc => (isGap_plain hc).1) hbefore

theorem notAhead_symbol {op : Relation} (h : ∀ s, op ≠ .other s) (rest) :
    NotAhead isDigit (op.symbol.toList ++ rest) := by
  cases op with
  | other s => exact absurd rfl (h s)
  | _ => exact notAhead_cons (by decide)

/-- A printed formula is scanned into tokens of an operand, if no digit follows. -/
def Expr.ReadBack (sp : Spacing) (e : Expr) : Prop :=
  ∀ rest, NotAhead isDigit rest → Scans (e.chars sp) rest (IsPrimary · e)

section

variable {sep : List Char}

variable {sp : Spacing} {cs rest : List Char} {e : Expr} {es : List Expr}

def InParens (P : List Token → Prop) (ts : List Token) : Prop :=
  ∃ l u r, ts = l :: (u ++ [r]) ∧ l.lexeme = .lparen ∧ P u ∧ r.lexeme = .rparen

theorem Scans.inParens (h : Scans cs (')' :: rest) P) :
    Scans ('(' :: (cs ++ [')'])) rest (InParens P) := by
  have hopen : Scans ['('] (cs ++ [')'] ++ rest) (IsToken .lparen) := scans_mark (by decide) _
  have hclose : Scans [')'] rest (IsToken .rparen) := scans_mark (by decide) rest
  refine (hopen.append (h.append hclose)).imp ?_
  rintro _ ⟨_, _, rfl, ⟨l, rfl, hl⟩, u, _, rfl, hu, ⟨r, rfl, hr⟩⟩
  exact ⟨l, u, r, rfl, hl, hu, hr⟩

theorem Scans.grouped (h : Scans cs (')' :: rest) (IsConcat · e)) :
    Scans ('(' :: (cs ++ [')'])) rest (IsPrimary · e) := by
  refine h.inParens.imp ?_
  rintro _ ⟨l, u, r, rfl, hl, hu, hr⟩
  exact .grouped hl hu hr

theorem Scans.called (hname : IsFunctionName name) (h : Scans cs (')' :: rest) (AreArgs · es)) :
    Scans (name.toList ++ '(' :: (cs ++ [')'])) rest
      (Both (IsToken (.name name)) (InParens (AreArgs · es))) :=
  (scans_name hname (notAhead_cons (by decide))).append h.inParens

theorem notAhead_charsMore (hsep : Separates sep l) (hrest : NotAhead isDigit rest)
    (sp es) : NotAhead isDigit (charsMore sp sep es ++ rest) := by
  cases es with
  | nil => exact hrest
  | cons e es =>
    rw [charsMore, append_assoc]
    exact hsep.notAhead _

/-- **The run over a list.** Formulas behind separators are scanned one after the other. -/
theorem scans_charsMore (hsep : Separates sep l) {P : List Token → List Expr → Prop}
    (hnil : P [] [])
    (hcons : ∀ {t u us e es}, t.lexeme = l → IsPrimary u e → P us es → P (t :: (u ++ us)) (e :: es))
    (hes : ∀ e ∈ es, e.ReadBack sp) (hrest : NotAhead isDigit rest) :
    Scans (charsMore sp sep es) rest (P · es) := by
  induction es with
  | nil => exact .nil hnil
  | cons e es ih =>
    have hfirst := hes e (.head _) _ (notAhead_charsMore hsep hrest sp es)
    have hmore := ih fun e he => hes e (.tail _ he)
    refine ((hsep.scans _).append (hfirst.append hmore)).imp ?_
    rintro _ ⟨_, _, rfl, ⟨t, rfl, ht⟩, u, us, rfl, hu, hus⟩
    change P (t :: (u ++ us)) (e :: es)
    exact hcons ht hu hus

theorem scans_args (hes : ∀ e ∈ es, e.ReadBack sp) (hrest : NotAhead isDigit rest) :
    Scans (charsAll sp (',' :: sp.comma) es) rest (AreArgs · es) := by
  have hsep : Separates ([] ++ ',' :: sp.comma) .comma :=
    separates_mark (by decide) (by simp) sp.isGap_comma
  cases es with
  | nil => exact .nil .none
  | cons e es =>
    have hmore : Scans (charsMore sp (',' :: sp.comma) es) rest (AreMoreArgs · es) :=
      scans_charsMore hsep .nil (fun ht hu hus => .cons ht (.single (.operand hu)) hus)
        (fun e he => hes e (.tail _ he)) hrest
    have hfirst := hes e (.head _) _ (notAhead_charsMore hsep hrest sp es)
    refine (hfirst.append hmore).imp ?_
    rintro _ ⟨u, us, rfl, hu, hus⟩
    exact .some (.single (.operand hu)) hus

theorem scans_parts (hes : ∀ c ∈ e :: e' :: es, c.ReadBack sp) (hrest : NotAhead isDigit rest) :
    Scans (charsAll sp (sp.sign ++ '&' :: sp.sign) (e :: e' :: es)) rest
      (IsConcat · (.concat (e :: e' :: es))) := by
  have hsep : Separates (sp.sign ++ '&' :: sp.sign) .ampersand :=
    separates_mark (by decide) sp.isGap_sign sp.isGap_sign
  have hmore : Scans (charsMore sp (sp.sign ++ '&' :: sp.sign) (e' :: es)) rest
      (ArePartsOf · (e' :: es)) :=
    scans_charsMore hsep .nil (fun ht hu hus => .cons ht (.operand hu) hus)
      (fun c hc => hes c (.tail _ hc)) hrest
  have hfirst := hes e (.head _) _ (notAhead_charsMore hsep hrest sp (e' :: es))
  refine (hfirst.append hmore).imp ?_
  rintro _ ⟨u, us, rfl, hu, hus⟩
  exact .joined (.operand hu) hus

theorem scans_comparison (hop : ∀ s, op ≠ .other s)
    (hl : l.ReadBack sp) (hr : r.ReadBack sp) (hstart : r.Spelled) (hrest : NotAhead isDigit rest) :
    Scans (l.chars sp ++ sp.sign ++ op.symbol.toList ++ sp.sign ++ r.chars sp) rest
      (IsConcat · (.binary op l r)) := by
  have hright := (hr rest hrest).gap sp.isGap_sign
  have hsign : Scans op.symbol.toList (sp.sign ++ r.chars sp ++ rest) (IsToken (.relation op)) := by
    refine scans_sign hop ?_
    rw [append_assoc]
    exact (notAhead_chars sp hstart rest).gap (fun c hc => (isGap_plain hc).2) sp.isGap_sign
  have hleft : Scans (l.chars sp)
      (sp.sign ++ (op.symbol.toList ++ (sp.sign ++ r.chars sp)) ++ rest) (IsPrimary · l) := by
    refine hl _ ?_
    rw [append_assoc, append_assoc]
    exact (notAhead_symbol hop _).gap (fun c hc => (isGap_plain hc).1) sp.isGap_sign
  simp only [append_assoc]
  refine (hleft.append (Scans.gap sp.isGap_sign (hsign.append hright))).imp ?_
  rintro _ ⟨u, _, rfl, hu, _, v, rfl, ⟨t, rfl, ht⟩, hv⟩
  exact .single (.related hu ht hv)

end

/-- **Printed formulas are scanned into tokens that derive them.** -/
theorem Expr.Printable.readBack {e : Expr} (h : e.Printable) (sp) : e.ReadBack sp := by
  induction e using children_induction with
  | step e ih =>
    have hchild : ∀ c ∈ e.children, c.ReadBack sp := fun c hc => ih c hc (h.child hc)
    have hspelled := h.spelled
    have hclose : ∀ rest, NotAhead isDigit (')' :: rest) := fun _ => notAhead_cons (by decide)
    intro rest hrest
    cases e with
    | bool b =>
      have hname : IsFunctionName (if b then "TRUE" else "FALSE") := by cases b <;> decide
      have hargs : Scans [] (')' :: rest) (AreArgs · []) := .nil .none
      refine (hargs.called hname).imp ?_
      rintro _ ⟨_, _, rfl, ⟨t, rfl, ht⟩, l, u, r, rfl, hl, hu, hr⟩
      cases hu
      exact .truthUnit ht hname.upper_eq hl hr
    | int n =>
      refine (scans_number hspelled hrest).imp ?_
      rintro _ ⟨t, rfl, ht⟩
      exact .number ht
    | str s =>
      refine (scans_string hspelled rest).imp ?_
      rintro _ ⟨t, rfl, ht⟩
      exact .string ht
    | misfit type v => exact absurd hspelled id
    | field name =>
      refine (scans_reference hspelled rest).imp ?_
      rintro _ ⟨t, rfl, ht⟩
      exact .field ht
    | binary op l r =>
      have hop : ∀ s, op ≠ .other s := by
        rintro s rfl
        exact hspelled
      have hmem : r ∈ (binary op l r).children := by simp [children]
      exact (scans_comparison hop (hchild l (by simp [children])) (hchild r hmem)
        (h.child hmem).spelled (hclose rest)).grouped
    | unary op e =>
      obtain rfl : op = "NOT" := hspelled
      have hname : IsFunctionName "NOT" := by decide
      have hargs : Scans (e.chars sp) (')' :: rest) (AreArgs · [e]) := by
        refine (hchild e (.head _) _ (hclose rest)).imp fun u hu => ?_
        simpa using AreArgs.some (.single (.operand hu)) .nil
      refine (hargs.called hname).imp ?_
      rintro _ ⟨_, _, rfl, ⟨t, rfl, ht⟩, l, u, r, rfl, hl, hu, hr⟩
      exact .negation ht hname.upper_eq hl hu hr
    | call name args =>
      obtain ⟨hname, htrue, hfalse, hnot⟩ := hspelled
      refine ((scans_args hchild (hclose rest)).called hname).imp ?_
      rintro _ ⟨_, _, rfl, ⟨t, rfl, ht⟩, l, u, r, rfl, hl, hu, hr⟩
      have hupper := hname.upper_eq
      rw [← hupper] at htrue hfalse hnot
      have hcall := IsPrimary.call ht htrue hfalse hnot hl hu hr
      rwa [hupper] at hcall
    | concat parts =>
      have hlength : 2 ≤ parts.length := hspelled
      rcases parts with _ | ⟨e, _ | ⟨e', es⟩⟩
      · simp at hlength
      · simp at hlength
      · exact (scans_parts hchild (hclose rest)).grouped

theorem parse_of_scans (h : Scans (body s.toList) [] (IsPrimary · e)) : parse s = .ok e := by
  obtain ⟨ts, t, hscan, hprimary, ht⟩ := h.scan_eq
  have hparse := parseTokens_of_isConcat ht (.single (.operand hprimary))
  rw [parse, tokenize, hscan]
  simp only [hparse]
  rfl

/-- **Printing and reading back.** Every formula whose parts have a spelling is read back as it
was from what the printer writes, whatever white space it leaves, and also behind an equals
sign. -/
theorem Expr.parse_print (sp : Spacing) {e : Expr} (h : e.Printable) :
    parse (e.print sp) = .ok e ∧ parse ("=" ++ e.print sp) = .ok e := by
  have hscans := h.readBack sp [] notAhead_nil
  constructor
  · refine parse_of_scans ?_
    rwa [print, String.toList_ofList, body_chars sp h.spelled]
  · have htext : ("=" ++ e.print sp).toList = '=' :: e.chars sp := by simp [print]
    refine parse_of_scans ?_
    rw [htext]
    exact hscans

def noticeExpr : Expr :=
  .concat [.call "IF" [.binary .lt (.field "Size") (.int (-3)), .unary "NOT" (.bool true),
    .str "a\\\"b"], .call "_NOW" []]

theorem parse_print_noticeExpr : noticeExpr.Printable ∧
    noticeExpr.print .blank = "(IF(({{Size}} < -3), NOT(TRUE()), \"a\\\"b\") & _NOW())" ∧
    parse "(IF(({{Size}} < -3), NOT(TRUE()), \"a\\\"b\") & _NOW())" = .ok noticeExpr ∧
    parse "=(IF(({{Size}} < -3), NOT(TRUE()), \"a\\\"b\") & _NOW())" = .ok noticeExpr := by
  have hprintable : noticeExpr.Printable := by decide +kernel
  have htext : noticeExpr.print .blank =
      "(IF(({{Size}} < -3), NOT(TRUE()), \"a\\\"b\") & _NOW())" := by
    decide
  have hread := parse_print .blank hprintable
  rw [htext] at hread
  exact ⟨hprintable, htext, hread⟩

end Rulebook.Formula
