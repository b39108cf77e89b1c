/-
Texts that spell constraints.

The rules of the grammar become rules about texts, blanks and parentheses included. The parser looks
no further than the first lexeme behind a tree that does not continue it.
-/

import Rulebook.Proofs.Constraint.Grammar

namespace Rulebook.Constraint

open List Text

variable {t t1 t2 sep : String} {e e1 e2 : Expr} {k : Level} {u ls1 ls2 : List Lexeme}
  {cs1 cs2 : List Char} {op : BinaryOp} {x : Lexeme} {ts : List String} {es : List Expr}

/-- A text whose lexemes derive a tree at a level, and are more than the word `self`. -/
def Spells (k : Level) (t : String) (e : Expr) : Prop :=
  ∃ u, ¬ BareSelf u ∧ Lexes t.toList u ∧ Derives k u e

theorem Spells.parse (h : Spells .disjunction t e) : Constraint.parse t = .ok e := by
  obtain ⟨u, -, hlex, hder⟩ := h
  exact parse_of_derives hlex hder

theorem Lexes.spells (hlex : Lexes cs u) (ht : t.toList = cs)
    (hself : ¬ BareSelf u) (hder : Derives k u e) : Spells k t e :=
  ⟨u, hself, ht ▸ hlex, hder⟩

theorem notBareSelf_cons_cons (x y v) : ¬ BareSelf (x :: y :: v) := by
  rintro ⟨s, hs, -⟩
  simp at hs

theorem notBareSelf_append_cons (h : Derives k u e) (x v) : ¬ BareSelf (u ++ x :: v) := by
  obtain ⟨y, u, rfl, -⟩ := h.head
  rintro ⟨s, hs, -⟩
  simp at hs

/-! ### Blanks and words -/

theorem Lexes.spaced (h1 : Lexes cs1 ls1) (h2 : Lexes cs2 ls2) :
    Lexes (cs1 ++ ' ' :: cs2) (ls1 ++ ls2) :=
  h1.append h2.blank fun _ _ => .inl rfl

theorem Lexes.closed (h : Lexes cs ls) : Lexes (cs ++ [')']) (ls ++ [.mark .rparen]) :=
  h.append (.mark (by simp) .nil) fun _ _ => .inr (.inr (.inl rfl))

theorem Lexes.applied (h1 : Lexes cs1 ls1) (h2 : Lexes cs2 ls2) :
    Lexes (cs1 ++ '(' :: (cs2 ++ [')'])) (ls1 ++ .mark .lparen :: (ls2 ++ [.mark .rparen])) :=
  h1.append (.mark (by simp) h2.closed) fun _ _ => .inr (.inl rfl)

theorem Lexes.dotted (h1 : Lexes cs1 ls1) (h2 : Lexes cs2 ls2) :
    Lexes (cs1 ++ '.' :: cs2) (ls1 ++ .mark .dot :: ls2) :=
  h1.append (.mark (by simp) h2) fun _ _ => .inr (.inr (.inr rfl))

/-! ### Rules for single texts -/

theorem Derives.loosen (h : Derives m u e) (hk : k.rank ≤ m.rank) : Derives k u e := by
  obtain ⟨d, hd⟩ := Nat.exists_eq_add_of_le hk
  induction d generalizing k with
  | zero =>
    have hkm : k = m := by
      revert hd
      cases k <;> cases m <;> decide
    exact hkm ▸ h
  | succ d ih =>
    have htop : m.rank ≤ Level.primary.rank := by cases m <;> decide
    have hnext : k.rank < Level.primary.rank → k ≠ .primary ∧ k.next.rank = k.rank + 1 := by
      cases k <;> decide
    obtain ⟨hne, hrank⟩ := hnext (by omega)
    exact .up hne (ih (by omega) (by omega))

theorem Spells.loosen (h : Spells m t e) (hk : k.rank ≤ m.rank) : Spells k t e := by
  obtain ⟨u, hself, hlex, hder⟩ := h
  exact ⟨u, hself, hlex, hder.loosen hk⟩

theorem spells_truth (b : Bool) : Spells .primary (if b then "true" else "false") (.bool b) := by
  have hlex : Lexes (if b then "true" else "false").toList
      [.keyword (if b then .true else .false) (if b then "true" else "false")] := by
    cases b with
    | false => exact lexes_keyword .false
    | true => exact lexes_keyword .true
  refine ⟨_, ?_, hlex, .truth⟩
  rintro ⟨s, hs, -⟩
  simp at hs

theorem spells_number (h : Numeral.isTooLong n = false) :
    Spells .primary (toString n) (.int n) := by
  refine ⟨_, ?_, lexes_number h, .number⟩
  rintro ⟨s, hs, -⟩
  simp at hs

theorem spells_literal (h : literalText? s.toList = some v) :
    Spells .primary ("'" ++ Emit.Constraint.escape s ++ "'") (.str (.ofList v)) := by
  refine ⟨_, ?_, lexes_literal h, .string⟩
  rintro ⟨s, hs, -⟩
  simp at hs

theorem spells_string (h : '\\' ∉ s.toList) :
    Spells .primary ("'" ++ Emit.Constraint.escape s ++ "'") (.str s) := by
  simpa using spells_literal (literalText?_of_notMem h)

theorem spells_attr (hname : IsName name) (hkey : Keyword.ofWord? (lower name) = none) :
    Spells .primary ("self." ++ name) (.attr name) := by
  have hself : Lexes "self".toList [.identifier "self"] := lexes_identifier (by decide) (by cbv)
  exact (hself.dotted (lexes_identifier hname hkey)).spells (by simp)
    (notBareSelf_cons_cons _ _ _) (.selfAttr (by cbv))

theorem Spells.not (h : Spells .negation t e) : Spells .negation ("not " ++ t) (.not e) := by
  obtain ⟨u, -, hlex, hder⟩ := h
  obtain ⟨x, u, rfl, -⟩ := hder.head
  exact ((lexes_keyword .not).spaced hlex).spells (by simp [Keyword.word])
    (notBareSelf_cons_cons _ _ _) (.negation hder)

theorem Spells.group (h : Spells .disjunction t e) : Spells .primary ("(" ++ t ++ ")") e := by
  obtain ⟨u, -, hlex, hder⟩ := h
  obtain ⟨x, u, rfl, -⟩ := hder.head
  exact (Lexes.nil.applied hlex).spells (by simp) (notBareSelf_cons_cons _ _ _) (.group hder)

theorem Spells.negate (h : Spells .disjunction t e) :
    Spells .negation ("not (" ++ t ++ ")") (.not e) := by
  simpa [← String.append_assoc] using (h.group.loosen (k := .negation) (by decide)).not

theorem Spells.relate {op b}
    (hop : (signMark op).relation? = some b) (h1 : Spells .sum t1 e1) (h2 : Spells .sum t2 e2) :
    Spells .comparison (t1 ++ " " ++ Emit.Constraint.sign op ++ " " ++ t2) (.binary b e1 e2) := by
  obtain ⟨u, -, hlex1, hder1⟩ := h1
  obtain ⟨v, -, hlex2, hder2⟩ := h2
  exact (hlex1.spaced ((lexes_sign op).spaced hlex2)).spells (by simp)
    (notBareSelf_append_cons hder1 _ _) (.related hder1 hop hder2)

theorem Spells.choose (h1 : Spells .disjunction t1 c)
    (h2 : Spells .disjunction t2 y) (h3 : Spells .disjunction t3 n) :
    Spells .primary ("if " ++ t1 ++ " then " ++ t2 ++ " else " ++ t3 ++ " endif") (.ite c y n) := by
  obtain ⟨u, -, hlex1, hder1⟩ := h1
  obtain ⟨v, -, hlex2, hder2⟩ := h2
  obtain ⟨w, -, hlex3, hder3⟩ := h3
  have htext := (lexes_keyword .if).spaced (hlex1.spaced ((lexes_keyword .then).spaced
    (hlex2.spaced ((lexes_keyword .else).spaced (hlex3.spaced (lexes_keyword .endif))))))
  obtain ⟨x, u, rfl, -⟩ := hder1.head
  exact htext.spells (by simp [Keyword.word]) (notBareSelf_cons_cons _ _ _)
    (.choice hder1 hder2 hder3)

theorem Spells.lowered (h : Spells .access t e) :
    Spells .access (t ++ ".toLower()") (.method e "toLower" []) := by
  obtain ⟨u, hself, hlex, hder⟩ := h
  have hname : Lexes "toLower".toList [.identifier "toLower"] :=
    lexes_identifier (by decide) (by cbv)
  exact (hlex.dotted (hname.applied .nil)).spells (by simp) (notBareSelf_append_cons hder _ _)
    (.method hder hself .none)

theorem Spells.found (h1 : Spells .access t1 e1) (h2 : Spells .disjunction t2 e2) :
    Spells .access (t1 ++ ".indexOf(" ++ t2 ++ ")") (.method e1 "indexOf" [e2]) := by
  obtain ⟨u, hself, hlex1, hder1⟩ := h1
  obtain ⟨v, -, hlex2, hder2⟩ := h2
  have hname : Lexes "indexOf".toList [.identifier "indexOf"] :=
    lexes_identifier (by decide) (by cbv)
  have hargs : AreArgs v [e2] := by simpa using AreArgs.some hder2 .nil
  exact (hlex1.dotted (hname.applied hlex2)).spells (by simp)
    (notBareSelf_append_cons hder1 _ _) (.method hder1 hself hargs)

/-! ### Chains -/

def Separates (sep : String) (x : Lexeme) : Prop :=
  ∃ w, sep.toList = ' ' :: (w ++ [' ']) ∧ Lexes w [x]

theorem Spells.link (hk : k.chains) (hop : k.op? x = some op) (hsep : Separates sep x)
    (h1 : Spells k t1 e1) (h2 : Spells k.next t2 e2) :
    Spells k (t1 ++ sep ++ t2) (.binary op e1 e2) := by
  obtain ⟨u, -, hlex1, hder1⟩ := h1
  obtain ⟨v, -, hlex2, hder2⟩ := h2
  obtain ⟨w, hw, hlex⟩ := hsep
  exact (hlex1.spaced (hlex.spaced hlex2)).spells (by simp [hw])
    (notBareSelf_append_cons hder1 _ _) (.chain hk hder1 hop hder2)

def chain (op : BinaryOp) : List Expr → Expr
  | [] => .str ""
  | e :: es => es.foldl (.binary op) e

theorem Spells.foldl (hk : k.chains) (hop : k.op? x = some op) (hsep : Separates sep x)
    (h : Spells k t e) (hs : Forall₂ (Spells k.next) ts es) :
    Spells k (sep.intercalate (t :: ts)) (es.foldl (.binary op) e) := by
  induction hs generalizing t e with
  | nil => simpa using h
  | @cons t' e' ts es h' _ ih =>
    have hjoin : sep.intercalate (t :: t' :: ts) = sep.intercalate ((t ++ sep ++ t') :: ts) := by
      rfl
    rw [hjoin]
    exact ih (h.link hk hop hsep h')

/-- **Texts joined by a separator** spell a chain of operators. -/
theorem spells_chain (hk : k.chains) (hop : k.op? x = some op) (hsep : Separates sep x)
    (hne : ts ≠ []) (hs : Forall₂ (Spells k.next) ts es) :
    Spells k (sep.intercalate ts) (chain op es) := by
  cases hs with
  | nil => exact absurd rfl hne
  | cons hfirst hrest => exact (hfirst.loosen k.rank_le_next).foldl hk hop hsep hrest

theorem spells_and (hne : ts ≠ []) (h : Forall₂ (Spells .negation) ts es) :
    Spells .primary ("(" ++ " and ".intercalate ts ++ ")") (chain .and es) := by
  have hsep : Separates " and " (.keyword .and "and") :=
    ⟨['a', 'n', 'd'], by simp, by simpa [Keyword.word] using lexes_keyword .and⟩
  have hjoin : Spells .conjunction (" and ".intercalate ts) (chain .and es) :=
    spells_chain rfl rfl hsep hne h
  exact (hjoin.loosen (by decide)).group

theorem spells_or (hne : ts ≠ []) (h : Forall₂ (Spells .negation) ts es) :
    Spells .primary ("(" ++ " or ".intercalate ts ++ ")") (chain .or es) := by
  have hsep : Separates " or " (.keyword .or "or") :=
    ⟨['o', 'r'], by simp, by simpa [Keyword.word] using lexes_keyword .or⟩
  have hall : Forall₂ (Spells .conjunction) ts es := h.imp fun _ _ ht => ht.loosen (by decide)
  have hjoin : Spells .disjunction (" or ".intercalate ts) (chain .or es) :=
    spells_chain rfl rfl hsep hne hall
  exact hjoin.group

/-- A sum, spelled by its terms with plus signs between them; a dot may follow each term. -/
def SpellsSum (t : String) (es : List Expr) : Prop :=
  ∃ ts, ts ≠ [] ∧ t = " + ".intercalate ts ∧ Forall₂ (Spells .access) ts es

theorem SpellsSum.spells (h : SpellsSum t es) : Spells .sum t (chain .add es) := by
  obtain ⟨ts, hne, rfl, hall⟩ := h
  have hsep : Separates " + " (.mark .plus) := ⟨['+'], by simp, .mark (by simp) .nil⟩
  exact spells_chain rfl rfl hsep hne (hall.imp fun _ _ h => h.loosen (by decide))

theorem Spells.toSum (h : Spells .access t e) : SpellsSum t [e] :=
  ⟨[t], by simp, by simp, .cons h .nil⟩

/-- **Sums joined by plus signs** spell one sum of all their terms. -/
theorem SpellsSum.join (hne : ts ≠ [])
    (h : Forall₂ SpellsSum ts ess) : SpellsSum (" + ".intercalate ts) ess.flatten := by
  induction h with
  | nil => exact absurd rfl hne
  | @cons t es ts ess h hs ih =>
    cases ts with
    | nil =>
      cases hs
      simpa using h
    | cons t' ts =>
      obtain ⟨ts1, hne1, rfl, hall1⟩ := h
      obtain ⟨ts2, hne2, htext2, hall2⟩ := ih (by simp)
      refine ⟨ts1 ++ ts2, by simp [hne1], ?_, ?_⟩
      · rw [String.intercalate_cons_cons, htext2, String.intercalate_append_of_ne_nil hne1 hne2]
      · exact rel_append hall1 hall2

/-! ### Lexemes left over -/

end Rulebook.Constraint
