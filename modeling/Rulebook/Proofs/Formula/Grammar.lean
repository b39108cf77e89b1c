/-
The grammar of formulas, and the parser that decides it.

`IsConcat`, `IsComparison` and `IsPrimary` say which tokens derive which tree; nothing in them looks
ahead or stops early. The parser reads from left to right and never goes back.
-/

import Rulebook.Formula.Parser
import Rulebook.Proofs.Formula.Subterms
import Rulebook.Proofs.Outcome

namespace Rulebook.Formula

open List Text Expr

variable {l : Lexeme} {t : Token} {u rest : List Token} {es : List Expr} {p : Lexeme → Prop}
  {e : Expr}

/-! ### The grammar -/

mutual

/-- Tokens that derive a concatenation: one operand stands for itself, several are joined. -/
inductive IsConcat : List Token → Expr → Prop where
  | single {u : List Token} {e : Expr} : IsComparison u e → IsConcat u e
  | joined {u us : List Token} {e e' : Expr} {es : List Expr} :
      IsComparison u e → ArePartsOf us (e' :: es) → IsConcat (u ++ us) (.concat (e :: e' :: es))

inductive ArePartsOf : List Token → List Expr → Prop where
  | nil : ArePartsOf [] []
  | cons {t : Token} {u us : List Token} {e : Expr} {es : List Expr} :
      t.lexeme = .ampersand → IsComparison u e → ArePartsOf us es →
        ArePartsOf (t :: (u ++ us)) (e :: es)

inductive IsComparison : List Token → Expr → Prop where
  | operand {u : List Token} {e : Expr} : IsPrimary u e → IsComparison u e
  | related {u v : List Token} {t : Token} {op : Relation} {l r : Expr} :
      IsPrimary u l → t.lexeme = .relation op → IsPrimary v r →
        IsComparison (u ++ t :: v) (.binary op l r)

/-- Tokens that derive an operand. `TRUE` and `FALSE` may stand with empty parentheses; every
other name takes its arguments in parentheses. -/
inductive IsPrimary : List Token → Expr → Prop where
  | string {t : Token} {s : String} : t.lexeme = .string s → IsPrimary [t] (.str s)
  | number {t : Token} {n : Int} : t.lexeme = .number n → IsPrimary [t] (.int n)
  | field {t : Token} {name : String} : t.lexeme = .fieldRef name → IsPrimary [t] (.field name)
  | truth {t : Token} {word : String} {b : Bool} :
      t.lexeme = .name word → upper word = (if b then "TRUE" else "FALSE") →
        IsPrimary [t] (.bool b)
  | truthUnit {t l r : Token} {word : String} {b : Bool} :
      t.lexeme = .name word → upper word = (if b then "TRUE" else "FALSE") →
        l.lexeme = .lparen → r.lexeme = .rparen → IsPrimary [t, l, r] (.bool b)
  | negation {t l r : Token} {word : String} {u : List Token} {e : Expr} :
      t.lexeme = .name word → upper word = "NOT" → l.lexeme = .lparen →
        AreArgs u [e] → r.lexeme = .rparen → IsPrimary (t :: l :: (u ++ [r])) (.unary "NOT" e)
  | call {t l r : Token} {word : String} {u : List Token} {es : List Expr} :
      t.lexeme = .name word → upper word ≠ "TRUE" → upper word ≠ "FALSE" →
        (upper word = "NOT" → es.length ≠ 1) → l.lexeme = .lparen → AreArgs u es →
        r.lexeme = .rparen → IsPrimary (t :: l :: (u ++ [r])) (.call (upper word) es)
  | grouped {l r : Token} {u : List Token} {e : Expr} :
      l.lexeme = .lparen → IsConcat u e → r.lexeme = .rparen → IsPrimary (l :: (u ++ [r])) e

inductive AreArgs : List Token → List Expr → Prop where
  | none : AreArgs [] []
  | some {u us : List Token} {e : Expr} {es : List Expr} :
      IsConcat u e → AreMoreArgs us es → AreArgs (u ++ us) (e :: es)

inductive AreMoreArgs : List Token → List Expr → Prop where
  | nil : AreMoreArgs [] []
  | cons {t : Token} {u us : List Token} {e : Expr} {es : List Expr} :
      t.lexeme = .comma → IsConcat u e → AreMoreArgs us es →
        AreMoreArgs (t :: (u ++ us)) (e :: es)

end

/-! ### The parsing functions without their proofs

Each function reads in turn what its rule of the grammar names. -/

def after (want : TokenKind) (ts : List Token) : Except ParseError (List Token) :=
  (expect want ts).map Subtype.val

theorem after_cons (want t rest) : after want (t :: rest) =
      if t.lexeme.kind = want then .ok rest else .error (.expected want t.lexeme.kind t.pos) := by
  simp only [after, expect]
  split <;> rfl

def afterUnit (ts : List Token) : Except ParseError (List Token) :=
  (optionalUnit ts).map Subtype.val

theorem afterUnit_cons (t rest) : afterUnit (t :: rest) =
      if t.lexeme = .lparen then after .rparen rest else .ok (t :: rest) := by
  simp only [afterUnit, optionalUnit, after]
  split
  · cases expect .rparen rest <;> rfl
  · rfl

theorem unproved_parseConcat (ts : List Token) :
    unproved (parseConcat ts) = (do
      let (first, r1) ← unproved (parseComparison ts)
      let (more, r2) ← unproved (parseParts r1)
      .ok (concatExpr first more, r2)) := by
  rw [parseConcat]
  rcases parseComparison ts with _ | ⟨first, r1, h1⟩
  · rfl
  · cases h2 : parseParts r1 <;> simp [h2]

theorem unproved_parseParts (t : Token) (rest : List Token) :
    unproved (parseParts (t :: rest)) =
      if t.lexeme = .ampersand then do
        let (e, r1) ← unproved (parseComparison rest)
        let (es, r2) ← unproved (parseParts r1)
        .ok (e :: es, r2)
      else .ok ([], t :: rest) := by
  rw [parseParts]
  split
  · rcases parseComparison rest with _ | ⟨e, r1, h1⟩
    · rfl
    · cases h2 : parseParts r1 <;> simp [h2]
  · rfl

theorem unproved_parseComparison (ts : List Token) :
    unproved (parseComparison ts) = (do
      let (left, r1) ← unproved (parsePrimary ts)
      match r1 with
      | [] => .error .exhausted
      | t :: rest =>
        match t.lexeme with
        | .relation op => do
          let (right, r2) ← unproved (parsePrimary rest)
          .ok (.binary op left right, r2)
        | _ => .ok (left, t :: rest)) := by
  rw [parseComparison]
  rcases parsePrimary ts with _ | ⟨left, r1, h1⟩
  · rfl
  · cases r1 with
    | nil => rfl
    | cons t rest =>
      cases ht : t.lexeme with
      | relation op => cases h2 : parsePrimary rest <;> simp [ht, h2]
      | _ => simp [ht]

theorem unproved_parsePrimary (t : Token) (rest : List Token) :
    unproved (parsePrimary (t :: rest)) =
      match t.lexeme with
      | .string s => .ok (.str s, rest)
      | .number n => .ok (.int n, rest)
      | .fieldRef name => .ok (.field name, rest)
      | .name word =>
        if upper word = "TRUE" || upper word = "FALSE" then do
          let r ← afterUnit rest
          .ok (.bool (upper word = "TRUE"), r)
        else do
          let r1 ← after .lparen rest
          let (args, r2) ← unproved (parseArgs r1)
          let r3 ← after .rparen r2
          .ok (callExpr (upper word) args, r3)
      | .lparen => do
        let (e, r1) ← unproved (parseConcat rest)
        let r2 ← after .rparen r1
        .ok (e, r2)
      | other => .error (.unexpected other.kind t.pos) := by
  rw [parsePrimary]
  cases ht : t.lexeme with
  | name word =>
    simp only []
    split
    · cases h : optionalUnit rest <;> simp [afterUnit, h, Except.map]
    · cases h1 : expect .lparen rest with
      | error e => simp [after, h1, Except.map]
      | ok r1 =>
        cases h2 : parseArgs r1.val with
        | error e => simp [after, h1, h2, Except.map]
        | ok x => cases h3 : expect .rparen x.2.val <;> simp [after, h1, h2, h3, Except.map]
  | lparen =>
    cases h1 : parseConcat rest with
    | error e => simp
    | ok x => cases h2 : expect .rparen x.2.val <;> simp [after, h2, Except.map]
  | _ => simp

theorem unproved_parseArgs (t : Token) (rest : List Token) :
    unproved (parseArgs (t :: rest)) =
      if t.lexeme = .rparen then .ok ([], t :: rest)
      else (do
        let (e, r1) ← unproved (parseConcat (t :: rest))
        let (es, r2) ← unproved (parseMoreArgs r1)
        .ok (e :: es, r2)) := by
  rw [parseArgs]
  split
  · rfl
  · cases parseConcat (t :: rest) with
    | error e => rfl
    | ok x =>
      obtain ⟨e, r1, h1⟩ := x
      cases h2 : parseMoreArgs r1 <;> simp [h2]

theorem unproved_parseMoreArgs (t : Token) (rest : List Token) :
    unproved (parseMoreArgs (t :: rest)) =
      if t.lexeme = .comma then do
        let (e, r1) ← unproved (parseConcat rest)
        let (es, r2) ← unproved (parseMoreArgs r1)
        .ok (e :: es, r2)
      else .ok ([], t :: rest) := by
  rw [parseMoreArgs]
  split
  · rcases parseConcat rest with _ | ⟨e, r1, h1⟩
    · rfl
    · cases h2 : parseMoreArgs r1 <;> simp [h2]
  · rfl

/-! ### What the parser finds is derived -/

def Closed (ts : List Token) : Prop :=
  ∃ (us : List Token) (t : Token), ts = us ++ [t] ∧ t.lexeme = .eof ∧ ∀ u ∈ us, u.lexeme ≠ .eof

theorem Closed.cases (h : Closed ts) :
    ∃ (t : Token) (rest : List Token), ts = t :: rest ∧ (t.lexeme ≠ .eof → Closed rest) := by
  obtain ⟨us, t, rfl, ht, hus⟩ := h
  cases us with
  | nil => exact ⟨t, [], rfl, fun hne => absurd ht hne⟩
  | cons u us =>
    refine ⟨u, us ++ [t], rfl, fun _ => ⟨us, t, rfl, ht, ?_⟩⟩
    exact fun v hv => hus v (.tail _ hv)

/-- A reading of tokens: what was found is derived by the tokens that were taken and the end
token is still there, or the fault is not that the tokens ran out. -/
def Reads {α : Type} (P : List Token → α → Prop) (ts : List Token) :
    Except ParseError (α × List Token) → Prop
  | .ok (a, rest) => Closed rest ∧ ∃ u, ts = u ++ rest ∧ P u a
  | .error e => e ≠ .exhausted

section

variable {α β : Type} {P : List Token → α → Prop} {Q : List Token → β → Prop}
  {ts ts' : List Token}

theorem Reads.bind (h : Reads P ts r)
    (hk : ∀ a rest u, r = .ok (a, rest) → ts = u ++ rest → Closed rest → P u a →
      Reads Q ts' (k (a, rest))) : Reads Q ts' (r >>= k) := by
  cases r with
  | error e => exact h
  | ok x =>
    obtain ⟨closed, u, hu, hp⟩ := h
    exact hk x.1 x.2 u rfl hu closed hp

theorem Reads.after (hts : Closed ts) (hw : want ≠ .eof)
    (hk : ∀ t rest, ts = t :: rest → t.lexeme.kind = want → Closed rest → Reads Q ts' (k rest)) :
    Reads Q ts' (Formula.after want ts >>= k) := by
  obtain ⟨t, rest, rfl, hrest⟩ := hts.cases
  rw [after_cons]
  split
  · next hkind =>
    refine hk t rest rfl hkind (hrest fun he => hw ?_)
    rw [← hkind, he]
    rfl
  · exact nofun

end

theorem kind_eq_lparen (h : l.kind = .lparen) : l = .lparen := by
  cases l with
  | relation r => cases r <;> simp [Lexeme.kind] at h
  | _ => simp_all [Lexeme.kind]

theorem kind_eq_rparen (h : l.kind = .rparen) : l = .rparen := by
  cases l with
  | relation r => cases r <;> simp [Lexeme.kind] at h
  | _ => simp_all [Lexeme.kind]

theorem isPrimary_callExpr {l r word} (ht : t.lexeme = .name word)
    (htrue : upper word ≠ "TRUE") (hfalse : upper word ≠ "FALSE") (hl : l.lexeme = .lparen)
    (hes : AreArgs u es) (hr : r.lexeme = .rparen) :
    IsPrimary (t :: l :: (u ++ [r])) (callExpr (upper word) es) := by
  unfold callExpr
  split
  · next e =>
    split
    · next hnot => exact .negation ht hnot hl hes hr
    · next hnot => exact .call ht htrue hfalse (fun h => absurd h hnot) hl hes hr
  · next hmany =>
    refine .call ht htrue hfalse (fun _ hone => ?_) hl hes hr
    obtain ⟨e, rfl⟩ := length_eq_one_iff.mp hone
    exact hmany e rfl

theorem truth_reads (ht : t.lexeme = .name word)
    (htruth : upper word = "TRUE" ∨ upper word = "FALSE") (closed : Closed rest) :
    Reads IsPrimary (t :: rest) (do
      let r ← afterUnit rest
      .ok (.bool (upper word = "TRUE"), r)) := by
  have hb : upper word = if decide (upper word = "TRUE") then "TRUE" else "FALSE" := by
    rcases htruth with h | h <;> simp [h]
  obtain ⟨l, r1, rfl, hr1⟩ := closed.cases
  rw [afterUnit_cons]
  split
  · next hl =>
    refine .after (hr1 (by simp [hl])) (by simp) fun r r2 hr2 hr closed2 => ?_
    exact ⟨closed2, [t, l, r], by simp [hr2], .truthUnit ht hb hl (kind_eq_rparen hr)⟩
  · exact ⟨closed, [t], rfl, .truth ht hb⟩

/- The recursion is that of the parser: each function reads what its rule names, and the tokens
it leaves to the next one are fewer. -/
mutual

/-- **Soundness.** A concatenation that the parser finds is derived by the tokens it took. -/
theorem parseConcat_reads (hts : Closed ts) : Reads IsConcat ts (unproved (parseConcat ts)) := by
  rw [unproved_parseConcat]
  refine (parseComparison_reads hts).bind fun first r1 u hr hu closed1 hfirst => ?_
  have : r1.length < ts.length := (of_unproved_eq_ok hr).1
  refine (parseParts_reads closed1).bind fun more r2 v _ hv closed2 hmore => ?_
  refine ⟨closed2, u ++ v, by rw [hu, hv, append_assoc], ?_⟩
  cases hmore with
  | nil => simpa [concatExpr] using IsConcat.single hfirst
  | cons ht he hes => exact .joined hfirst (.cons ht he hes)
termination_by (ts.length, 3)

theorem parseParts_reads (hts : Closed ts) : Reads ArePartsOf ts (unproved (parseParts ts)) := by
  obtain ⟨t, rest, rfl, hrest⟩ := hts.cases
  rw [unproved_parseParts]
  split
  · next ht =>
    refine (parseComparison_reads (hrest (by simp [ht]))).bind fun e r1 u hr hu closed1 he => ?_
    have : r1.length < rest.length := (of_unproved_eq_ok hr).1
    refine (parseParts_reads closed1).bind fun es r2 v _ hv closed2 hes => ?_
    exact ⟨closed2, t :: (u ++ v), by simp [hu, hv], .cons ht he hes⟩
  · exact ⟨hts, [], rfl, .nil⟩
termination_by (ts.length, 0)

theorem parseComparison_reads (hts : Closed ts) :
    Reads IsComparison ts (unproved (parseComparison ts)) := by
  rw [unproved_parseComparison]
  refine (parsePrimary_reads hts).bind fun left r1 u hr hu closed1 hleft => ?_
  have hlen : r1.length < ts.length := (of_unproved_eq_ok hr).1
  obtain ⟨t, rest, rfl, hrest⟩ := closed1.cases
  simp only [length_cons] at hlen
  simp only []
  split
  · next op ht =>
    have hright := parsePrimary_reads (hrest (by simp [ht]))
    refine hright.bind fun right r2 v _ hv closed2 hright => ?_
    exact ⟨closed2, u ++ t :: v, by simp [hu, hv], .related hleft ht hright⟩
  · exact ⟨closed1, u, hu, .operand hleft⟩
termination_by (ts.length, 2)

theorem parsePrimary_reads {ts} (hts : Closed ts) :
    Reads IsPrimary ts (unproved (parsePrimary ts)) := by
  obtain ⟨t, rest, rfl, hrest⟩ := hts.cases
  rw [unproved_parsePrimary]
  split
  · next s ht => exact ⟨hrest (by simp [ht]), [t], rfl, .string ht⟩
  · next n ht => exact ⟨hrest (by simp [ht]), [t], rfl, .number ht⟩
  · next name ht => exact ⟨hrest (by simp [ht]), [t], rfl, .field ht⟩
  · next word ht =>
    have closed := hrest (by simp [ht])
    split
    · next htruth => exact truth_reads ht (by simpa using htruth) closed
    · next hother =>
      obtain ⟨htrue, hfalse⟩ : upper word ≠ "TRUE" ∧ upper word ≠ "FALSE" := by simpa using hother
      refine .after closed (by simp) fun l r1 hr1 hl closed1 => ?_
      have hlen : r1.length < rest.length := by simp [hr1]
      refine (parseArgs_reads closed1).bind fun args r2 u _ hu closed2 hargs => ?_
      refine .after closed2 (by simp) fun r r3 hr3 hr closed3 => ?_
      refine ⟨closed3, t :: l :: (u ++ [r]), by simp [hr1, hu, hr3], ?_⟩
      exact isPrimary_callExpr ht htrue hfalse (kind_eq_lparen hl) hargs (kind_eq_rparen hr)
  · next ht =>
    refine (parseConcat_reads (hrest (by simp [ht]))).bind fun e r1 u _ hu closed1 he => ?_
    refine .after closed1 (by simp) fun r r2 hr2 hr closed2 => ?_
    exact ⟨closed2, t :: (u ++ [r]), by simp [hu, hr2], .grouped ht he (kind_eq_rparen hr)⟩
  · exact nofun
termination_by (ts.length, 1)

theorem parseArgs_reads (hts : Closed ts) : Reads AreArgs ts (unproved (parseArgs ts)) := by
  have hconcat := parseConcat_reads hts
  obtain ⟨t, rest, rfl, -⟩ := hts.cases
  rw [unproved_parseArgs]
  split
  · exact ⟨hts, [], rfl, .none⟩
  · refine hconcat.bind fun e r1 u hr hu closed1 he => ?_
    have : r1.length < (t :: rest).length := (of_unproved_eq_ok hr).1
    refine (parseMoreArgs_reads closed1).bind fun es r2 v _ hv closed2 hes => ?_
    exact ⟨closed2, u ++ v, by simp [hu, hv], .some he hes⟩
termination_by (ts.length, 4)

theorem parseMoreArgs_reads (hts : Closed ts) :
    Reads AreMoreArgs ts (unproved (parseMoreArgs ts)) := by
  obtain ⟨t, rest, rfl, hrest⟩ := hts.cases
  rw [unproved_parseMoreArgs]
  split
  · next ht =>
    refine (parseConcat_reads (hrest (by simp [ht]))).bind fun e r1 u hr hu closed1 he => ?_
    have : r1.length < rest.length := (of_unproved_eq_ok hr).1
    refine (parseMoreArgs_reads closed1).bind fun es r2 v _ hv closed2 hes => ?_
    exact ⟨closed2, t :: (u ++ v), by simp [hu, hv], .cons ht he hes⟩
  · exact ⟨hts, [], rfl, .nil⟩
termination_by (ts.length, 0)

end

/-! ### What is derived is found

The parser decides by the next token whether to go on. So what follows a derived list must not
start with a token that could continue it. -/

def Starts (p : Lexeme → Prop) (ts : List Token) : Prop :=
  ∃ (t : Token) (rest : List Token), ts = t :: rest ∧ p t.lexeme

theorem Starts.cons (h : p t.lexeme) : Starts p (t :: rest) := ⟨t, rest, rfl, h⟩

def EndsPrimary (l : Lexeme) : Prop := l ≠ .lparen

def EndsComparison (l : Lexeme) : Prop := EndsPrimary l ∧ ∀ op, l ≠ .relation op

def EndsConcat (l : Lexeme) : Prop := EndsComparison l ∧ l ≠ .ampersand

theorem Starts.imp (h : Starts p ts) (hpq : ∀ l, p l → q l) : Starts q ts := by
  obtain ⟨t, rest, rfl, ht⟩ := h
  exact .cons (hpq _ ht)

theorem endsConcat_rparen : EndsConcat .rparen := by
  simp [EndsConcat, EndsComparison, EndsPrimary]

theorem endsConcat_comma : EndsConcat .comma := by
  simp [EndsConcat, EndsComparison, EndsPrimary]

theorem endsComparison_ampersand : EndsComparison .ampersand := by
  simp [EndsComparison, EndsPrimary]

theorem endsPrimary_relation (op) : EndsPrimary (.relation op) := by
  simp [EndsPrimary]

/-- Nothing that is derived starts with a closing parenthesis, which is how the parser tells
that a call has no arguments. -/
theorem IsPrimary.starts (h : IsPrimary u e) (rest) : Starts (· ≠ .rparen) (u ++ rest) := by
  cases h <;> exact .cons (by simp [*])

theorem IsComparison.starts (h : IsComparison u e) (rest) : Starts (· ≠ .rparen) (u ++ rest) := by
  cases h with
  | operand he => exact he.starts rest
  | related hl _ _ => simpa using hl.starts _

theorem IsConcat.starts (h : IsConcat u e) (rest) : Starts (· ≠ .rparen) (u ++ rest) := by
  cases h with
  | single he => exact he.starts rest
  | joined he _ => simpa using he.starts _

def Opens (l : Lexeme) : Prop := l ≠ .ampersand ∧ ∀ op, l ≠ .relation op

theorem IsPrimary.opens (h : IsPrimary u e) : Starts Opens u := by
  cases h <;> exact .cons (by simp [Opens, *])

theorem IsComparison.opens (h : IsComparison u e) : Starts Opens u := by
  cases h with
  | operand he => exact he.opens
  | related hl _ _ =>
    obtain ⟨t, rest, rfl, ht⟩ := hl.opens
    exact .cons ht

theorem IsConcat.opens (h : IsConcat u e) : Starts Opens u := by
  cases h with
  | single he => exact he.opens
  | joined he _ =>
    obtain ⟨t, rest, rfl, ht⟩ := he.opens
    exact .cons ht

theorem AreMoreArgs.next (h : AreMoreArgs u es) (hrest : Starts (· = .rparen) rest) :
    Starts EndsConcat (u ++ rest) := by
  cases h with
  | nil => exact hrest.imp fun _ hl => hl ▸ endsConcat_rparen
  | cons ht _ _ => exact .cons (ht ▸ endsConcat_comma)

theorem ArePartsOf.next (h : ArePartsOf u es) (hrest : Starts EndsConcat rest) :
    Starts EndsComparison (u ++ rest) := by
  cases h with
  | nil => exact hrest.imp fun _ hl => hl.1
  | cons ht _ _ => exact .cons (ht ▸ endsComparison_ampersand)

-- The recursion is on the derivation.
mutual

/-- **Completeness.** The parser finds what tokens derive, and leaves what follows them. -/
theorem IsConcat.parses {u e} (h : IsConcat u e) {rest}
    (hrest : Starts EndsConcat rest) : unproved (parseConcat (u ++ rest)) = .ok (e, rest) := by
  match h with
  | .single he =>
    obtain ⟨t, rest, rfl, ht⟩ := hrest
    rw [unproved_parseConcat, he.parses (.cons ht.1)]
    simp [unproved_parseParts, ht.2, concatExpr]
  | .joined he hes =>
    rw [unproved_parseConcat, append_assoc, he.parses (hes.next hrest)]
    simp [hes.parses hrest, concatExpr]

theorem ArePartsOf.parses {u es} (h : ArePartsOf u es) {rest} (hrest : Starts EndsConcat rest) :
    unproved (parseParts (u ++ rest)) = .ok (es, rest) := by
  match h with
  | .nil =>
    obtain ⟨t, rest, rfl, ht⟩ := hrest
    simp [unproved_parseParts, ht.2]
  | .cons ht he hes =>
    rw [cons_append, unproved_parseParts, if_pos ht, append_assoc,
      he.parses (hes.next hrest)]
    simp [hes.parses hrest]

theorem IsComparison.parses {u e} (h : IsComparison u e)
    {rest} (hrest : Starts EndsComparison rest) :
    unproved (parseComparison (u ++ rest)) = .ok (e, rest) := by
  match h with
  | .operand he =>
    obtain ⟨t, rest, rfl, ht⟩ := hrest
    rw [unproved_parseComparison, he.parses (.cons ht.1)]
    simp only [ok_bind]
    split
    · next op hop => exact absurd hop (ht.2 op)
    · rfl
  | .related hl ht hr =>
    have hnext : ∀ v, Starts EndsPrimary (_ :: v) := fun v => .cons (ht ▸ endsPrimary_relation _)
    rw [unproved_parseComparison, append_assoc, cons_append, hl.parses (hnext _)]
    simp [ht, hr.parses (hrest.imp fun _ hl => hl.1)]

theorem IsPrimary.parses {u e} (h : IsPrimary u e) {rest}
    (hrest : Starts EndsPrimary rest) : unproved (parsePrimary (u ++ rest)) = .ok (e, rest) := by
  match h with
  | .string ht => simp [unproved_parsePrimary, ht]
  | .number ht => simp [unproved_parsePrimary, ht]
  | .field ht => simp [unproved_parsePrimary, ht]
  | .truth (b := b) ht hb =>
    obtain ⟨l, rest, rfl, hl⟩ := hrest
    cases b <;>
      simp [unproved_parsePrimary, ht, hb, afterUnit_cons, show ¬ l.lexeme = .lparen from hl]
  | .truthUnit (b := b) ht hb hl hr =>
    cases b <;>
      simp [unproved_parsePrimary, ht, hb, afterUnit_cons, hl, hr, after_cons, Lexeme.kind]
  | .negation (r := r) ht hnot hl he hr =>
    have hclose : Starts (· = .rparen) (r :: rest) := .cons hr
    have hargs := he.parses hclose
    simp [unproved_parsePrimary, ht, hnot, hl, hr, after_cons, Lexeme.kind, callExpr, hargs]
  | @IsPrimary.call _ _ r word _ es ht htrue hfalse hone hl hes hr =>
    have hclose : Starts (· = .rparen) (r :: rest) := .cons hr
    have hargs := hes.parses hclose
    have hcall : callExpr (upper word) es = .call (upper word) es := by
      unfold callExpr
      split
      · split
        · next hnot => exact absurd rfl (hone hnot)
        · rfl
      · rfl
    simp [unproved_parsePrimary, ht, htrue, hfalse, hl, hr, after_cons, Lexeme.kind, hcall, hargs]
  | .grouped (r := r) hl he hr =>
    have hclose : Starts EndsConcat (r :: rest) := .cons (hr ▸ endsConcat_rparen)
    have hin := he.parses hclose
    rw [cons_append, append_assoc, unproved_parsePrimary]
    simp [hl, hr, after_cons, Lexeme.kind, hin]

theorem AreArgs.parses {u es} (h : AreArgs u es) {rest}
    (hrest : Starts (· = .rparen) rest) : unproved (parseArgs (u ++ rest)) = .ok (es, rest) := by
  match h with
  | .none =>
    obtain ⟨t, rest, rfl, ht⟩ := hrest
    simp [unproved_parseArgs, ht]
  | @AreArgs.some _ us _ _ he hes =>
    have hconcat := he.parses (hes.next hrest)
    obtain ⟨t, v, hv, ht⟩ := he.starts (us ++ rest)
    rw [append_assoc, hv, unproved_parseArgs, if_neg ht, ← hv, hconcat]
    simp [hes.parses hrest]

theorem AreMoreArgs.parses {u es} (h : AreMoreArgs u es)
    {rest} (hrest : Starts (· = .rparen) rest) :
    unproved (parseMoreArgs (u ++ rest)) = .ok (es, rest) := by
  match h with
  | .nil =>
    obtain ⟨t, rest, rfl, ht⟩ := hrest
    simp [unproved_parseMoreArgs, ht]
  | .cons ht he hes =>
    rw [cons_append, unproved_parseMoreArgs, if_pos ht, append_assoc,
      he.parses (hes.next hrest)]
    simp [hes.parses hrest]

end

/-! ### Tokens of a derivation -/

/-- Tokens whose parentheses match; those outside parentheses have a property. -/
inductive Level : (Lexeme → Prop) → List Token → Prop where
  | nil {P : Lexeme → Prop} : Level P []
  | cons {P : Lexeme → Prop} {t : Token} {ts : List Token} :
      P t.lexeme → t.lexeme ≠ .lparen → t.lexeme ≠ .rparen → Level P ts → Level P (t :: ts)
  | parens {P : Lexeme → Prop} {l r : Token} {us ts : List Token} :
      l.lexeme = .lparen → Level (fun _ => True) us → r.lexeme = .rparen → Level P ts →
        Level P (l :: (us ++ r :: ts))

section

variable {P Q : Lexeme → Prop} {ts us : List Token} {t : Token}

theorem Level.append (h : Level P ts) (h' : Level P us) : Level P (ts ++ us) := by
  induction h with
  | nil => exact h'
  | cons hp hl hr _ ih => exact .cons hp hl hr (ih h')
  | parens hl hus hr _ _ ih =>
    rw [cons_append, append_assoc]
    exact .parens hl hus hr (ih h')

theorem Level.imp (h : Level P ts) (hPQ : ∀ l, P l → Q l) : Level Q ts := by
  induction h with
  | nil => exact .nil
  | cons hp hl hr _ ih => exact .cons (hPQ _ hp) hl hr (ih hPQ)
  | parens hl hus hr _ _ ih => exact .parens hl hus hr (ih hPQ)

theorem Level.all (h : Level P ts) : Level (fun _ => True) ts := h.imp fun _ _ => trivial

end

def Within (l : Lexeme) : Prop := l ≠ .comma ∧ l ≠ .ampersand

def Occurs (subterms : List Expr) : Lexeme → Prop
  | .string s => .str s ∈ subterms
  | .fieldRef name => .field name ∈ subterms
  | .name word =>
    upper word ∈ ["TRUE", "FALSE", "NOT"] ∨ ∃ es, .call (upper word) es ∈ subterms
  | .relation op => ∃ l r, .binary op l r ∈ subterms
  | .eof => False
  | _ => True

theorem Occurs.mono (h : Occurs ss l) (hss : ss ⊆ ss') : Occurs ss' l := by
  cases l with
  | string s => exact hss h
  | fieldRef name => exact hss h
  | name word => exact h.imp id fun ⟨es, hes⟩ => ⟨es, hss hes⟩
  | relation op =>
    obtain ⟨l, r, hmem⟩ := h
    exact ⟨l, r, hss hmem⟩
  | _ => exact h

/-- What derivations leave in a tree, in one place: signs and leaves are those of lexemes with the
property `p`, a negation is a call only if it does not have one argument, and something is joined. -/
def Built (p : Lexeme → Prop) : Expr → Prop
  | .bool _ => True
  | .int n => p (.number n)
  | .str s => p (.string s)
  | .misfit _ _ => False
  | .field name => p (.fieldRef name)
  | .binary op _ _ => p (.relation op)
  | .unary op _ => op = "NOT"
  | .call name args => (∃ word, p (.name word) ∧ upper word = name) ∧ (name = "NOT" → args.length ≠ 1)
  | .concat parts => parts ≠ []

/-- What tokens have to do with the subterms they derive: outside parentheses they have a property,
each of them occurs, and the subterms are built from them. -/
structure Traces (P : Lexeme → Prop) (u : List Token) (ss : List Expr) : Prop where
  level : Level P u
  occurs : ∀ t ∈ u, Occurs ss t.lexeme
  built : ∀ p : Lexeme → Prop, (∀ t ∈ u, p t.lexeme) → ∀ s ∈ ss, Built p s

namespace Traces

variable {P Q : Lexeme → Prop} {us : List Token} {ss ss' : List Expr}

theorem nil : Traces P [] [] := ⟨.nil, by simp, by simp⟩

theorem imp (h : Traces P u ss) (hPQ : ∀ l, P l → Q l) : Traces Q u ss :=
  { h with level := h.level.imp hPQ }

theorem of_mem (h : Traces P u ss) (hss : ∀ s, s ∈ ss ↔ s ∈ ss') : Traces P u ss' where
  level := h.level
  occurs t ht := (h.occurs t ht).mono fun s hs => (hss s).mp hs
  built p hp s hs := h.built p hp s ((hss s).mpr hs)

theorem append (h : Traces P u ss) (h' : Traces P us ss') : Traces P (u ++ us) (ss ++ ss') where
  level := h.level.append h'.level
  occurs := forall_mem_append.mpr ⟨fun t ht => (h.occurs t ht).mono (subset_append_left _ _),
    fun t ht => (h'.occurs t ht).mono (subset_append_right _ _)⟩
  built p hp := by
    rw [forall_mem_append] at hp
    exact forall_mem_append.mpr ⟨h.built p hp.1, h'.built p hp.2⟩

theorem token (ht : t.lexeme = l) (hl : P l ∧ l ≠ .lparen ∧ l ≠ .rparen ∧ Occurs ss l)
    (hss : ∀ p : Lexeme → Prop, p l → ∀ s ∈ ss, Built p s) : Traces P [t] ss := by
  subst ht
  exact ⟨.cons hl.1 hl.2.1 hl.2.2.1 .nil, forall_mem_singleton.mpr hl.2.2.2,
    fun p hp => hss p (hp t (.head _))⟩

theorem parens {l r} (hl : l.lexeme = .lparen) (h : Traces Q u ss) (hr : r.lexeme = .rparen) :
    Traces P (l :: (u ++ [r])) ss where
  level := .parens hl h.level.all hr .nil
  occurs := by simpa [hl, hr, Occurs, or_imp, forall_and] using h.occurs
  built p hp := h.built p fun t ht => hp t (by simp [ht])

end Traces

-- The recursion is on the derivation.
mutual

theorem IsConcat.traces {u e} (h : IsConcat u e) : Traces (· ≠ .comma) u e.subterms := by
  match h with
  | .single he => exact he.traces.imp fun _ hl => hl.1
  | .joined he hes =>
    have hall := (he.traces.imp fun _ hl => hl.1).append hes.traces
    refine ⟨hall.level, fun t ht => (hall.occurs t ht).mono ?_, fun p hp => ?_⟩
    · exact subset_append_left _ _
    · exact forall_mem_append.mpr ⟨hall.built p hp, by simp [Built]⟩

theorem ArePartsOf.traces {u es} (h : ArePartsOf u es) :
    Traces (· ≠ .comma) u (subtermsAll es) := by
  match h with
  | .nil => exact .nil
  | .cons ht he hes =>
    have hsign : Traces (· ≠ .comma) _ [] := .token ht (by simp [Occurs]) (by simp)
    exact hsign.append ((he.traces.imp fun _ hl => hl.1).append hes.traces)

theorem IsComparison.traces {u e} (h : IsComparison u e) : Traces Within u e.subterms := by
  match h with
  | .operand he => exact he.traces
  | @IsComparison.related _ _ _ op l r hl ht hr =>
    have hsign : Traces Within _ [.binary op l r] :=
      .token ht (by simp [Within, Occurs]) (by simp [Built])
    refine (hl.traces.append (hsign.append hr.traces)).of_mem fun s => ?_
    simp only [subterms, mem_append]
    tauto

theorem IsPrimary.traces {u e} (h : IsPrimary u e) : Traces Within u e.subterms := by
  match h with
  | .string ht | .number ht | .field ht =>
    exact .token ht (by simp [Within, Occurs, subterms]) (by simp [Built, subterms])
  | .truth (b := b) ht hb =>
    exact .token ht (by cases b <;> simp [Within, Occurs, hb]) (by simp [Built, subterms])
  | .truthUnit (b := b) ht hb hl hr =>
    have hword : Traces Within _ [.bool b] :=
      .token ht (by cases b <;> simp [Within, Occurs, hb]) (by simp [Built])
    exact hword.append (.parens (Q := Within) hl .nil hr)
  | @IsPrimary.negation _ _ _ _ _ e ht hnot hl he hr =>
    have hword : Traces Within _ [.unary "NOT" e] :=
      .token ht (by simp [Within, Occurs, hnot]) (by simp [Built])
    exact (hword.append (.parens hl he.traces hr)).of_mem (by simp [subterms, subtermsAll, or_comm])
  | @IsPrimary.call _ _ _ word _ es ht _ _ hnot hl hes hr =>
    have hword : Traces Within _ [.call (upper word) es] := .token ht (by simp [Within, Occurs])
      fun p hp => forall_mem_singleton.mpr ⟨⟨_, hp, rfl⟩, hnot⟩
    exact (hword.append (.parens hl hes.traces hr)).of_mem (by simp [subterms, or_comm])
  | .grouped hl he hr => exact .parens hl he.traces hr

theorem AreArgs.traces {u es} (h : AreArgs u es) : Traces (fun _ => True) u (subtermsAll es) := by
  match h with
  | .none => exact .nil
  | .some he hes => exact (he.traces.imp fun _ _ => trivial).append hes.traces

theorem AreMoreArgs.traces {u es} (h : AreMoreArgs u es) :
    Traces (fun _ => True) u (subtermsAll es) := by
  match h with
  | .nil => exact .nil
  | .cons ht he hes =>
    have hsign : Traces (fun _ => True) _ [] := .token ht (by simp [Occurs]) (by simp)
    exact hsign.append ((he.traces.imp fun _ _ => trivial).append hes.traces)

end

/-! ### The parser decides the grammar -/

theorem parseTokens_eq (ts : List Token) :
    parseTokens ts = (do
      let (e, rest) ← unproved (parseConcat ts)
      match rest with
      | [] => .error .exhausted
      | t :: _ => if t.lexeme = .eof then .ok e else .error (.trailing t)) := by
  unfold parseTokens
  rcases parseConcat ts with _ | ⟨e, rest, h⟩
  · rfl
  · cases rest <;> rfl

/-- A place in tokens before their end token `t`: a parsing function that starts with `v` still
to be read leaves a part of `v` and the end token, or fails otherwise than by running out. -/
def KeepsEnd {α : Type} (t : Token) (v : List Token) :
    Except ParseError (α × List Token) → Prop
  | .ok (_, rest) => ∃ w, w <:+ v ∧ rest = w ++ [t]
  | .error e => e ≠ .exhausted

theorem Reads.keepsEnd
    {r : Except ParseError (α × List Token)} (h : Reads P (v ++ [t]) r) : KeepsEnd t v r := by
  cases r with
  | error e => exact h
  | ok x =>
    obtain ⟨⟨w, t', hw, -, -⟩, u, hu, -⟩ := h
    rw [hw, ← append_assoc] at hu
    obtain ⟨rfl, ht⟩ := append_inj' hu rfl
    obtain rfl : t = t' := by simpa using ht
    exact ⟨w, suffix_append u w, hw⟩

section

variable {us : List Token} {t : Token}

theorem isConcat_of_parseTokens (ht : t.lexeme = .eof) (hus : ∀ u ∈ us, u.lexeme ≠ .eof)
    (h : parseTokens (us ++ [t]) = .ok e) : IsConcat us e := by
  have hclosed : Closed (us ++ [t]) := ⟨us, t, rfl, ht, hus⟩
  have hreads := parseConcat_reads hclosed
  rw [parseTokens_eq] at h
  obtain ⟨⟨e', rest⟩, hr, h⟩ := bind_eq_ok_iff.mp h
  rw [hr] at hreads
  obtain ⟨⟨w, t', hrest, ht', hw⟩, u, hu, he⟩ := hreads
  cases w with
  | cons x w =>
    -- a token before the end token is trailing
    simp [hrest, hw x] at h
  | nil => simp_all

theorem parseTokens_of_isConcat (ht : t.lexeme = .eof) {e} (h : IsConcat us e) :
    parseTokens (us ++ [t]) = .ok e := by
  have hends : EndsConcat t.lexeme := by simp [ht, EndsConcat, EndsComparison, EndsPrimary]
  rw [parseTokens_eq, h.parses (.cons hends)]
  simp [ht]

theorem parseTokens_ne_exhausted (ht : t.lexeme = .eof) (hus : ∀ u ∈ us, u.lexeme ≠ .eof) :
    parseTokens (us ++ [t]) ≠ .error .exhausted := by
  intro h
  have hclosed : Closed (us ++ [t]) := ⟨us, t, rfl, ht, hus⟩
  have hkeeps := (parseConcat_reads hclosed).keepsEnd
  rw [parseTokens_eq] at h
  rcases bind_eq_error_iff.mp h with hr | ⟨⟨e, rest⟩, hr, h⟩
  · rw [hr] at hkeeps
    exact hkeeps rfl
  · rw [hr] at hkeeps
    obtain ⟨w, -, rfl⟩ := hkeeps
    cases w with
    | nil => simp [ht] at h
    | cons x w =>
      simp only [cons_append] at h
      split at h <;> simp at h

end

/-- **The parser decides the grammar.** On tokens before their only end token it accepts a tree
exactly when the tokens derive it, they derive at most one, and otherwise it fails with a fault of
grammar. Wherever one of its functions starts, the end token stays unread. -/
theorem parseTokens_decides (us : List Token) (t : Token) (ht : t.lexeme = .eof)
    (hus : ∀ u ∈ us, u.lexeme ≠ .eof) : (∀ e, parseTokens (us ++ [t]) = .ok e ↔ IsConcat us e) ∧
    (∀ e e', IsConcat us e → IsConcat us e' → e = e') ∧ ((¬ ∃ e, IsConcat us e) →
      ∃ err, parseTokens (us ++ [t]) = .error err ∧ err.fault.kind = .grammar) ∧ ∀ v, v <:+ us →
      KeepsEnd t v (unproved (parseConcat (v ++ [t]))) ∧
      KeepsEnd t v (unproved (parseParts (v ++ [t]))) ∧
      KeepsEnd t v (unproved (parseComparison (v ++ [t]))) ∧
      KeepsEnd t v (unproved (parsePrimary (v ++ [t]))) ∧
      KeepsEnd t v (unproved (parseArgs (v ++ [t]))) ∧
      KeepsEnd t v (unproved (parseMoreArgs (v ++ [t]))) := by
  refine ⟨fun e => ⟨isConcat_of_parseTokens ht hus, parseTokens_of_isConcat ht⟩, ?_, ?_, ?_⟩
  · intro e e' h h'
    have hparse := parseTokens_of_isConcat ht h
    rw [parseTokens_of_isConcat ht h'] at hparse
    exact (Except.ok.inj hparse).symm
  · intro hnone
    cases hparse : parseTokens (us ++ [t]) with
    | ok e => exact absurd ⟨e, isConcat_of_parseTokens ht hus hparse⟩ hnone
    | error err =>
      refine ⟨err, rfl, ?_⟩
      have hne := parseTokens_ne_exhausted ht hus
      rw [hparse] at hne
      cases err with
      | exhausted => exact absurd rfl hne
      | _ => rfl
  · intro v hv
    have closed : Closed (v ++ [t]) := ⟨v, t, rfl, ht, fun u hu => hus u (hv.subset hu)⟩
    exact ⟨(parseConcat_reads closed).keepsEnd, (parseParts_reads closed).keepsEnd,
      (parseComparison_reads closed).keepsEnd, (parsePrimary_reads closed).keepsEnd,
      (parseArgs_reads closed).keepsEnd, (parseMoreArgs_reads closed).keepsEnd⟩

def negationTokens : List Token :=
  [⟨.name "Not", 0⟩, ⟨.lparen, 3⟩, ⟨.fieldRef "A", 4⟩, ⟨.relation .eq, 10⟩, ⟨.name "TRUE", 12⟩,
    ⟨.lparen, 16⟩, ⟨.rparen, 17⟩, ⟨.rparen, 18⟩, ⟨.ampersand, 20⟩, ⟨.string "x", 22⟩]

theorem parseTokens_decides_negation : (∀ u ∈ negationTokens, u.lexeme ≠ .eof) ∧
      parseTokens (negationTokens ++ [⟨.eof, 25⟩]) =
        .ok (.concat [.unary "NOT" (.binary .eq (.field "A") (.bool true)), .str "x"]) := by
  have hus : ∀ u ∈ negationTokens, u.lexeme ≠ .eof := by decide
  refine ⟨hus, ((parseTokens_decides negationTokens ⟨.eof, 25⟩ rfl hus).1 _).mpr ?_⟩
  have htrue : IsPrimary [⟨.name "TRUE", 12⟩, ⟨.lparen, 16⟩, ⟨.rparen, 17⟩] (.bool true) :=
    .truthUnit rfl (by decide) rfl rfl
  have hcmp := IsConcat.single
    (.related (.field (t := ⟨.fieldRef "A", 4⟩) rfl) (t := ⟨.relation .eq, 10⟩) rfl htrue)
  have hnot := IsPrimary.negation (t := ⟨.name "Not", 0⟩) (l := ⟨.lparen, 3⟩) (r := ⟨.rparen, 18⟩)
    rfl (by decide) rfl (.some hcmp .nil) rfl
  exact .joined (.operand hnot)
    (.cons (t := ⟨.ampersand, 20⟩) rfl (.operand (.string (t := ⟨.string "x", 22⟩) rfl)) .nil)

end Rulebook.Formula
