/-
The grammar of constraints, and the parser that follows it.

`Derives k u e` says that the lexemes `u` derive the tree `e` at the level `k` of precedence.
Operators of one level associate to the left.
-/

import Rulebook.Constraint.Parser
import Rulebook.Proofs.Constraint.Lexing

open List

namespace Rulebook.Constraint

open Text Lexeme

variable {t : Token} {k : Level} {name s : String} {u : List Lexeme} {P : Lexeme → Prop}
  {rest ts : List Token}

/-! ### The grammar -/

/-- The word `self` alone, which a dot would make part of more. -/
def BareSelf (u : List Lexeme) : Prop := ∃ s, u = [.identifier s] ∧ lower s = "self"

mutual

inductive Derives : Level → List Lexeme → Expr → Prop where
  | up {k : Level} {u : List Lexeme} {e : Expr} :
      k ≠ .primary → Derives k.next u e → Derives k u e
  | chain {k : Level} {u v : List Lexeme} {x : Lexeme} {op : BinaryOp} {l r : Expr} :
      k.chains → Derives k u l → k.op? x = some op → Derives k.next v r →
        Derives k (u ++ x :: v) (.binary op l r)
  | negation {s : String} {u : List Lexeme} {e : Expr} :
      Derives .negation u e → Derives .negation (.keyword .not s :: u) (.not e)
  | related {u v : List Lexeme} {x : Lexeme} {op : BinaryOp} {l r : Expr} :
      Derives .sum u l → x.relation? = some op → Derives .sum v r →
        Derives .comparison (u ++ x :: v) (.binary op l r)
  | method {u v : List Lexeme} {e : Expr} {name : String} {args : List Expr} :
      Derives .access u e → ¬ BareSelf u → AreArgs v args →
        Derives .access
          (u ++ .mark .dot :: .identifier name :: .mark .lparen :: (v ++ [.mark .rparen]))
          (.method e name args)
  | property {u : List Lexeme} {e : Expr} {name : String} :
      Derives .access u e → ¬ BareSelf u →
        Derives .access (u ++ [.mark .dot, .identifier name]) (.method e name [])
  | truth {b : Bool} {s : String} :
      Derives .primary [.keyword (if b then .true else .false) s] (.bool b)
  | number {n : Int} : Derives .primary [.number n] (.int n)
  | string {s : String} : Derives .primary [.string s] (.str s)
  | attr {name : String} : Derives .primary [.identifier name] (.attr name)
  | selfAttr {s name : String} :
      lower s = "self" →
        Derives .primary [.identifier s, .mark .dot, .identifier name] (.attr name)
  | group {u : List Lexeme} {e : Expr} :
      Derives .disjunction u e → Derives .primary (.mark .lparen :: (u ++ [.mark .rparen])) e
  | choice {u v w : List Lexeme} {c y n : Expr} {s1 s2 s3 s4 : String} :
      Derives .disjunction u c → Derives .disjunction v y → Derives .disjunction w n →
        Derives .primary
          (.keyword .if s1 :: (u ++ .keyword .then s2 ::
            (v ++ .keyword .else s3 :: (w ++ [.keyword .endif s4])))) (.ite c y n)

inductive AreArgs : List Lexeme → List Expr → Prop where
  | none : AreArgs [] []
  | some {u v : List Lexeme} {e : Expr} {es : List Expr} :
      Derives .disjunction u e → AreMoreArgs v es → AreArgs (u ++ v) (e :: es)

inductive AreMoreArgs : List Lexeme → List Expr → Prop where
  | nil : AreMoreArgs [] []
  | cons {u v : List Lexeme} {e : Expr} {es : List Expr} :
      Derives .disjunction u e → AreMoreArgs v es →
        AreMoreArgs (.mark .comma :: (u ++ v)) (e :: es)

end

/-! ### The parsing functions by level -/

def parseAt (k : Level) (ts : List Token) : Except ParseError (Expr × List Token) :=
  unproved (parseLevel k ts)

/-- Reads what continues a tree of a level, where the level has such a thing. -/
def continueAt (k : Level) (e : Expr) (ts : List Token) : Except ParseError (Expr × List Token) :=
  if k.chains then unproved (parseMore k e ts)
  else if k = .access then unproved (parseMethods e ts)
  else .ok (e, ts)

def after (want : TokenKind) (ts : List Token) : Except ParseError (List Token) :=
  (expect want ts).map Subtype.val

theorem after_of_lexeme (h : t.lexeme = l) (rest) : after l.kind (t :: rest) = .ok rest := by
  simp [after, expect, h, Except.map]

theorem parseLevel_negation (ts) : parseLevel .negation ts = parseNot ts := by
  rw [parseLevel]
  rfl

theorem parseLevel_comparison (ts) : parseLevel .comparison ts = parseComparison ts := by
  rw [parseLevel]
  rfl

theorem parseLevel_access (ts) : parseLevel .access ts = parsePostfix ts := by
  rw [parseLevel]
  rfl

theorem parseLevel_primary (ts) : parseLevel .primary ts = parsePrimary ts := by
  rw [parseLevel]
  rfl

theorem continueAt_access (e ts) : continueAt .access e ts = unproved (parseMethods e ts) := rfl

theorem continueAt_primary (e ts) : continueAt .primary e ts = .ok (e, ts) :=
  rfl

theorem parseAt_chain (hk : k.chains) (ts : List Token) :
    parseAt k ts = (do
      let (l, r) ← parseAt k.next ts
      continueAt k l r) := by
  simp only [parseAt, continueAt, hk, if_true]
  rw [parseLevel, dif_pos hk]
  cases parseLevel k.next ts with
  | error e => rfl
  | ok x => cases h : parseMore k x.1 x.2.val <;> simp [h]

theorem continueAt_chain (hk : k.chains) (l : Expr) (t : Token) (rest : List Token) :
    continueAt k l (t :: rest) =
      match k.op? t.lexeme with
      | some op => do
        let (r, ts) ← parseAt k.next rest
        continueAt k (.binary op l r) ts
      | none => .ok (l, t :: rest) := by
  simp only [parseAt, continueAt, hk, if_true]
  rw [parseMore]
  cases k.op? t.lexeme with
  | none => rfl
  | some op =>
    cases parseLevel k.next rest with
    | error e => rfl
    | ok x => cases h : parseMore k (.binary op l x.1) x.2.val <;> simp [h]

theorem parseAt_negation (t : Token) (rest : List Token) :
    parseAt .negation (t :: rest) =
      if t.lexeme.kind = .keyword .not then do
        let (e, r) ← parseAt .negation rest
        .ok (.not e, r)
      else parseAt .comparison (t :: rest) := by
  simp only [parseAt, parseLevel_negation, parseLevel_comparison]
  rw [parseNot]
  split
  · cases parseNot rest <;> rfl
  · rfl

theorem parseAt_comparison (ts : List Token) :
    parseAt .comparison ts = (do
      let (l, r1) ← parseAt .sum ts
      match r1 with
      | [] => .error .exhausted
      | t :: rest =>
        match t.lexeme.relation? with
        | none => .ok (l, t :: rest)
        | some op => do
          let (r, r2) ← parseAt .sum rest
          .ok (.binary op l r, r2)) := by
  simp only [parseAt, parseLevel_comparison]
  rw [parseComparison]
  rcases parseLevel .sum ts with _ | ⟨l, r1, h1⟩
  · rfl
  · cases r1 with
    | nil => rfl
    | cons t rest =>
      cases ht : t.lexeme.relation? with
      | none => simp [ht]
      | some op => cases h2 : parseLevel .sum rest <;> simp [ht, h2]

theorem parseAt_access (ts : List Token) :
    parseAt .access ts = (do
      let (e, r) ← parseAt .primary ts
      continueAt .access e r) := by
  simp only [parseAt, parseLevel_access, parseLevel_primary, continueAt_access, parsePostfix]
  cases parsePrimary ts with
  | error e => rfl
  | ok x => cases h : parseMethods x.1 x.2.val <;> simp [h]

theorem continueAt_access_of_ne (e) (h : t.lexeme ≠ .mark .dot) (rest) :
    continueAt .access e (t :: rest) = .ok (e, t :: rest) := by
  simp only [continueAt_access]
  rw [parseMethods, if_neg h]
  rfl

theorem continueAt_access_call (e : Expr) {i l : Token} (ht : t.lexeme = .mark .dot)
    (hi : i.lexeme = .identifier name) (hl : l.lexeme = .mark .lparen) (rest : List Token) :
    continueAt .access e (t :: i :: l :: rest) = (do
      let (args, r1) ← unproved (parseArgs rest)
      let r2 ← after (.mark .rparen) r1
      continueAt .access (.method e name args) r2) := by
  simp only [continueAt_access]
  rw [parseMethods]
  simp only [ht, if_true, identifier, hi, hl]
  cases h1 : parseArgs rest with
  | error e => rfl
  | ok x =>
    cases h2 : expect (.mark .rparen) x.2.val with
    | error e => simp [after, h2, Except.map]
    | ok r =>
      cases h3 : parseMethods (.method e name x.1) r.val <;> simp [after, h2, h3, Except.map]

theorem continueAt_access_property (e) {i u} (ht : t.lexeme = .mark .dot)
    (hi : i.lexeme = .identifier name) (hu : u.lexeme ≠ .mark .lparen) (rest) :
    continueAt .access e (t :: i :: u :: rest) =
      continueAt .access (.method e name []) (u :: rest) := by
  simp only [continueAt_access]
  rw [parseMethods]
  simp only [ht, if_true, identifier, hi, hu, if_false]
  cases parseMethods (.method e name []) (u :: rest) <;> simp

theorem unproved_parseArgs (t : Token) (rest : List Token) :
    unproved (parseArgs (t :: rest)) =
      if t.lexeme = .mark .rparen then .ok ([], t :: rest)
      else (do
        let (e, r1) ← parseAt .disjunction (t :: rest)
        let (es, r2) ← unproved (parseMoreArgs r1)
        .ok (e :: es, r2)) := by
  simp only [parseAt]
  rw [parseArgs]
  split
  · rfl
  · cases parseLevel .disjunction (t :: rest) with
    | error e => rfl
    | ok x => cases h : parseMoreArgs x.2.val <;> simp [h]

theorem unproved_parseMoreArgs (t : Token) (rest : List Token) :
    unproved (parseMoreArgs (t :: rest)) =
      if t.lexeme = .mark .comma then do
        let (e, r1) ← parseAt .disjunction rest
        let (es, r2) ← unproved (parseMoreArgs r1)
        .ok (e :: es, r2)
      else .ok ([], t :: rest) := by
  simp only [parseAt]
  rw [parseMoreArgs]
  split
  · cases parseLevel .disjunction rest with
    | error e => rfl
    | ok x => cases h : parseMoreArgs x.2.val <;> simp [h]
  · rfl

theorem parseAt_primary_identifier (ht : t.lexeme = .identifier name) (u rest) :
    parseAt .primary (t :: u :: rest) = if lower name = "self" && u.lexeme = .mark .dot then
        (identifier rest).map fun x => (.attr x.1, x.2.val) else .ok (.attr name, u :: rest) := by
  simp only [parseAt, parseLevel_primary]
  rw [parsePrimary]
  simp only [ht]
  split
  · cases identifier rest <;> rfl
  · rfl

theorem parseAt_primary_lparen (ht : t.lexeme = .mark .lparen) (rest : List Token) :
    parseAt .primary (t :: rest) = (do
      let (e, r1) ← parseAt .disjunction rest
      let r2 ← after (.mark .rparen) r1
      .ok (e, r2)) := by
  simp only [parseAt, parseLevel_primary]
  rw [parsePrimary]
  simp only [ht]
  cases parseLevel .disjunction rest with
  | error e => rfl
  | ok x => cases h : expect (.mark .rparen) x.2.val <;> simp [after, h, Except.map]

theorem parseAt_primary_if (ht : t.lexeme = .keyword .if s) (rest : List Token) :
    parseAt .primary (t :: rest) = (do
      let (c, r1) ← parseAt .disjunction rest
      let r2 ← after (.keyword .then) r1
      let (y, r3) ← parseAt .disjunction r2
      let r4 ← after (.keyword .else) r3
      let (n, r5) ← parseAt .disjunction r4
      let r6 ← after (.keyword .endif) r5
      .ok (.ite c y n, r6)) := by
  simp only [parseAt, parseLevel_primary]
  rw [parsePrimary]
  simp only [ht]
  cases parseLevel .disjunction rest with
  | error e => rfl
  | ok x =>
    cases h1 : expect (.keyword .then) x.2.val with
    | error e => simp [after, h1, Except.map]
    | ok r2 =>
      cases h2 : parseLevel .disjunction r2.val with
      | error e => simp [after, h1, h2, Except.map]
      | ok y =>
        cases h3 : expect (.keyword .else) y.2.val with
        | error e => simp [after, h1, h2, h3, Except.map]
        | ok r4 =>
          cases h4 : parseLevel .disjunction r4.val with
          | error e => simp [after, h1, h2, h3, h4, Except.map]
          | ok n =>
            cases h5 : expect (.keyword .endif) n.2.val <;>
              simp [after, h1, h2, h3, h4, h5, Except.map]

/-! ### What follows -/

def Starts (P : Lexeme → Prop) (ts : List Token) : Prop :=
  ∃ (t : Token) (rest : List Token), ts = t :: rest ∧ P t.lexeme

theorem Starts.cons (h : P t.lexeme) : Starts P (t :: rest) :=
  ⟨t, rest, rfl, h⟩

theorem Starts.imp (h : Starts P ts) (hPQ : ∀ l, P l → Q l) : Starts Q ts := by
  obtain ⟨t, rest, rfl, ht⟩ := h
  exact ⟨t, rest, rfl, hPQ _ ht⟩

/-- A lexeme that continues no tree of a level or a tighter one. -/
def Ends (k : Level) (l : Lexeme) : Prop :=
  l ≠ .mark .dot ∧ l ≠ .mark .lparen ∧ ∀ j : Level, k.rank ≤ j.rank → j.op? l = none

/-- What may follow lexemes `u` of a level when the parser is to find exactly their tree and then
look for what continues it. -/
def Follows (u : List Lexeme) : Level → Lexeme → Prop
  | .disjunction, l => Ends .conjunction l
  | .conjunction, l => Ends .negation l
  | .negation, l => Ends .negation l
  | .comparison, l => Ends .comparison l
  | .sum, l => Ends .product l
  | .product, l => Ends .access l
  | .access, l | .primary, l => l ≠ .mark .lparen ∧ (l = .mark .dot → ¬ BareSelf u)

theorem Level.rank_le_next (k : Level) : k.rank ≤ k.next.rank := by
  cases k <;> decide

theorem Ends.next (h : Ends k l) : Ends k.next l :=
  ⟨h.1, h.2.1, fun j hj => h.2.2 j (Nat.le_trans k.rank_le_next hj)⟩

theorem Ends.follows (h : Ends k l) (u) : Follows u k l := by
  cases k with
  | disjunction | conjunction | sum | product => exact h.next
  | negation | comparison => exact h
  | access | primary => exact ⟨h.2.1, fun hdot => absurd hdot h.1⟩

theorem continueAt_of_ends (h : Starts (Ends k) rest) : continueAt k e rest = .ok (e, rest) := by
  obtain ⟨t, rest, rfl, ht⟩ := h
  have hnone : k.op? t.lexeme = none := ht.2.2 k (Nat.le_refl _)
  by_cases hk : k.chains
  · rw [continueAt_chain hk, hnone]
  · cases k with
    | disjunction | conjunction | sum | product => exact absurd rfl hk
    | negation | comparison | primary => rfl
    | access => exact continueAt_access_of_ne e ht.1 rest

theorem ends_of_op? (h : k.op? x = some op) : Ends k.next x := by
  have hclass : (∃ s, x = .keyword .or s ∧ k = .disjunction) ∨
      (∃ s, x = .keyword .and s ∧ k = .conjunction) ∨
      (∃ m, x = .mark m ∧ m ∈ [Mark.eq, .ne, .lt, .le, .gt, .ge] ∧ k = .comparison) ∨
      (∃ m, x = .mark m ∧ m ∈ [Mark.plus, .minus] ∧ k = .sum) ∨
      (∃ m, x = .mark m ∧ m ∈ [Mark.star, .slash] ∧ k = .product) := by
    cases k with
    | negation | access | primary => simp [Level.op?] at h
    | disjunction | conjunction =>
      cases x <;> simp_all [Level.op?, kind]
    | comparison | sum | product =>
      cases x with
      | mark m =>
        cases m <;> simp_all [Level.op?, relation?, Mark.relation?, additive?,
          multiplicative?]
      | _ => simp [Level.op?, relation?, additive?, multiplicative?] at h
  rcases hclass with ⟨s, rfl, rfl⟩ | ⟨s, rfl, rfl⟩ | ⟨m, rfl, hm, rfl⟩ | ⟨m, rfl, hm, rfl⟩ |
    ⟨m, rfl, hm, rfl⟩
  · refine ⟨by simp, by simp, fun j hj => ?_⟩
    revert hj
    cases j <;> simp [Level.next, Level.rank, Level.op?, kind, relation?,
      additive?, multiplicative?]
  · refine ⟨by simp, by simp, fun j hj => ?_⟩
    revert hj
    cases j <;> simp [Level.next, Level.rank, Level.op?, kind, relation?,
      additive?, multiplicative?]
  all_goals
    refine ⟨?_, ?_, fun j hj => ?_⟩
    · rintro ⟨⟩
      revert hm
      decide
    · rintro ⟨⟩
      revert hm
      decide
    · revert hm hj
      cases j <;> cases m <;> decide

/-- Lexemes that derive a tree start with no closing parenthesis, and those of a comparison
with no negation. -/
theorem Derives.head {k u e} (h : Derives k u e) : ∃ x v, u = x :: v ∧ x ≠ .mark .rparen ∧
      (Level.comparison.rank ≤ k.rank → x.kind ≠ .keyword .not) := by
  match h with
  | .up _ h =>
    obtain ⟨x, v, rfl, hx, hnot⟩ := h.head
    exact ⟨x, v, rfl, hx, fun hk => hnot (Nat.le_trans hk k.rank_le_next)⟩
  | .chain _ hl _ _ =>
    obtain ⟨x, v, rfl, hx⟩ := hl.head
    exact ⟨x, _, rfl, hx⟩
  | .negation _ => exact ⟨_, _, rfl, by simp, fun hk => absurd hk (by decide)⟩
  | .related hl _ _ =>
    obtain ⟨x, v, rfl, hx, hnot⟩ := hl.head
    exact ⟨x, _, rfl, hx, fun _ => hnot (by decide)⟩
  | .method hu _ _ =>
    obtain ⟨x, v, rfl, hx⟩ := hu.head
    exact ⟨x, _, rfl, hx⟩
  | .property hu _ =>
    obtain ⟨x, v, rfl, hx⟩ := hu.head
    exact ⟨x, _, rfl, hx⟩
  | @Derives.truth b s => exact ⟨_, _, rfl, by simp, by cases b <;> simp [kind]⟩
  | .number | .string | .attr | .selfAttr _ | .group _ | .choice _ _ _ =>
    exact ⟨_, _, rfl, by simp, by simp [kind]⟩

/-! ### What lexemes derive is found -/

theorem map_eq_append_cons (h : ts.map Token.lexeme = u ++ x :: v) :
    ∃ ts1 t ts2, ts = ts1 ++ t :: ts2 ∧
      ts1.map Token.lexeme = u ∧ t.lexeme = x ∧ ts2.map Token.lexeme = v := by
  obtain ⟨ts1, ts', rfl, hu, h⟩ := map_eq_append_iff.mp h
  obtain ⟨t, ts2, rfl, hx, hv⟩ := map_eq_cons_iff.mp h
  exact ⟨ts1, t, ts2, rfl, hu, hx, hv⟩

theorem ends_eof : Ends k .eof := by
  refine ⟨by simp, by simp, fun j _ => ?_⟩
  cases j <;> rfl

theorem ends_rparen : Ends k (.mark .rparen) := by
  refine ⟨by simp, by simp, fun j _ => ?_⟩
  cases j <;> rfl

theorem ends_comma : Ends k (.mark .comma) := by
  refine ⟨by simp, by simp, fun j _ => ?_⟩
  cases j <;> rfl

theorem ends_keyword (h : w ∈ [Keyword.then, .else, .endif]) : Ends k (.keyword w s) := by
  refine ⟨by simp, by simp, fun j _ => ?_⟩
  simp only [mem_cons, not_mem_nil, or_false] at h
  rcases h with rfl | rfl | rfl <;> cases j <;> rfl

/-- Reading lexemes `u` of a level brings the parser to where it looks for what continues `e`. -/
def Finds (k : Level) (u : List Lexeme) (e : Expr) : Prop :=
  ∀ ts rest : List Token, ts.map Token.lexeme = u → Starts (Follows u k) rest →
    parseAt k (ts ++ rest) = continueAt k e rest

/-- Reading lexemes `u` in front of a closing parenthesis gives the arguments `es`. -/
def FindsArgs (parse : List Token → Except ParseError (List Expr × List Token))
    (u : List Lexeme) (es : List Expr) : Prop :=
  ∀ ts rest : List Token, ts.map Token.lexeme = u → Starts (· = .mark .rparen) rest →
    parse (ts ++ rest) = .ok (es, rest)

section

variable {ts rest : List Token} {s name : String} {es : List Expr}

variable {k : Level} {u v w : List Lexeme} {x : Lexeme} {op : BinaryOp} {e l r : Expr}

theorem Finds.parses (h : Finds k u e) (hts : ts.map Token.lexeme = u)
    (hrest : Starts (Ends k) rest) : parseAt k (ts ++ rest) = .ok (e, rest) := by
  rw [h ts rest hts (hrest.imp fun _ hl => hl.follows u), continueAt_of_ends hrest]

theorem follows_chain (hk : k.chains) {l} : Follows u k l ↔ Ends k.next l := by
  cases k with
  | negation | comparison | access | primary => cases hk
  | disjunction | conjunction | sum | product => rfl

theorem finds_chain (hk : k.chains) (hl : Finds k u l) (hop : k.op? x = some op)
    (hr : Finds k.next v r) : Finds k (u ++ x :: v) (.binary op l r) := by
  intro ts rest hts hrest
  obtain ⟨ts1, t, ts2, rfl, hu, rfl, hv⟩ := map_eq_append_cons hts
  have hnext : Starts (Ends k.next) rest := hrest.imp fun _ => (follows_chain hk).mp
  have hfirst : Starts (Follows u k) (t :: (ts2 ++ rest)) :=
    .cons ((follows_chain hk).mpr (ends_of_op? hop))
  rw [append_assoc, cons_append, hl ts1 _ hu hfirst, continueAt_chain hk, hop]
  simp only [hr.parses hv hnext, ok_bind]

theorem finds_negation (h : Finds .negation u e) :
    Finds .negation (.keyword .not s :: u) (.not e) := by
  intro ts rest hts hrest
  obtain ⟨t, ts, rfl, ht, hts⟩ := map_eq_cons_iff.mp hts
  rw [cons_append, parseAt_negation, if_pos (by rw [ht]; rfl), h.parses hts hrest]
  rfl

theorem finds_related (hl : Finds .sum u l) (hop : x.relation? = some op) (hr : Finds .sum v r) :
    Finds .comparison (u ++ x :: v) (.binary op l r) := by
  intro ts rest hts hrest
  obtain ⟨ts1, t, ts2, rfl, hu, rfl, hv⟩ := map_eq_append_cons hts
  have hfirst : Starts (Ends .sum) (t :: (ts2 ++ rest)) :=
    .cons (ends_of_op? (k := .comparison) hop)
  have hnext : Starts (Ends .sum) rest := hrest.imp fun _ (hl : Ends .comparison _) => hl.next
  rw [parseAt_comparison, append_assoc, cons_append, hl.parses hu hfirst]
  simp only [ok_bind, hop, hr.parses hv hnext]
  rfl

theorem finds_up (hne : k ≠ .primary) (h : Finds k.next u e)
    (hhead : k = .negation → ∃ x v, u = x :: v ∧ x.kind ≠ .keyword .not) : Finds k u e := by
  intro ts rest hts hrest
  by_cases hk : k.chains
  · have hnext : Starts (Ends k.next) rest := hrest.imp fun _ => (follows_chain hk).mp
    rw [parseAt_chain hk, h.parses hts hnext, ok_bind]
  · cases k with
    | disjunction | conjunction | sum | product => exact absurd rfl hk
    | primary => exact absurd rfl hne
    | negation =>
      obtain ⟨x, v, rfl, hx⟩ := hhead rfl
      obtain ⟨t, ts, rfl, rfl, hts'⟩ := map_eq_cons_iff.mp hts
      have hnext : Starts (Ends .comparison) rest :=
        hrest.imp fun _ (hl : Ends .negation _) => hl.next
      rw [cons_append, parseAt_negation, if_neg hx, ← cons_append]
      exact h.parses hts hnext
    | comparison =>
      have hnext : Starts (Ends .sum) rest := hrest.imp fun _ (hl : Ends .comparison _) => hl.next
      have hsum : parseAt .sum (ts ++ rest) = .ok (e, rest) := Finds.parses h hts hnext
      rw [parseAt_comparison, hsum]
      obtain ⟨t, rest, rfl, ht⟩ := hrest
      have hnone : t.lexeme.relation? = none := ht.2.2 .comparison (Nat.le_refl _)
      simp only [ok_bind, hnone]
      rfl
    | access =>
      have hprimary : parseAt .primary (ts ++ rest) = .ok (e, rest) := h ts rest hts hrest
      rw [parseAt_access, hprimary, ok_bind]

theorem finds_method (h : Finds .access u e) (hself : ¬ BareSelf u)
    (hargs : FindsArgs (fun ts => unproved (parseArgs ts)) v args) :
    Finds .access (u ++ .mark .dot :: .identifier name :: .mark .lparen :: (v ++ [.mark .rparen]))
      (.method e name args) := by
  intro ts rest hts _
  obtain ⟨ts1, t, ts2, rfl, hu, ht, hts⟩ := map_eq_append_cons hts
  obtain ⟨i, ts2, rfl, hi, hts⟩ := map_eq_cons_iff.mp hts
  obtain ⟨p, ts2, rfl, hp, hts⟩ := map_eq_cons_iff.mp hts
  obtain ⟨ts2, q, ts3, rfl, hv, hq, hnil⟩ := map_eq_append_cons hts
  obtain rfl : ts3 = [] := by simpa using hnil
  have hfirst : ∀ rest, Starts (Follows u .access) (t :: rest) := fun _ =>
    .cons ⟨by simp [ht], fun _ => hself⟩
  have hread : unproved (parseArgs (ts2 ++ q :: rest)) = .ok (args, q :: rest) :=
    hargs ts2 (q :: rest) hv (.cons hq)
  have hclose : after (.mark .rparen) (q :: rest) = .ok rest := after_of_lexeme hq rest
  simp only [append_assoc, cons_append, nil_append]
  rw [h ts1 _ hu (hfirst _), continueAt_access_call e ht hi hp, hread]
  simp only [ok_bind, hclose]

theorem finds_property (h : Finds .access u e) (hself : ¬ BareSelf u) :
    Finds .access (u ++ [.mark .dot, .identifier name]) (.method e name []) := by
  intro ts rest hts hrest
  obtain ⟨ts1, t, ts2, rfl, hu, ht, hts⟩ := map_eq_append_cons hts
  obtain ⟨i, ts2, rfl, hi, hnil⟩ := map_eq_cons_iff.mp hts
  obtain rfl : ts2 = [] := by simpa using hnil
  obtain ⟨q, rest, rfl, hq⟩ := hrest
  have hfirst : ∀ rest, Starts (Follows u .access) (t :: rest) := fun _ =>
    .cons ⟨by simp [ht], fun _ => hself⟩
  simp only [append_assoc, cons_append, nil_append]
  rw [h ts1 _ hu (hfirst _), continueAt_access_property e ht hi hq.1]

theorem finds_single {l} (h : ∀ t rest, t.lexeme = l →
    unproved (parsePrimary (t :: rest)) = .ok (e, rest)) : Finds .primary [l] e := by
  intro ts rest hts _
  obtain ⟨t, ts, rfl, ht, hnil⟩ := map_eq_cons_iff.mp hts
  obtain rfl : ts = [] := by simpa using hnil
  rw [continueAt_primary, parseAt, parseLevel_primary]
  exact h t rest ht

theorem finds_truth {b : Bool} :
    Finds .primary [.keyword (if b then .true else .false) s] (.bool b) :=
  finds_single fun t rest ht => by
    rw [parsePrimary]
    cases b <;> simp [ht]

theorem finds_number {n} : Finds .primary [.number n] (.int n) :=
  finds_single fun t rest ht => by
    rw [parsePrimary]
    simp [ht]

theorem finds_string : Finds .primary [.string s] (.str s) :=
  finds_single fun t rest ht => by
    rw [parsePrimary]
    simp [ht]

theorem finds_attr : Finds .primary [.identifier name] (.attr name) := by
  intro ts rest hts hrest
  obtain ⟨t, ts, rfl, ht, hnil⟩ := map_eq_cons_iff.mp hts
  obtain rfl : ts = [] := by simpa using hnil
  obtain ⟨u, rest, rfl, hu⟩ := hrest
  have hself : ¬ (lower name = "self" ∧ u.lexeme = .mark .dot) := fun h =>
    hu.2 h.2 ⟨name, rfl, h.1⟩
  rw [cons_append, nil_append, parseAt_primary_identifier ht,
    if_neg (by simpa using hself)]
  rfl

theorem finds_selfAttr (hs : lower s = "self") :
    Finds .primary [.identifier s, .mark .dot, .identifier name] (.attr name) := by
  intro ts rest hts _
  obtain ⟨t, ts, rfl, ht, hts⟩ := map_eq_cons_iff.mp hts
  obtain ⟨d, ts, rfl, hd, hts⟩ := map_eq_cons_iff.mp hts
  obtain ⟨i, ts, rfl, hi, hnil⟩ := map_eq_cons_iff.mp hts
  obtain rfl : ts = [] := by simpa using hnil
  simp only [cons_append, nil_append]
  rw [parseAt_primary_identifier ht, if_pos (by simp [hs, hd])]
  simp [identifier, hi, Except.map, continueAt_primary]

theorem finds_group (h : Finds .disjunction u e) :
    Finds .primary (.mark .lparen :: (u ++ [.mark .rparen])) e := by
  intro ts rest hts _
  obtain ⟨t, ts, rfl, ht, hts⟩ := map_eq_cons_iff.mp hts
  obtain ⟨ts, q, ts', rfl, hu, hq, hnil⟩ := map_eq_append_cons hts
  obtain rfl : ts' = [] := by simpa using hnil
  have hnext : Starts (Ends .disjunction) (q :: rest) := .cons (hq ▸ ends_rparen)
  have hclose : after (.mark .rparen) (q :: rest) = .ok rest := after_of_lexeme hq rest
  simp only [append_assoc, cons_append, nil_append]
  rw [parseAt_primary_lparen ht, h.parses hu hnext]
  simp only [ok_bind, hclose, continueAt_primary]

theorem finds_choice (hc : Finds .disjunction u c)
    (hy : Finds .disjunction v y) (hn : Finds .disjunction w n) :
    Finds .primary (.keyword .if s1 :: (u ++ .keyword .then s2 ::
      (v ++ .keyword .else s3 :: (w ++ [.keyword .endif s4])))) (.ite c y n) := by
  intro ts rest hts _
  obtain ⟨t1, ts, rfl, ht1, hts⟩ := map_eq_cons_iff.mp hts
  obtain ⟨us, t2, ts, rfl, hu, ht2, hts⟩ := map_eq_append_cons hts
  obtain ⟨vs, t3, ts, rfl, hv, ht3, hts⟩ := map_eq_append_cons hts
  obtain ⟨ws, t4, ts, rfl, hw, ht4, hnil⟩ := map_eq_append_cons hts
  obtain rfl : ts = [] := by simpa using hnil
  have hnext : ∀ {t : Token} {w : Keyword} {s : String}, t.lexeme = .keyword w s →
      w ∈ [Keyword.then, .else, .endif] → ∀ rest, Starts (Ends .disjunction) (t :: rest) :=
    fun ht hw _ => .cons (ht ▸ ends_keyword hw)
  have hthen : ∀ rest, after (.keyword .then) (t2 :: rest) = .ok rest := after_of_lexeme ht2
  have helse : ∀ rest, after (.keyword .else) (t3 :: rest) = .ok rest := after_of_lexeme ht3
  have hendif : ∀ rest, after (.keyword .endif) (t4 :: rest) = .ok rest := after_of_lexeme ht4
  simp only [append_assoc, cons_append, nil_append]
  rw [parseAt_primary_if ht1, hc.parses hu (hnext ht2 (by decide) _)]
  simp only [ok_bind, hthen, hy.parses hv (hnext ht3 (by decide) _), helse,
    hn.parses hw (hnext ht4 (by decide) _), hendif, continueAt_primary]

theorem findsArgs_none : FindsArgs (fun ts => unproved (parseArgs ts)) [] [] := by
  intro ts rest hts hrest
  obtain rfl : ts = [] := by simpa using hts
  obtain ⟨t, rest, rfl, ht⟩ := hrest
  simp [unproved_parseArgs, ht]

theorem AreMoreArgs.starts (h : AreMoreArgs u es) (hts : ts.map Token.lexeme = u)
    (hrest : Starts (· = .mark .rparen) rest) : Starts (Ends .disjunction) (ts ++ rest) := by
  cases h with
  | nil =>
    obtain rfl : ts = [] := by simpa using hts
    exact hrest.imp fun l hl => hl ▸ ends_rparen
  | cons _ _ =>
    obtain ⟨t, ts, rfl, ht, -⟩ := map_eq_cons_iff.mp hts
    exact .cons (ht ▸ ends_comma)

theorem findsArgs_some (he : Derives .disjunction u e) (hfinds : Finds .disjunction u e)
    (hes : AreMoreArgs v es) (hmore : FindsArgs (fun ts => unproved (parseMoreArgs ts)) v es) :
    FindsArgs (fun ts => unproved (parseArgs ts)) (u ++ v) (e :: es) := by
  intro ts rest hts hrest
  obtain ⟨us, vs, rfl, hu, hv⟩ := map_eq_append_iff.mp hts
  have hread : unproved (parseMoreArgs (vs ++ rest)) = .ok (es, rest) := hmore vs rest hv hrest
  have hfirst := hfinds.parses hu (hes.starts hv hrest)
  obtain ⟨x, u', rfl, hx, -⟩ := he.head
  obtain ⟨t, us, rfl, rfl, -⟩ := map_eq_cons_iff.mp hu
  simp only [cons_append] at hfirst ⊢
  rw [unproved_parseArgs, if_neg hx, append_assoc, hfirst]
  simp only [ok_bind, hread]

theorem findsMoreArgs_nil : FindsArgs (fun ts => unproved (parseMoreArgs ts)) [] [] := by
  intro ts rest hts hrest
  obtain rfl : ts = [] := by simpa using hts
  obtain ⟨t, rest, rfl, ht⟩ := hrest
  simp [unproved_parseMoreArgs, ht]

theorem findsMoreArgs_cons (hfinds : Finds .disjunction u e) (hes : AreMoreArgs v es)
    (hmore : FindsArgs (fun ts => unproved (parseMoreArgs ts)) v es) :
    FindsArgs (fun ts => unproved (parseMoreArgs ts)) (.mark .comma :: (u ++ v)) (e :: es) := by
  intro ts rest hts hrest
  obtain ⟨t, ts, rfl, ht, hts⟩ := map_eq_cons_iff.mp hts
  obtain ⟨us, vs, rfl, hu, hv⟩ := map_eq_append_iff.mp hts
  have hread : unproved (parseMoreArgs (vs ++ rest)) = .ok (es, rest) := hmore vs rest hv hrest
  simp only [cons_append]
  rw [unproved_parseMoreArgs, if_pos ht, append_assoc,
    hfinds.parses hu (hes.starts hv hrest)]
  simp only [ok_bind, hread]

end

-- The recursion is on the derivation; each rule of the grammar has its lemma above.
mutual

/-- **Completeness.** Behind derived lexemes the parser looks for what continues their tree. -/
theorem Derives.finds {k u e} (h : Derives k u e) : Finds k u e := by
  match h with
  | .up hne h =>
    refine finds_up hne h.finds fun hk => ?_
    obtain ⟨x, v, hu, -, hnot⟩ := h.head
    exact ⟨x, v, hu, hnot (by rw [hk]; decide)⟩
  | .chain hk hl hop hr => exact finds_chain hk hl.finds hop hr.finds
  | .negation h => exact finds_negation h.finds
  | .related hl hop hr => exact finds_related hl.finds hop hr.finds
  | .method h hself hargs => exact finds_method h.finds hself hargs.finds
  | .property h hself => exact finds_property h.finds hself
  | .truth => exact finds_truth
  | .number => exact finds_number
  | .string => exact finds_string
  | .attr => exact finds_attr
  | .selfAttr hs => exact finds_selfAttr hs
  | .group h => exact finds_group h.finds
  | .choice hc hy hn => exact finds_choice hc.finds hy.finds hn.finds

theorem AreArgs.finds {u es} (h : AreArgs u es) :
    FindsArgs (fun ts => unproved (parseArgs ts)) u es := by
  match h with
  | .none => exact findsArgs_none
  | .some he hes => exact findsArgs_some he he.finds hes hes.finds

theorem AreMoreArgs.finds {u es} (h : AreMoreArgs u es) :
    FindsArgs (fun ts => unproved (parseMoreArgs ts)) u es := by
  match h with
  | .nil => exact findsMoreArgs_nil
  | .cons he hes => exact findsMoreArgs_cons he.finds hes hes.finds

end

theorem parse_of_parseAt (htokens : tokenize s = .ok ts)
    (h : parseAt .disjunction ts = .ok (e, rest)) : parse s = .ok e := by
  obtain ⟨hfewer, hparse⟩ := of_unproved_eq_ok h
  rw [parse, htokens]
  simp only [parseTokens, hparse]
  rfl

/-- **Parsing.** A text is parsed as the tree that its lexemes derive. -/
theorem parse_of_derives (hs : Lexes s.toList u) (h : Derives .disjunction u e) :
    parse s = .ok e := by
  obtain ⟨ts, t, htokens, hts, ht⟩ := hs.tokenize
  exact parse_of_parseAt htokens (h.finds.parses hts (.cons (ht ▸ ends_eof)))

end Rulebook.Constraint
