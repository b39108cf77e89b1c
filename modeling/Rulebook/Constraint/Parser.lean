/-
The parser of the constraint language.

The grammar, with all binary operators of one level associating to the left:

    Or    := And ('or' And)*              Add  := Mul (('+' | '-') Mul)*
    And   := Not ('and' Not)*             Mul  := Post (('*' | '/') Post)*
    Not   := 'not' Not | Cmp              Post := Prim ('.' name ['(' [Or (',' Or)*] ')'])*
    Cmp   := Add (relation Add)?
    Prim  := true | false | number | string | ['self' '.'] name | '(' Or ')'
           | 'if' Or 'then' Or 'else' Or 'endif'

Parsing stops after the first expression; what follows it is not looked at.
-/

import Rulebook.Constraint.Token
import Rulebook.Value

namespace Rulebook.Constraint

open Text

inductive BinaryOp where
  | or
  | and
  | eq
  | ne
  | lt
  | le
  | gt
  | ge
  | add
  | sub
  | mul
  | div
deriving DecidableEq, Repr

def BinaryOp.symbol : BinaryOp → String
  | or => "or"
  | and => "and"
  | eq => "="
  | ne => "<>"
  | lt => "<"
  | le => "<="
  | gt => ">"
  | ge => ">="
  | add => "+"
  | sub => "-"
  | mul => "*"
  | div => "/"

def BinaryOp.ofSymbol? (s : String) : Option BinaryOp :=
  [or, and, eq, ne, lt, le, gt, ge, add, sub, mul, div].find? (·.symbol = s)

inductive Expr where
  | bool (b : Bool)
  | int (n : Int)
  | str (s : String)
  | attr (name : String)
  | binary (op : BinaryOp) (left right : Expr)
  | not (operand : Expr)
  | ite (cond yes no : Expr)
  | method (object : Expr) (name : String) (args : List Expr)
deriving Inhabited, Repr

inductive ParseError where
  | expected (want got : TokenKind) (pos : Nat)
  | unexpected (got : TokenKind) (pos : Nat)
  | exhausted
deriving DecidableEq

def TokenKind.display (k : TokenKind) : String := "OCLTokenType." ++ k.label

def ParseError.message : ParseError → String
  | expected want got pos =>
    "Expected " ++ want.display ++ ", got " ++ got.display ++ " at position " ++ toString pos
  | unexpected got pos =>
    "Unexpected token " ++ got.display ++ " at position " ++ toString pos
  | exhausted => "list index out of range"

def ParseError.fault (e : ParseError) : Fault :=
  match e with
  | exhausted => ⟨.index, e.message⟩
  | _ => ⟨.grammar, e.message⟩

def expect (want : TokenKind) : (ts : List Token) → Except ParseError (Fewer ts)
  | [] => .error .exhausted
  | t :: rest =>
    if t.lexeme.kind = want then .ok ⟨rest, by simp⟩
    else .error (.expected want t.lexeme.kind t.pos)

def identifier : (ts : List Token) → Except ParseError (String × Fewer ts)
  | [] => .error .exhausted
  | t :: rest =>
    match t.lexeme with
    | .identifier name => .ok (name, ⟨rest, by simp⟩)
    | other => .error (.expected .identifier other.kind t.pos)

def Mark.relation? : Mark → Option BinaryOp
  | .eq => some .eq
  | .ne => some .ne
  | .lt => some .lt
  | .le => some .le
  | .gt => some .gt
  | .ge => some .ge
  | _ => none

def Lexeme.additive? : Lexeme → Option BinaryOp
  | .mark .plus => some .add
  | .mark .minus => some .sub
  | _ => none

def Lexeme.multiplicative? : Lexeme → Option BinaryOp
  | .mark .star => some .mul
  | .mark .slash => some .div
  | _ => none

def Lexeme.relation? : Lexeme → Option BinaryOp
  | .mark m => m.relation?
  | _ => none

/-- The levels of precedence, from the loosest to the tightest. -/
inductive Level where
  | disjunction
  | conjunction
  | negation
  | comparison
  | sum
  | product
  | access
  | primary
deriving DecidableEq

namespace Level

def next : Level → Level
  | disjunction => conjunction
  | conjunction => negation
  | negation => comparison
  | comparison => sum
  | sum => product
  | product => access
  | access | primary => primary

def rank : Level → Nat
  | disjunction => 0
  | conjunction => 1
  | negation => 2
  | comparison => 3
  | sum => 4
  | product => 5
  | access => 6
  | primary => 7

def chains : Level → Bool
  | disjunction | conjunction | sum | product => true
  | _ => false

def op? : Level → Lexeme → Option BinaryOp
  | disjunction, l => if l.kind = .keyword .or then some .or else none
  | conjunction, l => if l.kind = .keyword .and then some .and else none
  | comparison, l => l.relation?
  | sum, l => l.additive?
  | product, l => l.multiplicative?
  | negation, _ | access, _ | primary, _ => none

end Level

mutual

/-- Parses an expression of a level; a chain starts with one of the next level. -/
def parseLevel (k : Level) (ts : List Token) : Except ParseError (Expr × Fewer ts) :=
  if hk : k.chains then
    match parseLevel k.next ts with
    | .error e => .error e
    | .ok (left, ⟨r1, h1⟩) =>
      match parseMore k left r1 with
      | .error e => .error e
      | .ok (e, ⟨r2, h2⟩) => .ok (e, ⟨r2, by omega⟩)
  else
    match k with
    | .negation => parseNot ts
    | .comparison => parseComparison ts
    | .access => parsePostfix ts
    | other => parsePrimary ts
termination_by (ts.length, 2 * (8 - k.rank) + 1)
decreasing_by
  · exact Prod.Lex.right _ (by revert hk; cases k <;> decide)
  · exact Prod.Lex.left _ _ (by omega)
  · exact Prod.Lex.right _ (by decide)
  · exact Prod.Lex.right _ (by decide)
  · exact Prod.Lex.right _ (by decide)
  · exact Prod.Lex.right _ (by cases other <;> decide)

/-- Parses what continues a chain: operators of its level, each with an operand. -/
def parseMore (k : Level) (left : Expr) (ts : List Token) : Except ParseError (Expr × NotMore ts) :=
  match ts with
  | [] => .error .exhausted
  | t :: rest =>
    match k.op? t.lexeme with
    | none => .ok (left, ⟨t :: rest, by simp⟩)
    | some op =>
      match parseLevel k.next rest with
      | .error e => .error e
      | .ok (right, ⟨r1, h1⟩) =>
        match parseMore k (.binary op left right) r1 with
        | .error e => .error e
        | .ok (e, ⟨r2, h2⟩) => .ok (e, ⟨r2, by simp; omega⟩)
termination_by (ts.length, 0)

def parseNot (ts : List Token) : Except ParseError (Expr × Fewer ts) :=
  match ts with
  | [] => .error .exhausted
  | t :: rest =>
    if t.lexeme.kind = .keyword .not then
      match parseNot rest with
      | .error e => .error e
      | .ok (e, ⟨r, h⟩) => .ok (.not e, ⟨r, by simp; omega⟩)
    else parseComparison (t :: rest)
termination_by (ts.length, 12)

def parseComparison (ts : List Token) : Except ParseError (Expr × Fewer ts) :=
  match parseLevel .sum ts with
  | .error e => .error e
  | .ok (_, ⟨[], _⟩) => .error .exhausted
  | .ok (left, ⟨t :: rest, h1⟩) =>
    match t.lexeme.relation? with
    | none => .ok (left, ⟨t :: rest, h1⟩)
    | some op =>
      match parseLevel .sum rest with
      | .error e => .error e
      | .ok (right, ⟨r2, h2⟩) => .ok (.binary op left right, ⟨r2, by simp at h1; omega⟩)
termination_by (ts.length, 10)
decreasing_by
  · exact Prod.Lex.right _ (by decide)
  · simp at h1; exact Prod.Lex.left _ _ (by omega)

def parsePostfix (ts : List Token) : Except ParseError (Expr × Fewer ts) :=
  match parsePrimary ts with
  | .error e => .error e
  | .ok (object, ⟨r1, h1⟩) =>
    match parseMethods object r1 with
    | .error e => .error e
    | .ok (e, ⟨r2, h2⟩) => .ok (e, ⟨r2, by omega⟩)
termination_by (ts.length, 4)

/-- Parses method calls behind an object; a name without parentheses is a call without
arguments. -/
def parseMethods (object : Expr) (ts : List Token) : Except ParseError (Expr × NotMore ts) :=
  match ts with
  | [] => .error .exhausted
  | t :: rest =>
    if t.lexeme = .mark .dot then
      match identifier rest with
      | .error e => .error e
      | .ok (_, ⟨[], _⟩) => .error .exhausted
      | .ok (name, ⟨u :: r1, h1⟩) =>
        if u.lexeme = .mark .lparen then
          match parseArgs r1 with
          | .error e => .error e
          | .ok (args, ⟨r2, h2⟩) =>
            match expect (.mark .rparen) r2 with
            | .error e => .error e
            | .ok ⟨r3, h3⟩ =>
              match parseMethods (.method object name args) r3 with
              | .error e => .error e
              | .ok (e, ⟨r4, h4⟩) => .ok (e, ⟨r4, by simp at h1 ⊢; omega⟩)
        else
          match parseMethods (.method object name []) (u :: r1) with
          | .error e => .error e
          | .ok (e, ⟨r2, h2⟩) => .ok (e, ⟨r2, by simp at h1 h2 ⊢; omega⟩)
    else .ok (object, ⟨t :: rest, by simp⟩)
termination_by (ts.length, 0)
decreasing_by
  all_goals simp at h1 ⊢
  all_goals exact Prod.Lex.left _ _ (by omega)

def parseArgs (ts : List Token) : Except ParseError (List Expr × NotMore ts) :=
  match ts with
  | [] => .error .exhausted
  | t :: rest =>
    if t.lexeme = .mark .rparen then .ok ([], ⟨t :: rest, by simp⟩)
    else
      match parseLevel .disjunction (t :: rest) with
      | .error e => .error e
      | .ok (e, ⟨r1, h1⟩) =>
        match parseMoreArgs r1 with
        | .error e => .error e
        | .ok (es, ⟨r2, h2⟩) => .ok (e :: es, ⟨r2, by omega⟩)
termination_by (ts.length, 18)

def parseMoreArgs (ts : List Token) : Except ParseError (List Expr × NotMore ts) :=
  match ts with
  | [] => .error .exhausted
  | t :: rest =>
    if t.lexeme = .mark .comma then
      match parseLevel .disjunction rest with
      | .error e => .error e
      | .ok (e, ⟨r1, h1⟩) =>
        match parseMoreArgs r1 with
        | .error e => .error e
        | .ok (es, ⟨r2, h2⟩) => .ok (e :: es, ⟨r2, by simp; omega⟩)
    else .ok ([], ⟨t :: rest, by simp⟩)
termination_by (ts.length, 0)

def parsePrimary (ts : List Token) : Except ParseError (Expr × Fewer ts) :=
  match ts with
  | [] => .error .exhausted
  | t :: rest =>
    match t.lexeme with
    | .keyword .true _ => .ok (.bool true, ⟨rest, by simp⟩)
    | .keyword .false _ => .ok (.bool false, ⟨rest, by simp⟩)
    | .number n => .ok (.int n, ⟨rest, by simp⟩)
    | .string s => .ok (.str s, ⟨rest, by simp⟩)
    | .identifier name =>
      match rest with
      | [] => .error .exhausted
      | u :: r1 =>
        if lower name = "self" && u.lexeme = .mark .dot then
          match identifier r1 with
          | .error e => .error e
          | .ok (attr, ⟨r2, h2⟩) => .ok (.attr attr, ⟨r2, by simp; omega⟩)
        else .ok (.attr name, ⟨u :: r1, by simp⟩)
    | .mark .lparen =>
      match parseLevel .disjunction rest with
      | .error e => .error e
      | .ok (e, ⟨r1, h1⟩) =>
        match expect (.mark .rparen) r1 with
        | .error e => .error e
        | .ok ⟨r2, h2⟩ => .ok (e, ⟨r2, by simp; omega⟩)
    | .keyword .if _ =>
      match parseLevel .disjunction rest with
      | .error e => .error e
      | .ok (cond, ⟨r1, h1⟩) =>
        match expect (.keyword .then) r1 with
        | .error e => .error e
        | .ok ⟨r2, h2⟩ =>
          match parseLevel .disjunction r2 with
          | .error e => .error e
          | .ok (yes, ⟨r3, h3⟩) =>
            match expect (.keyword .else) r3 with
            | .error e => .error e
            | .ok ⟨r4, h4⟩ =>
              match parseLevel .disjunction r4 with
              | .error e => .error e
              | .ok (no, ⟨r5, h5⟩) =>
                match expect (.keyword .endif) r5 with
                | .error e => .error e
                | .ok ⟨r6, h6⟩ => .ok (.ite cond yes no, ⟨r6, by simp; omega⟩)
    | other => .error (.unexpected other.kind t.pos)
termination_by (ts.length, 2)

end

def parseTokens (ts : List Token) : Except ParseError Expr :=
  (parseLevel .disjunction ts).map Prod.fst

def parse (text : String) : Except Fault Expr :=
  match tokenize text with
  | .error e => .error e.fault
  | .ok ts => (parseTokens ts).mapError ParseError.fault

/-! ### Constraints as data -/

mutual

def Expr.toValue : Expr → Value
  | .bool b => .dict [("node", .str "OCLLiteralBool"), ("value", .bool b)]
  | .int n => .dict [("node", .str "OCLLiteralInt"), ("value", .int n)]
  | .str s => .dict [("node", .str "OCLLiteralString"), ("value", .str s)]
  | .attr n => .dict [("node", .str "OCLSelfAttr"), ("attr", .str n)]
  | .binary op l r => .dict [("node", .str "OCLBinaryExpr"), ("op", .str op.symbol),
      ("left", l.toValue), ("right", r.toValue)]
  | .not e => .dict [("node", .str "OCLUnaryExpr"), ("op", .str "not"), ("operand", e.toValue)]
  | .ite c y n => .dict [("node", .str "OCLIfExpr"), ("cond", c.toValue),
      ("then_branch", y.toValue), ("else_branch", n.toValue)]
  | .method o n args => .dict [("node", .str "OCLMethodCall"), ("obj", o.toValue),
      ("method", .str n), ("args", .list (Expr.toValues args))]

def Expr.toValues : List Expr → List Value
  | [] => []
  | e :: es => e.toValue :: Expr.toValues es

end

def Lexeme.toValue : Lexeme → Value
  | .string s | .identifier s | .keyword _ s => .str s
  | .number n => .int n
  | .mark m => .str m.text
  | .eof => .null

def Token.toValue (t : Token) : Value :=
  .list [.str t.lexeme.kind.label, t.lexeme.toValue, .int t.pos]

end Rulebook.Constraint
