/-
The parser of the formula language.

The grammar, in which names count in upper case, a concatenation of one part is that part
and a `NOT` of one argument is the unary operator:

    Concat := Cmp ('&' Cmp)*
    Cmp    := Prim (relation Prim)?
    Prim   := string | number | reference | (TRUE | FALSE) ['(' ')']
            | name '(' [Concat (',' Concat)*] ')' | '(' Concat ')'

Each parsing function returns the tree and the tokens after it, with a proof that
fewer tokens are left, so the recursion ends.
-/

import Rulebook.Formula.Token

namespace Rulebook.Formula

open Text

inductive ParseError where
  | expected (want got : TokenKind) (pos : Nat)
  | unexpected (got : TokenKind) (pos : Nat)
  | trailing (token : Token)
  | exhausted
deriving DecidableEq

def TokenKind.display (k : TokenKind) : String := "TokenType." ++ k.label.1

def Lexeme.display : Lexeme → String
  | string s => quoted s
  | number n => toString n
  | fieldRef s => quoted s
  | name s => quoted s
  | lparen => "'('"
  | rparen => "')'"
  | comma => "','"
  | ampersand => "'&'"
  | relation r => quoted r.symbol
  | eof => "None"

def Token.display (t : Token) : String :=
  "Token(type=<" ++ t.lexeme.kind.display ++ ": " ++ toString t.lexeme.kind.label.2 ++
    ">, value=" ++ t.lexeme.display ++ ", pos=" ++ toString t.pos ++ ")"

def ParseError.message : ParseError → String
  | expected want got pos =>
    "Expected " ++ want.display ++ ", got " ++ got.display ++ " at position " ++ toString pos
  | unexpected got pos =>
    "Unexpected token " ++ got.display ++ " at position " ++ toString pos
  | trailing token => "Unexpected token " ++ token.display ++ " after expression"
  | exhausted => "list index out of range"

def ParseError.fault (e : ParseError) : Fault :=
  match e with
  | exhausted => ⟨.index, e.message⟩
  | _ => ⟨.grammar, e.message⟩

def expect (want : TokenKind) : (ts : List Token) → Except ParseError (Fewer ts)
  | [] => .error .exhausted
  | t :: rest =>
    if t.lexeme.kind = want then .ok ⟨rest, by simp⟩
    else .error (.expected want t.lexeme.kind t.pos)

def optionalUnit (ts : List Token) : Except ParseError (NotMore ts) :=
  match ts with
  | [] => .error .exhausted
  | t :: rest =>
    if t.lexeme = .lparen then
      match expect .rparen rest with
      | .error e => .error e
      | .ok ⟨after, h⟩ => .ok ⟨after, by simp; omega⟩
    else .ok ⟨t :: rest, by simp⟩

def callExpr (name : String) (args : List Expr) : Expr :=
  match args with
  | [e] => if name = "NOT" then .unary "NOT" e else .call name args
  | _ => .call name args

def concatExpr (first : Expr) (more : List Expr) : Expr :=
  if more.isEmpty then first else .concat (first :: more)

mutual

def parseConcat (ts : List Token) : Except ParseError (Expr × Fewer ts) :=
  match parseComparison ts with
  | .error e => .error e
  | .ok (first, ⟨r1, h1⟩) =>
    match parseParts r1 with
    | .error e => .error e
    | .ok (more, ⟨r2, h2⟩) => .ok (concatExpr first more, ⟨r2, by omega⟩)
termination_by (ts.length, 3)

def parseParts (ts : List Token) : Except ParseError (List Expr × NotMore ts) :=
  match ts with
  | [] => .error .exhausted
  | t :: rest =>
    if t.lexeme = .ampersand then
      match parseComparison rest with
      | .error e => .error e
      | .ok (e, ⟨r1, h1⟩) =>
        match parseParts r1 with
        | .error e => .error e
        | .ok (es, ⟨r2, h2⟩) => .ok (e :: es, ⟨r2, by simp; omega⟩)
    else .ok ([], ⟨t :: rest, by simp⟩)
termination_by (ts.length, 0)

def parseComparison (ts : List Token) : Except ParseError (Expr × Fewer ts) :=
  match parsePrimary ts with
  | .error e => .error e
  | .ok (left, ⟨[], _⟩) => .error .exhausted
  | .ok (left, ⟨t :: rest, h1⟩) =>
    match t.lexeme with
    | .relation op =>
      match parsePrimary rest with
      | .error e => .error e
      | .ok (right, ⟨r2, h2⟩) =>
        .ok (.binary op left right, ⟨r2, by simp at h1; omega⟩)
    | _ => .ok (left, ⟨t :: rest, h1⟩)
termination_by (ts.length, 2)
decreasing_by
  · exact Prod.Lex.right _ (by omega)
  · simp at h1; exact Prod.Lex.left _ _ (by omega)

def parsePrimary (ts : List Token) : Except ParseError (Expr × Fewer ts) :=
  match ts with
  | [] => .error .exhausted
  | t :: rest =>
    match t.lexeme with
    | .string s => .ok (.str s, ⟨rest, by simp⟩)
    | .number n => .ok (.int n, ⟨rest, by simp⟩)
    | .fieldRef name => .ok (.field name, ⟨rest, by simp⟩)
    | .name word =>
      let name := upper word
      if name = "TRUE" || name = "FALSE" then
        match optionalUnit rest with
        | .error e => .error e
        | .ok ⟨r, h⟩ => .ok (.bool (name = "TRUE"), ⟨r, by simp; omega⟩)
      else
        match expect .lparen rest with
        | .error e => .error e
        | .ok ⟨r1, h1⟩ =>
          match parseArgs r1 with
          | .error e => .error e
          | .ok (args, ⟨r2, h2⟩) =>
            match expect .rparen r2 with
            | .error e => .error e
            | .ok ⟨r3, h3⟩ => .ok (callExpr name args, ⟨r3, by simp; omega⟩)
    | .lparen =>
      match parseConcat rest with
      | .error e => .error e
      | .ok (e, ⟨r1, h1⟩) =>
        match expect .rparen r1 with
        | .error e => .error e
        | .ok ⟨r2, h2⟩ => .ok (e, ⟨r2, by simp; omega⟩)
    | other => .error (.unexpected other.kind t.pos)
termination_by (ts.length, 1)

def parseArgs (ts : List Token) : Except ParseError (List Expr × NotMore ts) :=
  match ts with
  | [] => .error .exhausted
  | t :: rest =>
    if t.lexeme = .rparen then .ok ([], ⟨t :: rest, by simp⟩)
    else
      match parseConcat (t :: rest) with
      | .error e => .error e
      | .ok (e, ⟨r1, h1⟩) =>
        match parseMoreArgs r1 with
        | .error e => .error e
        | .ok (es, ⟨r2, h2⟩) => .ok (e :: es, ⟨r2, by omega⟩)
termination_by (ts.length, 4)

def parseMoreArgs (ts : List Token) : Except ParseError (List Expr × NotMore ts) :=
  match ts with
  | [] => .error .exhausted
  | t :: rest =>
    if t.lexeme = .comma then
      match parseConcat rest with
      | .error e => .error e
      | .ok (e, ⟨r1, h1⟩) =>
        match parseMoreArgs r1 with
        | .error e => .error e
        | .ok (es, ⟨r2, h2⟩) => .ok (e :: es, ⟨r2, by simp; omega⟩)
    else .ok ([], ⟨t :: rest, by simp⟩)
termination_by (ts.length, 0)

end

def parseTokens (ts : List Token) : Except ParseError Expr :=
  match parseConcat ts with
  | .error e => .error e
  | .ok (_, ⟨[], _⟩) => .error .exhausted
  | .ok (e, ⟨t :: _, _⟩) => if t.lexeme = .eof then .ok e else .error (.trailing t)

def parse (formula : String) : Except Fault Expr :=
  match tokenize formula with
  | .error e => .error e.fault
  | .ok ts => (parseTokens ts).mapError ParseError.fault

end Rulebook.Formula
