/-
Tokens of the constraint language (OCL).

Strings stand in single quotes, with backslash escapes. Keywords are recognised in any letter case.
-/

import Rulebook.Tokens

namespace Rulebook.Constraint

open Text

inductive Keyword where
  | and
  | or
  | not
  | if
  | then
  | else
  | endif
  | true
  | false
deriving DecidableEq, Repr

def Keyword.ofWord? (word : String) : Option Keyword :=
  [("and", Keyword.and), ("or", .or), ("not", .not), ("if", .if), ("then", .then),
    ("else", .else), ("endif", .endif), ("true", .true), ("false", .false)].lookup word

inductive Mark where
  | dot
  | lparen
  | rparen
  | plus
  | minus
  | star
  | slash
  | eq
  | ne
  | lt
  | le
  | gt
  | ge
  | comma
deriving DecidableEq, Repr

def Mark.text : Mark → String
  | dot => "."
  | lparen => "("
  | rparen => ")"
  | plus => "+"
  | minus => "-"
  | star => "*"
  | slash => "/"
  | eq => "="
  | ne => "<>"
  | lt => "<"
  | le => "<="
  | gt => ">"
  | ge => ">="
  | comma => ","

inductive Lexeme where
  | string (text : String)
  | number (n : Int)
  | identifier (name : String)
  | keyword (k : Keyword) (spelling : String)
  | mark (m : Mark)
  | eof
deriving DecidableEq, Repr

structure Token where
  lexeme : Lexeme
  pos : Nat
deriving DecidableEq, Repr

inductive TokenKind where
  | string
  | number
  | identifier
  | keyword (k : Keyword)
  | mark (m : Mark)
  | eof
deriving DecidableEq, Repr

def Lexeme.kind : Lexeme → TokenKind
  | string _ => .string
  | number _ => .number
  | identifier _ => .identifier
  | keyword k _ => .keyword k
  | mark m => .mark m
  | eof => .eof

def TokenKind.label : TokenKind → String
  | string => "STRING"
  | number => "NUMBER"
  | identifier => "IDENTIFIER"
  | keyword .and => "AND"
  | keyword .or => "OR"
  | keyword .not => "NOT"
  | keyword .if => "IF"
  | keyword .then => "THEN"
  | keyword .else => "ELSE"
  | keyword .endif => "ENDIF"
  | keyword .true => "TRUE"
  | keyword .false => "FALSE"
  | mark .dot => "DOT"
  | mark .lparen => "LPAREN"
  | mark .rparen => "RPAREN"
  | mark .plus => "PLUS"
  | mark .minus => "MINUS"
  | mark .star => "STAR"
  | mark .slash => "SLASH"
  | mark .eq => "EQ"
  | mark .ne => "NEQ"
  | mark .lt => "LT"
  | mark .le => "LE"
  | mark .gt => "GT"
  | mark .ge => "GE"
  | mark .comma => "COMMA"
  | eof => "EOF"

/-- Reads a string up to its closing quote: its characters, and how many characters of the
text, the quote included, it takes. -/
def stringBody : List Char → Option (List Char × Nat)
  | [] => none
  | '\'' :: _ => some ([], 1)
  | '\\' :: [] => none
  | '\\' :: c :: rest => (stringBody rest).map fun r => (c :: r.1, r.2 + 2)
  | c :: rest => (stringBody rest).map fun r => (c :: r.1, r.2 + 1)

def markAt? (c : Char) (next : Option Char) : Option (Mark × Nat) :=
  if c = '<' then
    if next = some '>' then some (.ne, 1)
    else if next = some '=' then some (.le, 1)
    else some (.lt, 0)
  else if c = '>' then
    if next = some '=' then some (.ge, 1) else some (.gt, 0)
  else if c = '=' then some (.eq, 0)
  else if c = '+' then some (.plus, 0)
  else if c = '-' then some (.minus, 0)
  else if c = '*' then some (.star, 0)
  else if c = '/' then some (.slash, 0)
  else if c = '(' then some (.lparen, 0)
  else if c = ')' then some (.rparen, 0)
  else if c = '.' then some (.dot, 0)
  else if c = ',' then some (.comma, 0)
  else none

def wordLexeme (word : List Char) : Lexeme :=
  match Keyword.ofWord? (.ofList (lowerChars word)) with
  | some k => .keyword k (.ofList word)
  | none => .identifier (.ofList word)

/-- The lexeme that starts with `c` at `pos`, before the text `rest`, and how many
characters of `rest` belong to it. -/
def lexemeAt (pos : Nat) (c : Char) (rest : List Char) : Except LexError (Lexeme × Nat) :=
  if c = '\'' then
    match stringBody rest with
    | none => .error (.unterminatedString pos)
    | some (text, n) => .ok (.string (.ofList text), n)
  else if isDigit c || (c = '-' && rest.head?.any isDigit) then
    let run := rest.takeWhile isDigit
    match Numeral.readInteger (.ofList (c :: run)) with
    | .ok n => .ok (.number n, run.length)
    | .error e => .error (.badNumber e)
  else
    match markAt? c rest.head? with
    | some (m, n) => .ok (.mark m, n)
    | none =>
      if isLetter c || c = '_' then
        let run := rest.takeWhile isWord
        .ok (wordLexeme (c :: run), run.length)
      else .error (.unexpectedCharacter c pos)

def scan (pos : Nat) : List Char → Except LexError (List Token)
  | [] => .ok [⟨.eof, pos⟩]
  | c :: rest =>
    if isGap c then scan (pos + 1) rest
    else
      match lexemeAt pos c rest with
      | .error e => .error e
      | .ok (lexeme, n) =>
        match scan (pos + 1 + n) (rest.drop n) with
        | .error e => .error e
        | .ok tokens => .ok (⟨lexeme, pos⟩ :: tokens)
termination_by cs => cs.length
decreasing_by
  · simp
  · simp only [List.length_drop, List.length_cons]; omega

def tokenize (text : String) : Except LexError (List Token) := scan 0 text.toList

end Rulebook.Constraint
