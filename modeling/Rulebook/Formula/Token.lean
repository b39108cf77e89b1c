/-
Tokens of the formula language.

Every token carries the position of its first character in the body, which is the text without one
leading equals sign; the list ends with an end token.
-/

import Rulebook.Formula.Basic
import Rulebook.Tokens

namespace Rulebook.Formula

open Text

inductive Lexeme where
  | string (text : String)
  | number (n : Int)
  | fieldRef (name : String)
  | name (word : String)
  | lparen
  | rparen
  | comma
  | ampersand
  | relation (r : Relation)
  | eof
deriving DecidableEq, Repr

structure Token where
  lexeme : Lexeme
  pos : Nat
deriving DecidableEq, Repr

inductive TokenKind where
  | string
  | number
  | fieldRef
  | funcName
  | lparen
  | rparen
  | comma
  | ampersand
  | equals
  | notEquals
  | lt
  | le
  | gt
  | ge
  | eof
deriving DecidableEq, Repr

def Lexeme.kind : Lexeme → TokenKind
  | string _ => .string
  | number _ => .number
  | fieldRef _ => .fieldRef
  | name _ => .funcName
  | lparen => .lparen
  | rparen => .rparen
  | comma => .comma
  | ampersand => .ampersand
  | relation .eq => .equals
  | relation .ne => .notEquals
  | relation .lt => .lt
  | relation .le => .le
  | relation .gt => .gt
  | relation .ge => .ge
  | relation (.other _) => .equals
  | eof => .eof

def TokenKind.label : TokenKind → String × Nat
  | string => ("STRING", 1)
  | number => ("NUMBER", 2)
  | fieldRef => ("FIELD_REF", 3)
  | funcName => ("FUNC_NAME", 4)
  | lparen => ("LPAREN", 5)
  | rparen => ("RPAREN", 6)
  | comma => ("COMMA", 7)
  | ampersand => ("AMPERSAND", 8)
  | equals => ("EQUALS", 9)
  | notEquals => ("NOT_EQUALS", 10)
  | lt => ("LT", 11)
  | le => ("LE", 12)
  | gt => ("GT", 13)
  | ge => ("GE", 14)
  | eof => ("EOF", 15)

/-- The number of characters before the closing quote of a string; a backslash takes
the next character with it. -/
def stringLength : List Char → Option Nat
  | [] => none
  | '"' :: _ => some 0
  | '\\' :: [] => none
  | '\\' :: _ :: rest => (stringLength rest).map (· + 2)
  | _ :: rest => (stringLength rest).map (· + 1)

/-- The lexeme that starts with `c` at `pos`, before the text `rest`, and how many
characters of `rest` belong to it. -/
def lexemeAt (pos : Nat) (c : Char) (rest : List Char) : Except LexError (Lexeme × Nat) :=
  if c = '"' then
    match stringLength rest with
    | none => .error (.unterminatedString pos)
    | some n => .ok (.string (.ofList (rest.take n)), n + 1)
  else if c = '\x7b' && rest.head? = some '\x7b' then
    match findChars ['\x7d', '\x7d'] (rest.drop 1) with
    | none => .error (.unterminatedReference pos)
    | some n => .ok (.fieldRef (.ofList ((rest.drop 1).take n)), n + 3)
  else if isDigit c || (c = '-' && rest.head?.any isDigit) then
    let run := rest.takeWhile isDigit
    match Numeral.readInteger (.ofList (c :: run)) with
    | .ok n => .ok (.number n, run.length)
    | .error e => .error (.badNumber e)
  else if c = '<' then
    if rest.head? = some '>' then .ok (.relation .ne, 1)
    else if rest.head? = some '=' then .ok (.relation .le, 1)
    else .ok (.relation .lt, 0)
  else if c = '>' then
    if rest.head? = some '=' then .ok (.relation .ge, 1) else .ok (.relation .gt, 0)
  else if c = '=' then .ok (.relation .eq, 0)
  else if c = '&' then .ok (.ampersand, 0)
  else if c = '(' then .ok (.lparen, 0)
  else if c = ')' then .ok (.rparen, 0)
  else if c = ',' then .ok (.comma, 0)
  else if isLetter c || c = '_' then
    let run := rest.takeWhile isWord
    .ok (.name (.ofList (upperChars (c :: run))), run.length)
  else .error (.unexpectedCharacter c pos)

def scan (pos : Nat) : List Char → Except LexError (List Token)
  | [] => .ok [⟨.eof, pos⟩]
  | c :: rest =>
    if isGap c then scan (pos + 1) rest
    else
      match lexemeAt pos c rest with
      | .error e => .error e
      | .ok (lexeme, n) =>
        match scan (pos + 1 + n) (rest.drop n) with
        | .error e => .error e
        | .ok tokens => .ok (⟨lexeme, pos⟩ :: tokens)
termination_by cs => cs.length
decreasing_by
  · simp
  · simp only [List.length_drop, List.length_cons]; omega

def body : List Char → List Char
  | '=' :: rest => rest
  | cs => cs

def tokenize (formula : String) : Except LexError (List Token) :=
  scan 0 (body formula.toList)

/-!
### Formulas as data

`ofValue` takes anything: a table with an unknown name is a concatenation of its parts.
-/

namespace Expr

def literalName : Datatype → String
  | .boolean => "LiteralBool"
  | .integer => "LiteralInt"
  | .text => "LiteralString"

mutual

def toValue : Expr → Value
  | bool b => .dict [("node", .str "LiteralBool"), ("value", .bool b)]
  | int n => .dict [("node", .str "LiteralInt"), ("value", .int n)]
  | str s => .dict [("node", .str "LiteralString"), ("value", .str s)]
  | misfit t v => .dict [("node", .str (literalName t)), ("value", v)]
  | field n => .dict [("node", .str "FieldRef"), ("name", .str n)]
  | binary op l r => .dict [("node", .str "BinaryOp"), ("op", .str op.symbol),
      ("left", toValue l), ("right", toValue r)]
  | unary op e => .dict [("node", .str "UnaryOp"), ("op", .str op), ("operand", toValue e)]
  | call n args => .dict [("node", .str "FuncCall"), ("name", .str n),
      ("args", .list (toValues args))]
  | concat ps => .dict [("node", .str "Concat"), ("parts", .list (toValues ps))]

def toValues : List Expr → List Value
  | [] => []
  | e :: es => toValue e :: toValues es

end

structure Parsed where
  one : Expr := .concat []
  many : List Expr := []

def textAt (r : Record) (key : String) : String :=
  match r.get? key with
  | some (.str s) => s
  | _ => ""

def literal : Datatype → Value → Expr
  | .boolean, .bool b => .bool b
  | .integer, .int n => .int n
  | .text, .str s => .str s
  | t, v => .misfit t v

def assemble (r : Record) (parts : List (String × Parsed)) : Expr :=
  let one := fun key => ((parts.lookup key).getD {}).one
  let many := fun key => ((parts.lookup key).getD {}).many
  match textAt r "node" with
  | "LiteralBool" => literal .boolean (r.get "value")
  | "LiteralInt" => literal .integer (r.get "value")
  | "LiteralString" => literal .text (r.get "value")
  | "FieldRef" => .field (textAt r "name")
  | "BinaryOp" => .binary (.ofSymbol (textAt r "op")) (one "left") (one "right")
  | "UnaryOp" => .unary (textAt r "op") (one "operand")
  | "FuncCall" => .call (textAt r "name") (many "args")
  | _ => .concat (many "parts")

mutual

def readValue : Value → Parsed
  | .dict es => { one := assemble es (readEntries es) }
  | .list xs => { many := readItems xs }
  | _ => {}

def readItems : List Value → List Expr
  | [] => []
  | v :: vs => (readValue v).one :: readItems vs

def readEntries : List (String × Value) → List (String × Parsed)
  | [] => []
  | (k, v) :: es => (k, readValue v) :: readEntries es

end

def ofValue (v : Value) : Expr := (readValue v).one

end Expr

def Lexeme.toValue : Lexeme → Value
  | .string s | .fieldRef s | .name s => .str s
  | .number n => .int n
  | .lparen => .str "("
  | .rparen => .str ")"
  | .comma => .str ","
  | .ampersand => .str "&"
  | .relation r => .str r.symbol
  | .eof => .null

def Token.toValue (t : Token) : Value :=
  .list [.str t.lexeme.kind.label.1, t.lexeme.toValue, .int t.pos]

end Rulebook.Formula
