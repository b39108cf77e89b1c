/-
Evaluation of formula text by cutting it up.

A concatenation is cut at its ampersands, then literals, references, numbers, the functions `AND`,
`NOT` and `IF`, comparisons and equality are tried in turn. A `Dialect` says how references are
written and which comparisons there are; references are resolved by the caller.

The first argument of `eval` bounds the depth of nesting. Every step drops a character that is no
blank, so a bound above the length of the text is never reached.
-/

import Rulebook.Value.Access

namespace Rulebook.Sheet

open Text

/-!
### Cutting formula text by nesting

An operator counts only outside double quotes and parentheses; the depth of parentheses may become
negative and then shields everything behind it.
-/

/-- Gives every ampersand outside quotes one blank after it, and one before it unless it
opens the text. `last` is the character written last, and `skipping` says that the blanks
behind an ampersand are being dropped. -/
def spaceAmpersandsGo (inString skipping : Bool) (last : Option Char) : List Char → List Char
  | [] => []
  | c :: rest =>
    if skipping && c == ' ' then spaceAmpersandsGo inString true last rest
    else if c == '"' then c :: spaceAmpersandsGo (!inString) false (some c) rest
    else if c == '&' && !inString then
      let lead := if last == none || last == some ' ' then [] else [' ']
      lead ++ '&' :: ' ' :: spaceAmpersandsGo inString true (some ' ') rest
    else c :: spaceAmpersandsGo inString false (some c) rest

def spaceAmpersands (cs : List Char) : List Char := spaceAmpersandsGo false false none cs

/-- Cuts a text at an operator. `skip` counts the characters of a found operator still to
be passed, `part` holds the current part, last character first. -/
def splitGo (op : List Char) : Nat → Bool → Int → List Char → List Char → List (List Char)
  | _, _, _, part, [] => if part.isEmpty then [] else [part.reverse]
  | skip + 1, inString, depth, part, _ :: rest => splitGo op skip inString depth part rest
  | 0, inString, depth, part, c :: rest =>
    if c == '"' then splitGo op 0 (!inString) depth (c :: part) rest
    else if inString then splitGo op 0 inString depth (c :: part) rest
    else if c == '(' then splitGo op 0 inString (depth + 1) (c :: part) rest
    else if c == ')' then splitGo op 0 inString (depth - 1) (c :: part) rest
    else if depth == 0 && op.isPrefixOf (c :: rest) then
      part.reverse :: splitGo op (op.length - 1) inString depth [] rest
    else splitGo op 0 inString depth (c :: part) rest

/-- Cuts a text at the occurrences of an operator outside quotes and parentheses; an empty
last part is left out. -/
def splitTop (op cs : List Char) : List (List Char) := splitGo op 0 false 0 [] cs

/-- The number of characters before the parenthesis that closes the depth reached so far. -/
def closingIndex : Int → List Char → Option Nat
  | _, [] => none
  | depth, c :: rest =>
    if c == '(' then (closingIndex (depth + 1) rest).map (· + 1)
    else if c == ')' then
      if depth - 1 == 0 then some 0 else (closingIndex (depth - 1) rest).map (· + 1)
    else (closingIndex depth rest).map (· + 1)

/-- The text inside the parentheses at the head of a text; quotes are not respected. Without
a closing partner only the outermost characters are dropped. -/
def insideParens (text : List Char) : List Char :=
  let cs := trimChars text
  match cs with
  | '(' :: _ =>
    match closingIndex 0 cs with
    | some n => (cs.take n).drop 1
    | none => if cs.getLast? = some ')' then (cs.drop 1).dropLast else cs
  | _ => cs

inductive Comparisons where
  | absent
  /-- Values without an order are a fault; a missing value leaves the text to the next sign. -/
  | strict
  | lenient
deriving DecidableEq

/-- What differs between the evaluators of formula text. -/
structure Dialect where
  reference? : List Char → Option (List Char)
  comparisons : Comparisons
  silent : Value → Bool
  noElse : Value

def signs : List (List Char × OrderOp) :=
  [(" >= ".toList, .ge), (" <= ".toList, .le), (" > ".toList, .gt), (" < ".toList, .lt),
    (">=".toList, .ge), ("<=".toList, .le), (">".toList, .gt), ("<".toList, .lt)]

def cutFirst (sign cs : List Char) : Option (List Char × List Char) :=
  (findChars sign cs).map fun i => (cs.take i, cs.drop (i + sign.length))

/-- The text of a string literal: what starts and ends with a double quote, which may be
the same one. -/
def literal? (cs : List Char) : Option String :=
  if cs.head? = some '"' && cs.getLast? = some '"' then some (.ofList (cs.drop 1).dropLast)
  else none

def number? (cs : List Char) : Option Value :=
  if cs.contains '.' then (Numeral.readFloat (.ofList cs)).map .float
  else (Numeral.readInteger (.ofList cs)).toOption.map .int

def isCall (name : String) (cs : List Char) : Bool :=
  (name.toList ++ ['(']).isPrefixOf (upperChars cs)

def arguments (name : String) (cs : List Char) : List (List Char) :=
  splitTop [','] (insideParens (cs.drop name.length))

section

variable {m : Type → Type} [Monad m] [MonadExceptOf Fault m]

def compareText (policy : Comparisons) (ev : List Char → m Value) (otherwise : Unit → m Value)
    (cs : List Char) : List (List Char × OrderOp) → m Value
  | [] => otherwise ()
  | (sign, op) :: more =>
    match cutFirst sign cs with
    | none => compareText policy ev otherwise cs more
    | some (l, r) => do
      let a ← ev l
      let b ← ev r
      if a.isNull || b.isNull then
        if policy = .lenient then pure .null else compareText policy ev otherwise cs more
      else
        match Value.order op a b with
        | .ok holds => pure (.bool holds)
        | .error fault => if policy = .lenient then pure .null else throw fault

def equationText (ev : List Char → m Value) (cs : List Char) : m Value :=
  match cutFirst ['='] cs with
  | none => pure .null
  | some (l, r) => do
    let a ← ev l
    let b ← ev r
    pure (.bool (a.equal b))

def allTrue (ev : List Char → m Value) : List (List Char) → m Bool
  | [] => pure true
  | t :: ts => do
    let v ← ev t
    if v.truthy then allTrue ev ts else pure false

def joinParts (silent : Value → Bool) (ev : List Char → m Value) : List (List Char) → m String
  | [] => pure ""
  | t :: ts => do
    let v ← ev t
    let rest ← joinParts silent ev ts
    pure ((if silent v then "" else v.text) ++ rest)

def chooseText (noElse : Value) (ev : List Char → m Value) : List (List Char) → m Value
  | cond :: yes :: rest => do
    let c ← ev cond
    let y ← ev yes
    let n ← match rest with
      | no :: _ => ev no
      | [] => pure noElse
    pure (if c.truthy then y else n)
  | _ => pure .null

def eval (d : Dialect) (lookup : List Char → m Value) : Nat → List Char → m Value
  | 0, _ => throw ⟨.depth, "maximum recursion depth exceeded"⟩
  | depth + 1, text =>
    let ev := eval d lookup depth
    let cs := spaceAmpersands (trimChars text)
    let parts := splitTop " & ".toList cs
    if 1 < parts.length then do
      let joined ← joinParts d.silent ev parts
      pure (if joined.isEmpty then .null else .str joined)
    else
      match literal? cs with
      | some s => pure (.str s)
      | none =>
        let word := String.ofList (upperChars cs)
        if word = "TRUE" || word = "TRUE()" then pure (.bool true)
        else if word = "FALSE" || word = "FALSE()" then pure (.bool false)
        else
          match d.reference? cs with
          | some name => lookup name
          | none =>
            match number? cs with
            | some v => pure v
            | none =>
              if isCall "AND" cs then do
                let holds ← allTrue ev (arguments "AND" cs)
                pure (.bool holds)
              else if isCall "NOT" cs then do
                let v ← ev (insideParens (cs.drop 3))
                pure (if v.isNull then .null else .bool (!v.truthy))
              else if isCall "IF" cs then chooseText d.noElse ev (arguments "IF" cs)
              else if d.comparisons = .absent then equationText ev cs
              else compareText d.comparisons ev (fun _ => equationText ev cs) cs signs

def evalFormula (d : Dialect) (lookup : List Char → m Value) (formula : String) : m Value :=
  match formula.toList with
  | '=' :: rest => eval d lookup (rest.length + 1) rest
  | _ => pure (.str formula)

def evalContent (d : Dialect) (lookup : List Char → m Value) : Value → m Value
  | .str s => evalFormula d lookup s
  | v => pure v

end

def fieldReference? (cs : List Char) : Option (List Char) :=
  match after? ['\x7b', '\x7b'] cs with
  | none => none
  | some rest =>
    let name := rest.takeWhile isWord
    if !name.isEmpty && rest.dropWhile isWord == ['\x7d', '\x7d'] then some name else none

def cellReference? (cs : List Char) : Option (List Char) :=
  let body := match cs with
    | '$' :: rest => rest
    | _ => cs
  let isCapital := fun c : Char => 'A' ≤ c && c ≤ 'Z'
  let letters := body.takeWhile isCapital
  let digits := body.dropWhile isCapital
  if !letters.isEmpty && !digits.isEmpty && digits.all isDecimal then some letters else none

def exportDialect : Dialect where
  reference? := fieldReference?
  comparisons := .strict
  silent := Value.isNull
  noElse := .null

def previewDialect : Dialect where
  reference? := fieldReference?
  comparisons := .absent
  silent := Value.isNull
  noElse := .null

/-- Formulas over cell references, with comparisons that never fail; a missing else part is
the empty text and false adds nothing to a concatenation. -/
def cellDialect : Dialect where
  reference? := cellReference?
  comparisons := .lenient
  silent := fun v => v.isNull || v matches .bool false
  noElse := .str ""

def flatDialect : Dialect where
  reference? := cellReference?
  comparisons := .absent
  silent := Value.isNull
  noElse := .null

def evalOn (d : Dialect) (record : Record) (content : Value) : Except Fault Value :=
  evalContent d (fun name => pure (record.get (.ofList name))) content

end Rulebook.Sheet
