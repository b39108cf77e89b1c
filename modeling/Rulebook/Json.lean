/-
Reading JSON text.

The entries of a table keep their order. An error holds the number of characters that were left,
from which line and column follow.
-/

import Rulebook.Numeral
import Rulebook.Value

namespace Rulebook.Json

open Text Numeral

inductive ReadError where
  | malformed (what : String) (left : Nat)
  | integer (why : IntegerError)

def isSpace (c : Char) : Bool := c == ' ' || c == '\t' || c == '\n' || c == '\r'

def skip (cs : List Char) : List Char := cs.dropWhile isSpace

abbrev Reading (α : Type) := Except ReadError (α × List Char)

def plainEscape? : Char → Option Char
  | '"' => some '"'
  | '\\' => some '\\'
  | '/' => some '/'
  | 'b' => some '\x08'
  | 'f' => some '\x0c'
  | 'n' => some '\n'
  | 'r' => some '\r'
  | 't' => some '\t'
  | _ => none

def isHex (c : Char) : Bool :=
  c.isDigit || ('a' ≤ c && c ≤ 'f') || ('A' ≤ c && c ≤ 'F')

def fourHex? : List Char → Option (Nat × List Char)
  | a :: b :: c :: d :: e :: rest =>
    if [a, b, c, d].all isHex then some (hexNat [a, b, c, d], e :: rest) else none
  | _ => none

def unicodeChar? (cs : List Char) : Option (Option (Char × List Char)) :=
  match fourHex? cs with
  | none => none
  | some (hi, rest) =>
    if 0xd800 ≤ hi && hi ≤ 0xdbff then
      match rest with
      | '\\' :: 'u' :: more =>
        if more.length ≤ 4 then some (some (charOf hi, rest))
        else match fourHex? more with
          | none => some none
          | some (lo, after) =>
            if 0xdc00 ≤ lo && lo ≤ 0xdfff then
              some (some (Char.ofNat (0x10000 + (hi - 0xd800) * 0x400 + (lo - 0xdc00)), after))
            else some (some (charOf hi, rest))
      | _ => some (some (charOf hi, rest))
    else some (some (charOf hi, rest))

/-- Reads the rest of a string whose opening quote stood where `start` characters were
left. The read characters are collected last first. -/
def readString (start : Nat) : Nat → List Char → List Char → Reading String
  | 0, _, _ => .error (.malformed "Unterminated string starting at" start)
  | _ + 1, _, [] => .error (.malformed "Unterminated string starting at" start)
  | fuel + 1, out, c :: rest =>
    if c = '"' then .ok (.ofList out.reverse, rest)
    else if c = '\\' then
      match rest with
      | [] => .error (.malformed "Unterminated string starting at" start)
      | 'u' :: after =>
        match unicodeChar? after with
        | none => .error (.malformed "Invalid \\uXXXX escape" rest.length)
        | some none => .error (.malformed "Invalid \\uXXXX escape" (after.length - 5))
        | some (some (d, tail)) => readString start fuel (d :: out) tail
      | e :: after =>
        match plainEscape? e with
        | none => .error (.malformed "Invalid \\escape" (rest.length + 1))
        | some d => readString start fuel (d :: out) after
    else if c.toNat < 32 then .error (.malformed "Invalid control character at" (rest.length + 1))
    else readString start fuel (c :: out) rest

def exponentPart (cs : List Char) : List Char × List Char :=
  match cs with
  | e :: rest =>
    if e = 'e' || e = 'E' then
      let (sign, ds) := match rest with
        | '+' :: r => (['+'], r)
        | '-' :: r => (['-'], r)
        | r => ([], r)
      let run := ds.takeWhile Char.isDigit
      if run.isEmpty then ([], cs) else (e :: (sign ++ run), ds.dropWhile Char.isDigit)
    else ([], cs)
  | [] => ([], [])

def fractionPart (cs : List Char) : List Char × List Char :=
  match cs with
  | '.' :: rest =>
    let run := rest.takeWhile Char.isDigit
    if run.isEmpty then ([], cs) else ('.' :: run, rest.dropWhile Char.isDigit)
  | _ => ([], cs)

def wholePart (cs : List Char) : List Char × List Char :=
  match cs with
  | '0' :: rest => (['0'], rest)
  | _ => (cs.takeWhile Char.isDigit, cs.dropWhile Char.isDigit)

def readNumber (cs : List Char) : Reading Value :=
  let (sign, body) := match cs with
    | '-' :: r => (['-'], r)
    | r => ([], r)
  let (whole, afterWhole) := wholePart body
  if whole.isEmpty then .error (.malformed "Expecting value" cs.length)
  else
    let (fraction, afterFraction) := fractionPart afterWhole
    let (exponent, rest) := exponentPart afterFraction
    let text := String.ofList (sign ++ whole ++ fraction ++ exponent)
    if fraction.isEmpty && exponent.isEmpty then
      match readInteger text with
      | .ok n => .ok (.int n, rest)
      | .error e => .error (.integer e)
    else .ok (.float ((readFloat text).getD 0.0), rest)

def textMark : Nat := 0

def constants : List (List Char × Value) :=
  [("null".toList, .null), ("true".toList, .bool true), ("false".toList, .bool false),
    ("NaN".toList, .nan textMark), ("Infinity".toList, .float (1.0 / 0.0)),
    ("-Infinity".toList, .float (-1.0 / 0.0))]

def readAtom (cs : List Char) : Reading Value :=
  match constants.find? fun k => k.1.isPrefixOf cs with
  | some (word, v) => .ok (v, cs.drop word.length)
  | none => readNumber cs

mutual

def readValue : Nat → List Char → Reading Value
  | 0, cs => .error (.malformed "Expecting value" cs.length)
  | fuel + 1, cs =>
    match cs with
    | '"' :: rest =>
      match readString cs.length (rest.length + 1) [] rest with
      | .ok (s, after) => .ok (.str s, after)
      | .error e => .error e
    | '\x7b' :: rest =>
      match skip rest with
      | '\x7d' :: after => .ok (.dict [], after)
      | inner => readEntries fuel [] inner
    | '[' :: rest =>
      match skip rest with
      | ']' :: after => .ok (.list [], after)
      | inner => readItems fuel [] inner
    | _ => readAtom cs

def readItems : Nat → List Value → List Char → Reading Value
  | 0, _, cs => .error (.malformed "Expecting value" cs.length)
  | fuel + 1, out, cs =>
    match readValue fuel cs with
    | .error e => .error e
    | .ok (v, rest) =>
      match skip rest with
      | ']' :: after => .ok (.list (v :: out).reverse, after)
      | ',' :: after => readItems fuel (v :: out) (skip after)
      | other => .error (.malformed "Expecting ',' delimiter" other.length)

def readEntries : Nat → List (String × Value) → List Char → Reading Value
  | 0, _, cs => .error (.malformed "Expecting value" cs.length)
  | fuel + 1, out, cs =>
    match cs with
    | '"' :: rest =>
      match readString cs.length (rest.length + 1) [] rest with
      | .error e => .error e
      | .ok (key, afterKey) =>
        match skip afterKey with
        | ':' :: afterColon =>
          match readValue fuel (skip afterColon) with
          | .error e => .error e
          | .ok (v, afterValue) =>
            match skip afterValue with
            | '\x7d' :: after => .ok (.dict (Record.ofEntries ((key, v) :: out).reverse), after)
            | ',' :: after => readEntries fuel ((key, v) :: out) (skip after)
            | other => .error (.malformed "Expecting ',' delimiter" other.length)
        | other => .error (.malformed "Expecting ':' delimiter" other.length)
    | other =>
      .error (.malformed "Expecting property name enclosed in double quotes" other.length)

end

def readChars (cs : List Char) : Except ReadError Value :=
  match cs with
  | '\ufeff' :: _ =>
    .error (.malformed "Unexpected UTF-8 BOM (decode using utf-8-sig)" cs.length)
  | _ =>
    match readValue (cs.length + 1) (skip cs) with
    | .error e => .error e
    | .ok (v, rest) =>
      match skip rest with
      | [] => .ok v
      | other => .error (.malformed "Extra data" other.length)

def placeMessage (what : String) (cs : List Char) (index : Nat) : String :=
  let before := cs.take index
  let line := before.count '\n' + 1
  let column := (before.reverse.takeWhile (· ≠ '\n')).length + 1
  what ++ ": line " ++ toString line ++ " column " ++ toString column ++
    " (char " ++ toString index ++ ")"

def ReadError.fault (cs : List Char) : ReadError → Fault
  | .malformed what left => ⟨.json, placeMessage what cs (cs.length - left)⟩
  | .integer why => .ofValue why.message

def read (text : String) : Except Fault Value :=
  (readChars text.toList).mapError (ReadError.fault text.toList)

mutual

def readBack : Value → Value
  | .nan _ => .nan textMark
  | .float x => if x.isNaN then .nan textMark else .float x
  | .list items => .list (readBackItems items)
  | .dict entries => .dict (readBackEntries entries)
  | v => v

def readBackItems : List Value → List Value
  | [] => []
  | v :: vs => readBack v :: readBackItems vs

def readBackEntries : List (String × Value) → List (String × Value)
  | [] => []
  | (k, v) :: es => (k, readBack v) :: readBackEntries es

end

/-! ### JSON text of values -/

structure Style where
  indent : Option Nat := none
  ascii : Bool := true
  sorted : Bool := false
  comma : String := ", "
  colon : String := ": "

def Style.line : Style := {}

def Style.pretty : Style := { indent := some 2 }

def Style.compact : Style := { comma := ",", colon := ":" }

def unicodeEscape (n : Nat) : String :=
  if n < 0x10000 then "\\u" ++ hexPadded 4 n
  else
    let m := n - 0x10000
    "\\u" ++ hexPadded 4 (0xd800 + m / 0x400) ++ "\\u" ++ hexPadded 4 (0xdc00 + m % 0x400)

def escapeChar (ascii : Bool) (c : Char) : String :=
  if c = '"' then "\\\""
  else if c = '\\' then "\\\\"
  else if c = '\n' then "\\n"
  else if c = '\r' then "\\r"
  else if c = '\t' then "\\t"
  else if c.toNat = 8 then "\\b"
  else if c.toNat = 12 then "\\f"
  else if c.toNat < 32 then unicodeEscape c.toNat
  else if ascii && 126 < c.toNat then unicodeEscape (codeOf c)
  else c.toString

def writeString (ascii : Bool) (s : String) : String :=
  "\"" ++ s.foldl (fun out c => out ++ escapeChar ascii c) "" ++ "\""

def writeFloat (x : Float) : String :=
  match parts x with
  | .nan => "NaN"
  | .infinite negative => if negative then "-Infinity" else "Infinity"
  | .finite .. => floatText x

def enclose (style : Style) (level : Nat) (left right : String) (items : List String) : String :=
  if items.isEmpty then left ++ right
  else match style.indent with
    | none => left ++ style.comma.intercalate items ++ right
    | some n =>
      let inner := "\n" ++ String.ofList (List.replicate (n * (level + 1)) ' ')
      let outer := "\n" ++ String.ofList (List.replicate (n * level) ' ')
      left ++ inner ++ ("," ++ inner).intercalate items ++ outer ++ right

def arrange (style : Style) (entries : List (String × String)) : List (String × String) :=
  if style.sorted then entries.mergeSort (fun a b => !(b.1 < a.1)) else entries

mutual

def writeAt (style : Style) (level : Nat) : Value → String
  | .null => "null"
  | .bool b => if b then "true" else "false"
  | .int n => toString n
  | .float x => writeFloat x
  | .nan _ => writeFloat notANumber
  | .str s => writeString style.ascii s
  | .list items => enclose style level "[" "]" (writeItems style (level + 1) items)
  | .dict entries =>
    enclose style level "\x7b" "\x7d" ((arrange style (writeEntries style (level + 1) entries)).map
      fun e => writeString style.ascii e.1 ++ style.colon ++ e.2)

def writeItems (style : Style) (level : Nat) : List Value → List String
  | [] => []
  | v :: vs => writeAt style level v :: writeItems style level vs

def writeEntries (style : Style) (level : Nat) : List (String × Value) → List (String × String)
  | [] => []
  | (k, v) :: es => (k, writeAt style level v) :: writeEntries style level es

end

def write (style : Style) (v : Value) : String := writeAt style 0 v

/-!
### Numbers with tags

In tagged form a floating-point number is a table with its text under `float`, and an integer of 2⁵³
or more a table with its digits under `int`.
-/

mutual

def tag : Value → Value
  | .float x => .dict [("float", .str (floatText x))]
  | .nan _ => .dict [("float", .str (floatText notANumber))]
  | .int n => if n.natAbs < Nat.pow 2 53 then .int n else .dict [("int", .str (toString n))]
  | .dict es => .dict (tagEntries es)
  | .list xs => .list (tagItems xs)
  | v => v

def tagItems : List Value → List Value
  | [] => []
  | v :: vs => tag v :: tagItems vs

def tagEntries : List (String × Value) → List (String × Value)
  | [] => []
  | (k, v) :: es => (k, tag v) :: tagEntries es

end

mutual

/-- Reads the tagged numbers in a value. Every NaN gets a mark of its own, from `next` on; the
second part is the next free mark. -/
def untagFrom (next : Nat) : Value → Value × Nat
  | .dict [("float", .str t)] =>
    let x := (readFloat t).getD 0.0
    if x.isNaN then (.nan next, next + 1) else (.float x, next)
  | .dict [("int", .str t)] =>
    (.int (match readInteger t with
      | .ok n => n
      | .error _ => 0), next)
  | .dict es =>
    let (es, next) := untagEntries next es
    (.dict es, next)
  | .list xs =>
    let (xs, next) := untagItems next xs
    (.list xs, next)
  | v => (v, next)

def untagItems (next : Nat) : List Value → List Value × Nat
  | [] => ([], next)
  | v :: vs =>
    let (v, next) := untagFrom next v
    let (vs, next) := untagItems next vs
    (v :: vs, next)

def untagEntries (next : Nat) : List (String × Value) → List (String × Value) × Nat
  | [] => ([], next)
  | (k, v) :: es =>
    let (v, next) := untagFrom next v
    let (es, next) := untagEntries next es
    ((k, v) :: es, next)

end

/-- Reads the tagged numbers in a value. No two NaNs in it are the same, and none is one of a
JSON text. -/
def untag (v : Value) : Value := (untagFrom (textMark + 1) v).1

end Rulebook.Json
