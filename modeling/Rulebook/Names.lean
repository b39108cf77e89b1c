/-
Spellings of names.

Fields and tables are named in words run together (`HasSyntax`); records, columns
and generated code spell them with underscores (`has_syntax`), with a small first
letter (`hasSyntax`) or with capitals (`HasSyntax`).
-/

import Rulebook.Text.Case
import Rulebook.Text.Search

namespace Rulebook.Names

open Text

def isCapital (c : Char) : Bool := 'A' ≤ c && c ≤ 'Z'

def isSmall (c : Char) : Bool := 'a' ≤ c && c ≤ 'z'

def wordStarts : List Char → Bool
  | u :: l :: _ => isCapital u && isSmall l
  | _ => false

inductive WordScan where
  | free
  | capital
  | small

/-- Puts an underscore before every capitalised word that some character precedes; the
letters of a word do not count as that character for the next one. -/
def separateWords : WordScan → List Char → List Char
  | _, [] => []
  | .capital, c :: rest => c :: separateWords .small rest
  | .small, c :: rest =>
    if isSmall c then c :: separateWords .small rest
    else if c ≠ '\n' && wordStarts rest then c :: '_' :: separateWords .capital rest
    else c :: separateWords .free rest
  | .free, c :: rest =>
    if c ≠ '\n' && wordStarts rest then c :: '_' :: separateWords .capital rest
    else c :: separateWords .free rest

def separateCapitals : List Char → List Char
  | [] => []
  | c :: rest =>
    match rest with
    | u :: _ =>
      if (isSmall c || c.isDigit) && isCapital u then c :: '_' :: separateCapitals rest
      else c :: separateCapitals rest
    | [] => [c]

def snakeChars (cs : List Char) : List Char :=
  lowerChars (separateCapitals (separateWords .free cs))

def snake (name : String) : String := .ofList (snakeChars name.toList)

def camel (name : String) : String :=
  match name.toList with
  | [] => ""
  | c :: rest => .ofList (lowerChars [c] ++ rest)

def pascal (name : String) : String :=
  .ofList ((cutAt (· == '_') name.toList).flatMap capitalizeChars)

def singular (table : String) : String :=
  if endsWith table "s" && !endsWith table "ss" then dropBack table 1 else table

def key (name : String) : String := replace (lower name) " " "_"

def ofView (view : String) : String := replace view "vw_" ""

end Rulebook.Names
