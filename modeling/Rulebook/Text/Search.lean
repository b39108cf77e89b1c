/-
Finding, cutting and replacing pieces of text.

Everything is defined on lists of characters by recursion on the list; the
versions on `String` convert at the edges. A separator that was found is stepped
over by counting its characters down, so occurrences never overlap and the
leftmost one is always taken.
-/

import Rulebook.Text.CharClass

namespace Rulebook.Text

def after? : List Char → List Char → Option (List Char)
  | [], cs => some cs
  | _ :: _, [] => none
  | p :: ps, c :: cs => if p = c then after? ps cs else none

def findChars (piece : List Char) : List Char → Option Nat
  | [] => if piece.isEmpty then some 0 else none
  | c :: rest =>
    if piece.isPrefixOf (c :: rest) then some 0
    else (findChars piece rest).map (· + 1)

/-- Cuts a text at the leftmost occurrences of a separator. `skip` counts the
characters of the current separator still to be passed and `word` holds the
current piece, last character first. -/
def cutGo (sep : List Char) : Nat → List Char → List Char → List (List Char)
  | _, word, [] => [word.reverse]
  | skip + 1, word, _ :: rest => cutGo sep skip word rest
  | 0, word, c :: rest =>
    if sep.isPrefixOf (c :: rest) then word.reverse :: cutGo sep (sep.length - 1) [] rest
    else cutGo sep 0 (c :: word) rest

def cutChars (sep cs : List Char) : List (List Char) := cutGo sep 0 [] cs

def joinChars (sep : List Char) : List (List Char) → List Char
  | [] => []
  | [piece] => piece
  | piece :: pieces => piece ++ sep ++ joinChars sep pieces

def replaceChars (old new cs : List Char) : List Char := joinChars new (cutChars old cs)

def dropEnd (p : Char → Bool) (cs : List Char) : List Char :=
  (cs.reverse.dropWhile p).reverse

def trimBy (p : Char → Bool) (cs : List Char) : List Char := dropEnd p (cs.dropWhile p)

def trimChars (cs : List Char) : List Char := trimBy isBlank cs

def wordsOf (cs : List Char) : List (List Char) :=
  (cutAt isBlank cs).filter (· ≠ [])

def trim (s : String) : String := .ofList (trimChars s.toList)

def trimEnd (s : String) : String := .ofList (dropEnd isBlank s.toList)

def cut (s sep : String) : List String := (cutChars sep.toList s.toList).map .ofList

def cutOnce (s sep : String) : Option (String × String) :=
  (findChars sep.toList s.toList).map fun i =>
    (.ofList (s.toList.take i), .ofList (s.toList.drop (i + sep.length)))

def replace (s old new : String) : String :=
  .ofList (replaceChars old.toList new.toList s.toList)

def find? (s piece : String) : Option Nat := findChars piece.toList s.toList

def contains (s piece : String) : Bool := (find? s piece).isSome

def startsWith (s lead : String) : Bool := lead.toList.isPrefixOf s.toList

def endsWith (s tail : String) : Bool := tail.toList.isSuffixOf s.toList

def takeFront (s : String) (n : Nat) : String := .ofList (s.toList.take n)

def dropFront (s : String) (n : Nat) : String := .ofList (s.toList.drop n)

def dropBack (s : String) (n : Nat) : String := .ofList (s.toList.take (s.length - n))

def join (sep : String) (parts : List String) : String := sep.intercalate parts

def times (n : Nat) (s : String) : String := String.join (List.replicate n s)

def padEnd (width : Nat) (s : String) : String := s ++ times (width - s.length) " "

def padStart (width : Nat) (s : String) : String := times (width - s.length) " " ++ s

/-! ### Lines

Besides line feeds and carriage returns, the control characters that separate lines,
records and paragraphs end a line. The text behind the last line end is a line unless it
is empty. -/

def endsLine (c : Char) : Bool :=
  let n := c.toNat
  (10 ≤ n && n ≤ 13) || (28 ≤ n && n ≤ 30) || n = 0x85 || n = 0x2028 || n = 0x2029

def linesGo (seen : List Char) : List Char → List (List Char)
  | [] => if seen.isEmpty then [] else [seen.reverse]
  | '\r' :: '\n' :: cs => seen.reverse :: linesGo [] cs
  | c :: cs => if endsLine c then seen.reverse :: linesGo [] cs else linesGo (c :: seen) cs

def lines (s : String) : List String := (linesGo [] s.toList).map .ofList

end Rulebook.Text
