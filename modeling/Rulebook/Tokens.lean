/-
What the parsers share.

Lexers skip white space, and they fail in few ways. A parsing function returns the tokens it left
over together with the proof that they are fewer than, or at most as many as, those it was given.
Recursive-descent parsers terminate by these proofs.
-/

import Rulebook.Numeral

namespace Rulebook

inductive LexError where
  | unterminatedString (pos : Nat)
  | unterminatedReference (pos : Nat)
  | unexpectedCharacter (c : Char) (pos : Nat)
  | badNumber (why : Numeral.IntegerError)
deriving DecidableEq

def LexError.message : LexError → String
  | unterminatedString pos => "Unterminated string at position " ++ toString pos
  | unterminatedReference pos => "Unterminated field reference at position " ++ toString pos
  | unexpectedCharacter c pos =>
    "Unexpected character '" ++ c.toString ++ "' at position " ++ toString pos
  | badNumber why => why.message

def LexError.fault (e : LexError) : Fault :=
  match e with
  | badNumber _ => ⟨.value, e.message⟩
  | _ => ⟨.grammar, e.message⟩

def isGap (c : Char) : Bool := c == ' ' || c == '\t' || c == '\n' || c == '\r'

abbrev Fewer {α : Type} (ts : List α) := { rest : List α // rest.length < ts.length }

abbrev NotMore {α : Type} (ts : List α) := { rest : List α // rest.length ≤ ts.length }

end Rulebook
