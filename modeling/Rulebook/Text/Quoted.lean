/-
Quoted text: the display form of a string between quotes.

A text stands between single quotes unless it holds a single quote and no double
quote. The backslash, the chosen quote and every character that is not printable
are escaped. A text that holds surrogates cannot be encoded; the fault displays them.
-/

import Rulebook.Fault
import Rulebook.Text.CharClass

namespace Rulebook.Text

/-! ### Lone surrogates

Half of a surrogate pair is no character, yet JSON text can name one, and then a text holds it
like a character. Code points that are assigned to nothing stand for the halves. They have no
letter case, belong to no class of characters and are shown as the halves they stand for; a text
that holds one cannot be encoded. -/

def isSurrogate (n : Nat) : Bool := 0xd800 ≤ n && n ≤ 0xdfff

def standInShift : Nat := 0x50000

def charOf (n : Nat) : Char := Char.ofNat (if isSurrogate n then n + standInShift else n)

def codeOf (c : Char) : Nat :=
  if isSurrogate (c.toNat - standInShift) then c.toNat - standInShift else c.toNat

def isStandIn (c : Char) : Bool := isSurrogate (codeOf c)

def hexPadded (width n : Nat) : String :=
  let digits := Nat.toDigits 16 n
  .ofList (List.replicate (width - digits.length) '0' ++ digits)

def quoteChar (quote c : Char) : String :=
  if c = '\\' || c = quote then .ofList ['\\', c]
  else if c = '\n' then "\\n"
  else if c = '\r' then "\\r"
  else if c = '\t' then "\\t"
  else if isPrintable c then c.toString
  else if c.toNat < 0x100 then "\\x" ++ hexPadded 2 c.toNat
  else if codeOf c < 0x10000 then "\\u" ++ hexPadded 4 (codeOf c)
  else "\\U" ++ hexPadded 8 c.toNat

def displayQuote (cs : List Char) : Char :=
  if cs.contains '\'' && !cs.contains '"' then '"' else '\''

def quoted (s : String) : String :=
  let quote := displayQuote s.toList
  quote.toString ++ String.join (s.toList.map (quoteChar quote)) ++ quote.toString

def noEncoding (before surrogates : List Char) : Fault :=
  let place := before.length
  let which := match surrogates with
    | [c] => " " ++ quoted c.toString ++ " in position " ++ toString place
    | cs => "s in position " ++ toString place ++ "-" ++ toString (place + cs.length - 1)
  ⟨.encoding, "'utf-8' codec can't encode character" ++ which ++ ": surrogates not allowed"⟩

def encodable (s : String) : Except Fault String :=
  let clean := fun c => !isStandIn c
  match (s.toList.dropWhile clean).takeWhile isStandIn with
  | [] => .ok s
  | surrogates => .error (noEncoding (s.toList.takeWhile clean) surrogates)

/-!
### Reading UTF-8

Bytes that are no character are replaced: a byte that cannot start a character counts
for itself, and a character that breaks off counts once for all its bytes.
-/

def replacement : Char := Char.ofNat 0xfffd

/-- What the first byte of a character says: the character itself, or the leading bits and the
ranges of the bytes to come. -/
def leadByte (b : Nat) : Except Char (Nat × List (Nat × Nat)) :=
  let tail := (0x80, 0xbf)
  if b < 0x80 then .error (Char.ofNat b)
  else if b < 0xc2 then .error replacement
  else if b < 0xe0 then .ok (b - 0xc0, [tail])
  else if b = 0xe0 then .ok (0, [(0xa0, 0xbf), tail])
  else if b = 0xed then .ok (0xd, [(0x80, 0x9f), tail])
  else if b < 0xf0 then .ok (b - 0xe0, [tail, tail])
  else if b = 0xf0 then .ok (0, [(0x90, 0xbf), tail, tail])
  else if b < 0xf4 then .ok (b - 0xf0, [tail, tail, tail])
  else if b = 0xf4 then .ok (4, [(0x80, 0x8f), tail, tail])
  else .error replacement

/-- Reads bytes: `bits` are those of an unfinished character and `need` the ranges of the bytes
that it lacks. -/
def readBytes : Nat → List (Nat × Nat) → List UInt8 → List Char
  | _, [], [] => []
  | _, _ :: _, [] => [replacement]
  | _, [], b :: bs =>
    match leadByte b.toNat with
    | .error c => c :: readBytes 0 [] bs
    | .ok (bits, need) => readBytes bits need bs
  | bits, (low, high) :: more, b :: bs =>
    if low ≤ b.toNat && b.toNat ≤ high then
      let wider := bits * 64 + b.toNat % 64
      if more.isEmpty then Char.ofNat wider :: readBytes 0 [] bs
      else readBytes wider more bs
    else
      match leadByte b.toNat with
      | .error c => replacement :: c :: readBytes 0 [] bs
      | .ok (bits, need) => replacement :: readBytes bits need bs

def ofBytes (bytes : List UInt8) : String := .ofList (readBytes 0 [] bytes)

end Rulebook.Text
