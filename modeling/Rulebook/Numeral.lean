/-
Binary floating-point numbers, exactly.

A finite number is `m · 2 ^ q` with a natural `m`, and all comparisons are made on natural numbers.
`shortest` gives the fewest decimal digits that read back, and of those the nearest.
-/

import Rulebook.Text.Case
import Rulebook.Text.Quoted
import Rulebook.Text.Search

namespace Rulebook.Numeral

open Text

/-!
### Integer numerals

A numeral is an optional sign and decimal digits of any script, with single underscores between
digits and white space around the whole.
-/

def isPadding (c : Char) : Bool := c == ' ' || (9 ≤ c.toNat && c.toNat ≤ 13)

/-- Writes a character of a numeral in ASCII: white space becomes a blank, a decimal
digit its ASCII form, and anything else beyond ASCII a question mark. -/
def asciiForm (c : Char) : Char :=
  if isAscii c then c
  else if isBlank c then ' '
  else match decimalValue? c with
    | some d => Char.ofNat ('0'.toNat + d)
    | none => '?'

/-- Reads digits with single underscores between them, and returns the digits and
the text after them. The flag says that no digit precedes immediately. -/
def digitRun : Bool → List Char → Option (List Char × List Char)
  | bare, [] => if bare then none else some ([], [])
  | bare, c :: rest =>
    if c.isDigit then (digitRun false rest).map fun r => (c :: r.1, r.2)
    else if c == '_' then (if bare then none else digitRun true rest)
    else if bare then none else some ([], c :: rest)

def ofDigits (ds : List Char) : Nat :=
  ds.foldl (fun n c => 10 * n + (c.toNat - '0'.toNat)) 0

def takeSign : List Char → Bool × List Char
  | '-' :: rest => (true, rest)
  | '+' :: rest => (false, rest)
  | cs => (false, cs)

inductive IntegerError where
  | notNumeral (text : String)
  | tooLong (digits : Nat)
deriving DecidableEq

def maxDigits : Nat := 4300

def IntegerError.message : IntegerError → String
  | .notNumeral text =>
    "invalid literal for int() with base 10: " ++ .ofList ((quoted text).toList.take 200)
  | .tooLong digits =>
    "Exceeds the limit (" ++ toString maxDigits ++
      " digits) for integer string conversion: value has " ++ toString digits ++
      " digits; use sys.set_int_max_str_digits() to increase the limit"

/-- The text shown for an integer of more than `maxDigits` digits, which has no numeral. -/
def noNumeral : String :=
  "Exceeds the limit (" ++ toString maxDigits ++
    " digits) for integer string conversion; use sys.set_int_max_str_digits() to increase the limit"

def isTooLong (n : Int) : Bool := Nat.pow 10 maxDigits ≤ n.natAbs

def readInteger (text : String) : Except IntegerError Int :=
  let cs := (text.toList.map asciiForm).dropWhile isPadding
  let (negative, body) := takeSign cs
  match digitRun true body with
  | none => .error (.notNumeral text)
  | some (ds, rest) =>
    if maxDigits < ds.length then .error (.tooLong ds.length)
    else if rest.all isPadding then
      .ok (if negative then -(ofDigits ds : Int) else ofDigits ds)
    else .error (.notNumeral text)

def integer (text : String) : Except Fault Int :=
  (readInteger text).mapError fun e => .ofValue e.message

def total : List Nat → Nat
  | [] => 0
  | n :: rest => n + total rest

inductive Parts where
  | nan
  | infinite (negative : Bool)
  | finite (negative : Bool) (m : Nat) (q : Int)

def parts (x : Float) : Parts :=
  let bits : Nat := x.toBits.toNat
  let negative := bits / Nat.pow 2 63 == 1
  let exponent : Nat := bits / Nat.pow 2 52 % 2048
  let fraction : Nat := bits % Nat.pow 2 52
  if exponent == 2047 then
    if fraction == 0 then .infinite negative else .nan
  else if exponent == 0 then .finite negative fraction (-1074)
  else .finite negative (fraction + Nat.pow 2 52) ((exponent : Int) - 1075)

def notANumber : Float := 0.0 / 0.0

def powerOfTwo (q : Int) : Nat × Nat := (Nat.pow 2 q.toNat, Nat.pow 2 (-q).toNat)

def compareInt (n : Int) (negative : Bool) (m : Nat) (q : Int) : Ordering :=
  let (num, den) := powerOfTwo q
  let value : Int := m * num
  compare (n * den) (if negative then -value else value)

def isIntegral (x : Float) : Bool :=
  match parts x with
  | .finite _ m q => m % Nat.pow 2 (-q).toNat == 0
  | _ => false

def truncate? (x : Float) : Option Int :=
  match parts x with
  | .finite negative m q =>
    let (num, den) := powerOfTwo q
    let n : Int := (m * num / den : Nat)
    some (if negative then -n else n)
  | _ => none

structure Decimal where
  digits : Nat
  exponent : Int

def digitCount (n : Nat) : Nat := (Nat.toDigits 10 n).length

def magnitude (num den : Nat) : Int :=
  if den ≤ num then digitCount (num / den)
  else
    let l := digitCount (den / num) - 1
    if den ≤ num * Nat.pow 10 l then 1 - l else -l

/-- The interval of reals that round to `m · 2 ^ q`, in units of `2 ^ (q - 2)`: the
lower end, the number and the upper end. -/
def roundingInterval (m : Nat) (q : Int) : Nat × Nat × Nat :=
  (if m == Nat.pow 2 52 && q ≠ -1074 then 4 * m - 1 else 4 * m - 2, 4 * m, 4 * m + 2)

/-- The fewest digits that read back as `m · 2 ^ q`, searched from `n` digits on. The
two decimals next to the number on each grid are tried, the nearer one first. -/
def shortestFrom (m : Nat) (q : Int) : Nat → Nat → Decimal
  | 0, _ => ⟨0, 0⟩
  | fuel + 1, n =>
    let (low, mid, high) := roundingInterval m q
    let (num, den) := powerOfTwo (q - 2)
    let k := magnitude (mid * num) den - n
    let up := Nat.pow 10 (-k).toNat
    let down := Nat.pow 10 k.toNat
    let scaled := fun x => x * num * up
    let unit := down * den
    let d := scaled mid / unit
    let inside := fun e =>
      if m % 2 == 0 then scaled low ≤ e * unit && e * unit ≤ scaled high
      else scaled low < e * unit && e * unit < scaled high
    let below := scaled mid - d * unit
    let above := (d + 1) * unit - scaled mid
    let downFirst := below < above || (below == above && d % 2 == 0)
    let first := if downFirst then d else d + 1
    let second := if downFirst then d + 1 else d
    if inside first then ⟨first, k⟩
    else if inside second then ⟨second, k⟩
    else shortestFrom m q fuel (n + 1)

def shortest (m : Nat) (q : Int) : Decimal := shortestFrom m q 17 1

def significant (n : Nat) : List Char := dropEnd (· == '0') (Nat.toDigits 10 n)

/-- Lays decimal digits out: positional when the point falls after place `-4` and
before place `17`, else with an exponent of at least two digits. `point` is the place
of the decimal point relative to the first digit. -/
def layOut (ds : List Char) (point : Int) : String :=
  if -4 < point && point ≤ 16 then
    if point ≤ 0 then "0." ++ .ofList (List.replicate (-point).toNat '0' ++ ds)
    else
      let whole := ds.take point.toNat
      let zeros := List.replicate (point.toNat - ds.length) '0'
      let fraction := ds.drop point.toNat
      .ofList (whole ++ zeros ++ ['.'] ++ (if fraction.isEmpty then ['0'] else fraction))
  else
    let exponent := point - 1
    let mark := if exponent < 0 then "-" else "+"
    let size := toString exponent.natAbs
    let padded := if size.length < 2 then "0" ++ size else size
    let mantissa := match ds with
      | [] => "0"
      | [d] => d.toString
      | d :: rest => d.toString ++ "." ++ .ofList rest
    mantissa ++ "e" ++ mark ++ padded

def floatText (x : Float) : String :=
  match parts x with
  | .nan => "nan"
  | .infinite negative => if negative then "-inf" else "inf"
  | .finite negative m q =>
    let body :=
      if m == 0 then "0.0"
      else
        let d := shortest m q
        let ds := Nat.toDigits 10 d.digits
        layOut (significant d.digits) (ds.length + d.exponent)
    if negative then "-" ++ body else body

def roundDiv (num den : Nat) : Nat :=
  let d := num / den
  let r := 2 * (num % den)
  if r < den || (r == den && d % 2 == 0) then d else d + 1

def fixedText (places : Nat) (x : Float) : String :=
  match parts x with
  | .nan => "nan"
  | .infinite negative => if negative then "-inf" else "inf"
  | .finite negative m q =>
    let (num, den) := powerOfTwo q
    let scaled := roundDiv (m * num * Nat.pow 10 places) den
    let whole := toString (scaled / Nat.pow 10 places)
    let fraction := Nat.toDigits 10 (scaled % Nat.pow 10 places)
    let padded := List.replicate (places - fraction.length) '0' ++ fraction
    let body := if places == 0 then whole else whole ++ "." ++ .ofList padded
    if negative then "-" ++ body else body

/-- The floating-point number nearest to `num / den`, a half to the even neighbour; none when
it is too large. The quotient is rounded to 53 bits, or to fewer below the normal range. -/
def ofRatio (num den : Nat) : Option Float :=
  if num == 0 then some 0.0
  else
    let estimate : Int := (Nat.log2 num : Int) - Nat.log2 den
    let atLeast := fun e : Int => den * Nat.pow 2 e.toNat ≤ num * Nat.pow 2 (-e).toNat
    let exponent := if atLeast estimate then estimate else estimate - 1
    let q := max (exponent - 52) (-1074)
    let m := roundDiv (num * Nat.pow 2 (-q).toNat) (den * Nat.pow 2 q.toNat)
    let (m, q) := if m == Nat.pow 2 53 then (Nat.pow 2 52, q + 1) else (m, q)
    if 971 < q then none
    else if m < Nat.pow 2 52 then some (Float.ofBits m.toUInt64)
    else some (Float.ofBits ((q + 1075).toNat * Nat.pow 2 52 + (m - Nat.pow 2 52)).toUInt64)

def ofDecimal (m : Nat) (e : Int) : Float :=
  let size : Int := digitCount m + e
  if m == 0 || size < -400 then 0.0
  else if 400 < size then 1.0 / 0.0
  else (ofRatio (m * Nat.pow 10 e.toNat) (Nat.pow 10 (-e).toNat)).getD (1.0 / 0.0)

def ofInt (n : Int) : Option Float :=
  (ofRatio n.natAbs 1).map fun x => if n < 0 then -x else x

/-- Drops single underscores that stand between digits; none when one stands
elsewhere. -/
def dropUnderscores : Bool → List Char → Option (List Char)
  | _, [] => some []
  | digitBefore, '_' :: rest =>
    match rest with
    | d :: _ => if digitBefore && d.isDigit then dropUnderscores false rest else none
    | [] => none
  | _, c :: rest => (dropUnderscores c.isDigit rest).map (c :: ·)

def readExponent : List Char → Option Int
  | [] => some 0
  | c :: rest =>
    if c == 'e' || c == 'E' then
      let (negative, ds) := takeSign rest
      if ds.isEmpty || !ds.all Char.isDigit then none
      else
        let n : Int := if 6 < ds.length then 1000000 else ofDigits ds
        some (if negative then -n else n)
    else none

def readUnsigned (cs : List Char) : Option Float :=
  let whole := cs.takeWhile Char.isDigit
  let rest := cs.dropWhile Char.isDigit
  let (fraction, tail) := match rest with
    | '.' :: r => (r.takeWhile Char.isDigit, r.dropWhile Char.isDigit)
    | r => ([], r)
  if whole.isEmpty && fraction.isEmpty then none
  else (readExponent tail).map fun e =>
    ofDecimal (ofDigits (whole ++ fraction)) (e - fraction.length)

/-- Reads a floating-point numeral: a decimal, an infinity or a NaN, with optional
sign and white space around it. -/
def readFloat (text : String) : Option Float := do
  let cs := trimBy isPadding (text.toList.map asciiForm)
  let plain ← if cs.contains '_' then dropUnderscores false cs else some cs
  let (negative, body) := takeSign plain
  let word := String.ofList (body.map Char.toLower)
  let x ←
    if word == "inf" || word == "infinity" then some (1.0 / 0.0)
    else if word == "nan" then some notANumber
    else readUnsigned body
  return if negative then -x else x

def float (text : String) : Except Fault Float :=
  match readFloat text with
  | some x => .ok x
  | none => .error (.ofValue ("could not convert string to float: " ++ quoted text))

end Rulebook.Numeral
