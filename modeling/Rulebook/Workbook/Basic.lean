/-
Workbooks.

A workbook is a list of worksheets with distinct titles, and a worksheet a grid of
cells with a look each. Titles are distinct also in letter case: a title that is taken
gets the next number.
-/

import Rulebook.Names
import Rulebook.Sheet.Eval

namespace Rulebook.Sheet

open Text

/-!
### Values of cells

What a worksheet cell or a CSV field holds is turned into a value: words for truth
values, numerals and blanks are recognised.
-/

/-- The value of a worksheet cell: a floating-point number that is whole becomes an
integer, the words for truth values become booleans, and a blank text no value. -/
def ofCell : Value → Value
  | .float x =>
    if Numeral.isIntegral x then .int ((Numeral.truncate? x).getD 0) else .float x
  | .str s =>
    if upper s = "TRUE" then .bool true
    else if upper s = "FALSE" then .bool false
    else if (trim s).isEmpty then .null
    else .str s
  | v => v

def ofText (s : String) : Value :=
  if s.isEmpty then .null
  else if lower s = "true" then .bool true
  else if lower s = "false" then .bool false
  else if s.toList.contains '.' then
    match Numeral.readFloat s with
    | some x => .float x
    | none => .str s
  else
    match Numeral.readInteger s with
    | .ok n => .int n
    | .error _ => .str s

def ofField : Value → Except Fault Value
  | .null => .ok .null
  | .str s => .ok (ofText s)
  | v => .error (.noMember v.typeName "lower")

/-!
### Columns and cell references

Columns are lettered from `A`, in bijective base 26. A formula over fields becomes a
formula over cells by putting, for every field that is a column of the table, the
column's letter and the row's number.
-/

/-- The letters of a column number, least significant first; the first argument bounds their
count. -/
def columnLettersGo : Nat → Nat → List Char
  | 0, _ => []
  | _ + 1, 0 => []
  | fuel + 1, n + 1 => Char.ofNat ('A'.toNat + n % 26) :: columnLettersGo fuel (n / 26)

def columnLetters (n : Nat) : String := .ofList (columnLettersGo n n).reverse

def columnMap (names : List String) : List (String × String) :=
  (names.zipIdx 1).map fun (name, i) => (name, columnLetters i)

def columnOf (columns : List (String × String)) (name : String) : Option String :=
  columns.reverse.lookup name

def referenceAt? (cs : List Char) : Option (List Char × Nat) :=
  match after? ['\x7b', '\x7b'] cs with
  | none => none
  | some rest =>
    let name := rest.takeWhile isWord
    match name, rest.dropWhile isWord with
    | _ :: _, '\x7d' :: '\x7d' :: _ => some (name, name.length + 4)
    | _, _ => none

/-- Replaces references to columns by cell references. `skip` counts the characters of a
replaced reference still to be passed. -/
def toCellsGo (columns : List (String × String)) (row : String) : Nat → List Char → List Char
  | _, [] => []
  | skip + 1, _ :: rest => toCellsGo columns row skip rest
  | 0, c :: rest =>
    match referenceAt? (c :: rest) with
    | none => c :: toCellsGo columns row 0 rest
    | some (name, n) =>
      match columnOf columns (.ofList name) with
      | some letters => '$' :: (letters ++ row).toList ++ toCellsGo columns row (n - 1) rest
      | none => (c :: rest).take n ++ toCellsGo columns row (n - 1) rest

def toCells (columns : List (String × String)) (row formula : String) : String :=
  .ofList (toCellsGo columns row 0 formula.toList)

end Rulebook.Sheet

namespace Rulebook

inductive Cell.Look where
  | header
  | entered
  | calculated
deriving DecidableEq

structure Cell where
  value : Value
  look : Cell.Look

structure Worksheet where
  title : String
  rows : List (List Cell)
  widths : List Nat
  frozen : Bool

structure Workbook where
  sheets : List Worksheet

namespace Worksheet

open Text

def blank (title : String) : Worksheet := ⟨title, [], [], false⟩

def badTitleChars : List Char := ['\\', '*', '?', ':', '/', '[', ']']

/-- The numbers that follow the title wherever it occurs in a text, in whatever letter case.
`skip` counts the characters of an occurrence still to be passed. -/
def numbersAfter (title : List Char) : Nat → List Char → List Nat
  | _, [] => []
  | skip + 1, _ :: rest => numbersAfter title skip rest
  | 0, c :: rest =>
    let head := (c :: rest).take title.length
    if lowerChars head == title then
      let digits := ((c :: rest).drop title.length).takeWhile isDecimal
      let n := match Numeral.readInteger (.ofList digits) with
        | .ok n => [n.toNat]
        | .error _ => []
      n ++ numbersAfter title (title.length + digits.length - 1) rest
    else numbersAfter title 0 rest

def freshTitle (taken : List String) (title : String) : String :=
  if taken.any fun t => lower t = lower title then
    let numbers := numbersAfter (lowerChars title.toList) 0 (join "," taken).toList
    title ++ toString (numbers.foldl max 0 + 1)
  else title

def titleFor (taken : List String) (name : String) : Except Fault String :=
  let title := if name.isEmpty then "Sheet" else takeFront name 31
  match title.toList.find? badTitleChars.contains with
  | some c => .error (.ofValue s!"Invalid character {c.toString} found in sheet title")
  | none => .ok (freshTitle taken title)

end Worksheet

namespace Cell

open Text

def isForbidden (c : Char) : Bool :=
  c.toNat < 32 && c ≠ '\t' && c ≠ '\n' && c ≠ '\r'

def hold : Value → Except Fault Value
  | .str s =>
    let kept := takeFront s 32767
    if kept.toList.any isForbidden then
      .error ⟨.cellCharacter, kept ++ " cannot be used in worksheets."⟩
    else .ok (.str kept)
  | v@(.list _) | v@(.dict _) => .error (.ofValue s!"Cannot convert {v.display} to Excel")
  | v => .ok v

def isFormula : Value → Bool
  | .str s => startsWith s "=" && 1 < s.length
  | _ => false

end Cell

namespace Workbook

def fresh : Workbook := ⟨[.blank "Sheet"]⟩

def titles (b : Workbook) : List String := b.sheets.map Worksheet.title

def add (b : Workbook) (s : Worksheet) : Workbook := ⟨b.sheets ++ [s]⟩

def dropDefault (b : Workbook) : Workbook := if 1 < b.sheets.length then ⟨b.sheets.drop 1⟩ else b

end Workbook

/-! ### Workbooks as data

A sheet is a table of its title, its rows, the widths of its columns and the looks of its
first two rows. -/

def Cell.Look.fill : Cell.Look → Value
  | .header => .str "004472C4"
  | .calculated => .str "00DDEBF7"
  | .entered => .null

def Cell.Look.header? : Cell.Look → Value
  | .header => .list [.bool true, .str "004472C4", .str "center", .str "thin"]
  | _ => .list [.bool false, .str "00000000", .null, .null]

def Worksheet.toValue (s : Worksheet) : Value :=
  .dict [("title", .str s.title), ("freeze", if s.frozen then .str "A2" else .null),
    ("rows", .list (s.rows.map fun r => .list (r.map Cell.value))),
    ("widths", .dict ((s.widths.zipIdx 1).map fun (w, i) => (Sheet.columnLetters i, .int w))),
    ("header_style", .list ((s.rows.head?.getD [⟨.null, .entered⟩]).map (·.look.header?))),
    ("first_row_fill", .list ((s.rows[1]?.getD []).map (·.look.fill)))]

def Workbook.toValue (b : Workbook) : Value := .list (b.sheets.map Worksheet.toValue)

end Rulebook
