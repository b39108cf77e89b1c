/-
Workbooks in files.

A sheet of a saved workbook can be exported as CSV, and answers can be completed from
a workbook: its formulas are then evaluated cell by cell.
-/

import Rulebook.Answers.Fill

namespace Rulebook

/-!
### What a saved workbook keeps

In a file a number has sixteen significant digits, and one written without point and
exponent is read back as an integer. An empty text is no value, and line ends become
line feeds. Formulas are kept as they are, but the file has no results for them.
-/

def Numeral.sixteenDigits (m : Nat) (q : Int) : Numeral.Decimal :=
  let (num, den) := powerOfTwo q
  let scale : Int := 16 - magnitude (m * num) den
  ⟨roundDiv (m * num * Nat.pow 10 scale.toNat) (den * Nat.pow 10 (-scale).toNat), -scale⟩

def Numeral.Decimal.readBack (negative : Bool) (d : Numeral.Decimal) : Value :=
  let unit := Nat.pow 10 (-d.exponent).toNat
  let short := Numeral.digitCount d.digits + d.exponent ≤ 16
  if short && d.digits % unit = 0 then
    let n : Int := (d.digits / unit * Nat.pow 10 d.exponent.toNat : Nat)
    .int (if negative then -n else n)
  else
    let x := Numeral.ofDecimal d.digits d.exponent
    .float (if negative then -x else x)

namespace Cell

def savedNumber (x : Float) : Value :=
  match Numeral.parts x with
  | .nan | .infinite _ => .null
  | .finite _ 0 _ => .int 0
  | .finite negative m q => (Numeral.sixteenDigits m q).readBack negative

def savedText : List Char → List Char
  | [] => []
  | '\r' :: '\n' :: cs => '\n' :: savedText cs
  | '\r' :: cs => '\n' :: savedText cs
  | c :: cs => c :: savedText cs

def saved : Value → Except Fault Value
  | .str "" => .ok .null
  | .str s => .ok (.str (.ofList (savedText s.toList)))
  | .float x => .ok (savedNumber x)
  | .nan _ => .ok (savedNumber Numeral.notANumber)
  | .int n => match Numeral.ofInt n with
    | some x => .ok (savedNumber x)
    | none => .error ⟨.overflow, "int too large to convert to float"⟩
  | v => .ok v

def result (v : Value) : Value := if isFormula v then .null else v

end Cell

def Workbook.saved (b : Workbook) : Except Fault Workbook := do
  let sheets ← b.sheets.mapM fun s => do
    let rows ← s.rows.mapM fun r => r.mapM fun c => do
      let v ← Cell.saved c.value
      pure { c with value := v }
    pure { s with rows := rows }
  return ⟨sheets⟩

end Rulebook

namespace Rulebook.Workbook

open Workspace

/-!
### Workbooks of rulebooks

Every table becomes a worksheet with a header row and a row per record. Calculated
cells hold either a formula over the cells of their row or the result of the formula.
-/

inductive Filling where
  | formulas
  | results
deriving DecidableEq

def cellValue (filling : Filling) (columns : List (String × String)) (row : Nat) (field : Record)
    (record : Value) : Except Fault Value := do
  if Csv.hasFormula field then
    match filling with
    | .results => Csv.cellOf Sheet.exportDialect field record
    | .formulas => match field.get "formula" with
      | .str s => return .str (Sheet.toCells columns (toString row) s)
      | _ => throw (.ofType "expected string or bytes-like object")
  else
    match ← Csv.cellOf Sheet.exportDialect field record with
    | .null => return .str ""
    | v => return v

def headerCell (name : Value) : Except Fault (Cell × String) := do
  let held ← Cell.hold name
  match name with
  | .str s => return (⟨held, .header⟩, s)
  | v => throw (.ofType s!"object of type '{v.typeName}' has no len()")

def sheetOf (filling : Filling) (title : String) (table : Record) : Except Fault Worksheet := do
  let schema := table.getD "schema" (.list [])
  if !schema.truthy then return .blank title
  let fields ← Csv.keyable (← schema.iterate)
  let header ← fields.mapM fun f => headerCell f.1
  let names := header.map Prod.snd
  let columns := Sheet.columnMap names
  let data ← (table.getD "data" (.list [])).iterate
  let rows ← (data.zipIdx 2).mapM fun (record, i) => fields.mapM fun f => do
    let v ← cellValue filling columns i f.2 record
    let held ← Cell.hold v
    let derived := (f.2.get "type").equal (.str "calculated")
    return Cell.mk held (if derived then .calculated else .entered)
  return ⟨title, header.map Prod.fst :: rows, names.map fun n => max (n.length + 2) 12, true⟩

def countKind (kind : String) (default : Value) (schema : List Value) : Except Fault Nat := do
  let kinds ← schema.mapM fun f => do return (← f.table "get").getD "type" default
  return (kinds.filter (·.equal (.str kind))).length

def addTable (filling : Filling) (b : Workbook) (name : String) (v : Value) : Run Workbook := do
  let table := v.entries
  if !(v matches .dict _) || !table.has "schema" then
    say s!"  Skipping {name}: not a table structure"
    return b
  say s!"  Creating worksheet: {name}"
  let schema := table.get "schema"
  let fields ← schema.iterate
  let raw ← countKind "raw" (.str "raw") fields
  let derived ← countKind "calculated" .null fields
  let width ← schema.size
  say s!"    - {width} columns ({raw} raw, {derived} calculated)"
  let height ← (table.getD "data" (.list [])).size
  say s!"    - {height} data rows"
  let title ← Worksheet.titleFor b.titles name
  let sheet ← sheetOf filling title table
  return b.add sheet

def build (filling : Filling) (book : Record) (names : List String) : Run Workbook := do
  let b ← names.foldlM (fun b n => addTable filling b n (book.get n)) .fresh
  return b.dropDefault

def load (path : String) : Run Workbook := do
  match ← content path with
  | .book b => return b
  | _ => throw ⟨.archive, "File is not a zip file"⟩

/-- The file is opened first, so what it held is lost also when the workbook cannot be saved. -/
def save (b : Workbook) (path : String) : Run Unit := do
  writeContent path (.text "")
  let kept ← b.saved
  writeContent path (.book kept)

def exportSheet (path sheet target : String) : Run Bool := do
  if !(← isThere path) then
    say s!"  Note: {path} does not exist (first run?)"
    return false
  guarded (do
    let b ← load path
    match b.sheets.find? fun s => Text.lower s.title = Text.lower sheet with
    | none =>
      say s!"  Warning: Sheet '{sheet}' not found in {path}"
      return false
    | some s =>
      writeText target (Csv.document
        (s.rows.map fun r => r.map fun c => Csv.fieldOf (Cell.result c.value)))
      return true) fun f => do
    say s!"  Error exporting sheet: {f.message}"
    return false

def sameText (a b : String) : Run Bool := do
  if !(← isThere a) || !(← isThere b) then return false
  guarded (do
    let x ← readText a
    let y ← readText b
    return x = y) fun f => do
    say s!"  Error comparing files: {f.message}"
    return false

def removeIfThere (path : String) : Run Unit := do
  if ← isThere path then removeFile path

def exportTable (book : Record) (table target : String) : Run Bool := do
  match book.find? fun e => Text.lower e.1 = Text.lower table with
  | none =>
    say s!"  Warning: Table '{table}' not found in rulebook"
    return false
  | some ("", _) =>
    say s!"  Warning: Table '{table}' not found in rulebook"
    return false
  | some (_, v) =>
    let entries := v.entries
    if !(v matches .dict _) || !entries.has "schema" then
      say s!"  Warning: '{table}' is not a valid table structure"
      return false
    guarded (do
      writeText target ""
      let fields ← (entries.get "schema").iterate
      let header ← (fields.mapM fun f => Csv.fieldOf <$> f.member "name" :
        Except Fault (List String))
      appendText target (Csv.row header)
      for record in ← (entries.getD "data" (.list [])).iterate do
        let cells ← (fields.mapM fun f => do
          let field ← f.table "get"
          Csv.fieldOf <$> Csv.cellOf Sheet.previewDialect field record :
          Except Fault (List String))
        appendText target (Csv.row cells)
      return true) fun f => do
      say s!"  Error computing values to CSV: {f.message}"
      return false

/-- The value of what a cell holds; `lookup` finds the columns that a formula reads. -/
def contentValue {m : Type → Type} [Monad m] [MonadExceptOf Fault m]
    (lookup : List Char → m Value) (held : Value) : m Value :=
  match held with
  | .str s =>
    if Text.startsWith s "=" then Sheet.evalFormula Sheet.cellDialect lookup s
    else pure (Sheet.ofCell held)
  | _ => pure (Sheet.ofCell held)

/-- The value of a column in a row of cells; formulas are evaluated, nested at most `depth`
columns deep. Values once found are kept. -/
def evaluated (cells : List (String × Value)) :
    Nat → String → StateT Record (Except Fault) Value
  | 0, _ => throw ⟨.depth, "maximum recursion depth exceeded"⟩
  | depth + 1, letters => do
    match (← get).get? letters with
    | some v => return v
    | none =>
      let v ← contentValue (fun name => evaluated cells depth (.ofList name))
        ((cells.lookup letters).getD .null)
      modify (·.put letters v)
      return v

def headers (s : Worksheet) : List String :=
  (s.rows.head?.getD []).filterMap fun c =>
    match c.value with
    | .str "" => none
    | .str n => some n
    | _ => none

def rowOf (names fields : List String) (cells : List Value) : Except Fault Record := do
  let letters := names.zipIdx 1 |>.map fun (n, i) => (n, Sheet.columnLetters i)
  let held := letters.zip cells |>.map fun (l, v) => (l.2, v)
  let wanted := letters.filter fun (n, _) => fields.contains (Names.snake n)
  let (values, _) ← (wanted.mapM fun (n, l) => do
    let v ← evaluated held (names.length + 1) l
    return (Names.snake n, v) : StateT Record (Except Fault) Record).run []
  return .ofEntries values

def completeAnswers (source answers : String) : Run Unit :=
  Answers.complete answers fun fields key => do
    let b ← load source
    let column := Names.pascal key
    match b.sheets.find? fun s => (headers s).contains column with
    | none =>
      say s!"Error: Could not find worksheet with column '{column}'"
      quit 1
    | some s =>
      say s!"Reading from worksheet: {s.title}"
      let names := headers s
      let matched := names.eraseDups.filter fun n => fields.contains (Names.snake n)
      say s!"Found {names.length} columns, matched {matched.length} to JSON fields"
      let mut lookup : Answers.Lookup := []
      for r in s.rows.drop 1 do
        let cells := (r.take names.length).map Cell.value
        if !cells.all Value.isNull then
          let row ← rowOf names fields cells
          if !(row.get key).isNull then lookup := lookup.put (row.get key) row
      say s!"Loaded {lookup.length} rows from xlsx"
      return lookup

end Rulebook.Workbook
