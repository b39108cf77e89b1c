/-
Filling in answers.

A field of an answer without a value takes the value of the row with the answer's key.
-/

import Rulebook.Csv.Export

namespace Rulebook.Answers

open Workspace

abbrev Lookup := List (Value × Record)

def Lookup.find? (rows : Lookup) (key : Value) : Option Record :=
  (List.find? (fun (e : Value × Record) => e.1.equal key) rows).map Prod.snd

def Lookup.put : Lookup → Value → Record → Lookup
  | [], key, row => [(key, row)]
  | (k, r) :: rest, key, row =>
    if k.equal key then (k, row) :: rest else (k, r) :: Lookup.put rest key row

def Lookup.ofRows (rows : List (Value × Record)) : Lookup :=
  rows.foldl (fun lookup e => lookup.put e.1 e.2) []

def fillable (row answer : Record) (field : String) : Bool :=
  (answer.get field).isNull && !(row.get field).isNull

def fillRecord (row : Record) : List String → Record → Record × Nat
  | [], answer => (answer, 0)
  | field :: rest, answer =>
    if fillable row answer field then
      let (filled, n) := fillRecord row rest (answer.put field (row.get field))
      (filled, n + 1)
    else fillRecord row rest answer

def firstOf : Value → Except Fault Value
  | .list (v :: _) => .ok v
  | .list [] => .error ⟨.index, "list index out of range"⟩
  | .dict _ => .error ⟨.key, "0"⟩
  | .str s => match s.toList with
    | c :: _ => .ok (.str c.toString)
    | [] => .error ⟨.index, "string index out of range"⟩
  | v => .error (.ofType s!"'{v.typeName}' object is not subscriptable")

def keyField (fields : List String) : Except Fault String :=
  match fields.find? (Text.endsWith · "_id"), fields with
  | some f, _ => .ok f
  | none, f :: _ => .ok f
  | none, [] => .error ⟨.index, "list index out of range"⟩

def fillAnswer (key : String) (fields : List String) (rows : Lookup) (answer : Record) :
    Except Fault (Record × Nat) := do
  if (answer.get key).isNull then return (answer, 0)
  match rows.find? (← (answer.get key).hashable) with
  | some row => return fillRecord row fields answer
  | none => return (answer, 0)

def fillAll (key : String) (fields : List String) (rows : Lookup) :
    List Value → Except Fault (List Value × Nat × Nat)
  | [] => .ok ([], 0, 0)
  | answer :: rest => do
    let (filled, n) ← fillAnswer key fields rows (← answer.table "get")
    let (others, fieldCount, recordCount) ← fillAll key fields rows rest
    return (.dict filled :: others, n + fieldCount, (if 0 < n then 1 else 0) + recordCount)

def complete (path : String) (rowsFor : List String → String → Run Lookup) : Run Unit := do
  let answers ← readJson path
  if !answers.truthy then
    say "Error: test-answers.json is empty"
    quit 1
  let first ← firstOf answers
  let fields := (← first.table "keys").keys
  say s!"Found {fields.length} fields in test answers"
  let key ← keyField fields
  say s!"Primary key field: {key}"
  let rows ← rowsFor fields key
  let all ← answers.iterate
  let (filled, fieldCount, recordCount) ← fillAll key fields rows all
  say s!"Filled {fieldCount} null fields across {recordCount} records"
  writeJson path (.list filled)
  say s!"Updated {path}"

end Rulebook.Answers

namespace Rulebook.Csv

open Workspace

/-! ### Answers from CSV files -/

def completeAnswers (source answers : String) : Run Unit :=
  Answers.complete answers fun _ key => do
    let text ← readText source
    let rows ← lookupOf Sheet.ofField text key
    let lookup := Answers.Lookup.ofRows rows
    say s!"Loaded {lookup.length} rows from CSV"
    return lookup

def entityKey (entity : String) : String :=
  .ofList (Text.dropEnd (· == 's') entity.toList) ++ "_id"

def headerHas (path name : String) : Run Bool :=
  guarded (do
    let text ← readText path
    return ((rows text).head?.getD []).contains name) fun _ => return false

def firstWithKey (folder entity : String) : List String → Run (Option String)
  | [] => return none
  | name :: rest => do
    let path := Path.join folder name
    let found ← if Text.startsWith name "_" then pure false else headerHas path (entityKey entity)
    if found then return some path else firstWithKey folder entity rest

def fileFor (base entity : String) : Run (Option String) := do
  let folder := Path.join base "test-data"
  let exact := Path.join folder (entity ++ ".csv")
  if ← isThere exact then return some exact
  let dashed := Path.join folder (Text.replace entity "_" "-" ++ ".csv")
  if ← isThere dashed then return some dashed
  firstWithKey folder entity (← namesEnding folder ".csv")

end Rulebook.Csv
