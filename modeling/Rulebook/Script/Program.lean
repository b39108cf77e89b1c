/-
The generated Python module as a program.

A name that is defined twice keeps its last definition. A column whose formula has no expression is
given a function without parameters that fails.
-/

import Rulebook.Emit.Dialect
import Rulebook.Schema.Schedule

namespace Rulebook.Script

open Formula Text

/-!
### Evaluation of formulas in the generated Python module

Conjunction and disjunction stop at the first operand that decides and give that operand, and values
of different types are unequal but have no order.
-/

/-- The value of an expression: a value, or the empty sequence, which is what a conjunction
or disjunction without operands stands for. -/
inductive Datum where
  | value (v : Value)
  | unit

namespace Datum

def truthy : Datum → Bool
  | value v => v.truthy
  | unit => false

def isTrue : Datum → Bool
  | value v => v.isTrue
  | unit => false

def textOrEmpty : Datum → String
  | value .null => ""
  | value v => v.text
  | unit => "()"

def toValue : Datum → Value
  | value v => v
  | unit => .list []

def typeName : Datum → String
  | value v => v.typeName
  | unit => "tuple"

def equal : Datum → Datum → Bool
  | value a, value b => a.equal b
  | unit, unit => true
  | _, _ => false

def order (op : OrderOp) : Datum → Datum → Except Fault Bool
  | value a, value b => a.order op b
  | unit, unit => .ok (op.admits .eq)
  | a, b => .error (.ofType ("'" ++ op.symbol ++ "' not supported between instances of '"
      ++ a.typeName ++ "' and '" ++ b.typeName ++ "'"))

end Datum

def compare (op : Relation) (a b : Datum) : Except Fault Datum :=
  match op with
  | .eq => .ok (.value (.bool (a.equal b)))
  | .ne => .ok (.value (.bool (!a.equal b)))
  | .lt => (a.order .lt b).map fun r => .value (.bool r)
  | .le => (a.order .le b).map fun r => .value (.bool r)
  | .gt => (a.order .gt b).map fun r => .value (.bool r)
  | .ge => (a.order .ge b).map fun r => .value (.bool r)
  | .other symbol => .error (Value.noKey symbol)

/-- The lower-case form of a text; what counts as false is taken for the empty text. -/
def lowered (d : Datum) : Except Fault Datum := do
  if !d.truthy then return .value (.str "")
  match d with
  | .value v => return .value (.str (lower (← v.asText "lower")))
  | .unit => return .value (.str "")

def found (needle haystack : Datum) : Except Fault Datum := do
  let hay := if haystack.truthy then haystack.toValue else .str ""
  match needle, hay with
  | .value (.str s), hay => return .value (.bool (← hay.holds s))
  | .value w, .list items => return .value (.bool (items.any w.alike))
  | .unit, .list _ => return .value (.bool false)
  | .value (.list _), .dict _ => throw (.ofType "unhashable type: 'list'")
  | .value (.dict _), .dict _ => throw (.ofType "unhashable type: 'dict'")
  | _, .dict _ => return .value (.bool false)
  | d, .str _ =>
    throw (.ofType ("'in <string>' requires string as left operand, not " ++ d.typeName))
  | _, v => throw (.ofType ("argument of type '" ++ v.typeName ++ "' is not iterable"))

/-- An operand of a conjunction or disjunction: what is not boolean by its construct counts
as true only when it is the boolean true. -/
def condition (e : Expr) (d : Datum) : Datum :=
  if Emit.Script.isBoolean e then d else .value (.bool d.isTrue)

structure Scope where
  value : String → Value
  hidesText : Bool := false

def Scope.text (s : Scope) (d : Datum) : Except Fault String :=
  if s.hidesText then .error (.ofType "object is not callable") else .ok d.textOrEmpty

def Scope.partText (s : Scope) (e : Expr) (d : Datum) : Except Fault String :=
  match e with
  | .str _ | .misfit .text _ => .ok d.textOrEmpty
  | e => s.text (if e.isField && !d.truthy then .value .null else d)

mutual

def eval (s : Scope) : Expr → Except Fault Datum
  | .bool b => .ok (.value (.bool b))
  | .int n => .ok (.value (.int n))
  | .str t => .ok (.value (.str t))
  | .misfit .boolean v => .ok (.value (.bool v.truthy))
  | .misfit _ v => .ok (.value v)
  | .field name => .ok (.value (s.value name))
  | .unary _ e => do
    let d ← eval s e
    return .value (.bool (if e.isField then !d.isTrue else !d.truthy))
  | .binary op l r => do
    let a ← eval s l
    let b ← eval s r
    compare op a b
  | .call "AND" args => evalAll s args
  | .call "OR" args => evalAny s args
  | .call "IF" (c :: y :: rest) => do
    if (← eval s c).truthy then eval s y else evalElse s rest
  | .call "NOT" (e :: _) => do return .value (.bool (!(← eval s e).isTrue))
  | .call "LOWER" (e :: _) => do lowered (← eval s e)
  | .call "FIND" (n :: h :: _) => do
    let needle ← eval s n
    let haystack ← eval s h
    found needle haystack
  | .call "CAST" (e :: _) => do
    let d ← eval s e
    if d.truthy then return .value (.str (← s.text d)) else return .value (.str "")
  | .call name _ => .error (.ofValue ("Unknown function: " ++ name))
  | .concat parts => do return .value (.str (← evalParts s parts))

def evalAll (s : Scope) : List Expr → Except Fault Datum
  | [] => .ok .unit
  | [e] => do return condition e (← eval s e)
  | e :: es => do
    let d := condition e (← eval s e)
    if d.truthy then evalAll s es else return d

def evalAny (s : Scope) : List Expr → Except Fault Datum
  | [] => .ok .unit
  | [e] => do return condition e (← eval s e)
  | e :: es => do
    let d := condition e (← eval s e)
    if d.truthy then return d else evalAny s es

def evalElse (s : Scope) : List Expr → Except Fault Datum
  | [] => .ok (.value .null)
  | e :: _ => eval s e

def evalParts (s : Scope) : List Expr → Except Fault String
  | [] => .ok ""
  | e :: es => do
    let text ← s.partText e (← eval s e)
    let rest ← evalParts s es
    return text ++ rest

end

/-- A function for a calculated column: its parameters and what it evaluates, unless its
formula has no expression. -/
structure Routine where
  params : List String
  body : Option Expr

/-- What the function of a column is to be: the formula with its fields, or the reason why it
has no expression. -/
def readFormula (c : Column) : Except Fault (Expr × String) := do
  let e ← c.expression
  let text ← (Emit.render Emit.Script.dialect e).mapError Emit.Error.fault
  return (e, text)

def Routine.ofColumn (c : Column) : Routine :=
  match readFormula c with
  | .ok (e, _) => ⟨e.fields.map Names.snake, some e⟩
  | .error _ => ⟨[], none⟩

def Routine.call (r : Routine) (args : List Value) : Except Fault Value := do
  if r.params.length ≠ args.length then
    throw (.ofType ("takes " ++ toString r.params.length ++ " positional arguments but "
      ++ toString args.length ++ " were given"))
  match r.body with
  | none => throw ⟨.unsupported, "Formula parsing failed"⟩
  | some e =>
    let values := r.params.zip args
    let scope : Scope :=
      { value := fun field => (values.lookup (Names.snake field)).getD .null
        hidesText := "str" ∈ r.params }
    let d ← eval scope e
    return d.toValue

def routineName (entity field : String) : String :=
  "calc_" ++ Names.snake entity ++ "_" ++ Names.snake field

/-- A step of computing the columns of an entity: the function called, the fields it is
called with, and the field that takes the result. -/
structure Step where
  target : String
  routine : String
  args : List String

def Step.ofColumn (entity : String) (c : Column) : Step :=
  let args := match c.expression with
    | .ok e => e.fields.map Names.snake
    | .error _ => []
  ⟨c.key, routineName entity c.name, args⟩

structure Computation where
  steps : List Step
  textFields : List String

structure Section where
  entity : String
  computed : List Column
  levels : List (List Column)
  warnings : List String

def Section.textFields (s : Section) : List String :=
  (s.computed.filter fun c => c.datatype = some "string").map Column.key

def Section.ofColumns (entity : String) (columns : List Column) : Section :=
  let computed := computedOf columns
  let jobs := computed.map Schedule.Job.ofColumn
  let levels := Schedule.levelsBy Names.snake jobs ((rawOf columns).map Column.name)
  ⟨entity, computed, Schedule.columnsOf computed levels, Schedule.warnings jobs levels⟩

def sectionsOf (book : Record) : Except Fault (List Section) := do
  let all ← (Schema.entities book).mapM fun entity => do
    let schema ← Schema.schemaOf .loose book entity
    let columns ← (← schema.iterate).mapM Column.lenient
    if (computedOf columns).isEmpty then return none
    discard ((rawOf columns ++ computedOf columns).mapM Column.declaredKey)
    return some (Section.ofColumns entity columns)
  return all.reduceOption

structure Program where
  routines : List (String × Routine)
  computations : List (String × Computation)

def lastDefinition? {α : Type} (table : List (String × α)) (name : String) : Option α :=
  (table.reverse.find? fun e => e.1 = name).map Prod.snd

def Section.computation (s : Section) : Computation :=
  ⟨s.levels.flatten.map (Step.ofColumn s.entity), s.textFields⟩

def Program.ofSections (sections : List Section) : Program where
  routines := sections.flatMap fun s =>
    s.levels.flatten.map fun c => (routineName s.entity c.name, Routine.ofColumn c)
  computations := sections.map fun s => (Names.snake s.entity, s.computation)

def Program.step (p : Program) (record : Record) (s : Step) : Except Fault Record := do
  match lastDefinition? p.routines s.routine with
  | none => throw ⟨.name, "name '" ++ s.routine ++ "' is not defined"⟩
  | some r => return record.put s.target (← r.call (s.args.map record.get))

def clearEmpty (record : Record) (key : String) : Record :=
  if (record.get key).equal (.str "") then record.put key .null else record

def Program.compute (p : Program) (c : Computation) (record : Record) : Except Fault Record := do
  let filled ← c.steps.foldlM p.step record
  return c.textFields.foldl clearEmpty filled

/-- Computes the calculated columns of a record of an entity; the record of another entity
stays as it is. -/
def Program.run (p : Program) (entity : Option String) (record : Record) :
    Except Fault Record :=
  match entity with
  | none => .ok record
  | some name =>
    match lastDefinition? p.computations (replace (lower name) "-" "_") with
    | none => .ok record
    | some c => p.compute c record

end Rulebook.Script
