/-
The constraints document: the formulas of all tables as derivation rules.

A formula that cannot be written as a rule leaves a comment that says why.
-/

import Rulebook.Constraint.Eval
import Rulebook.Emit.Dialect
import Rulebook.Schema.Table

namespace Rulebook.Constraint

open Text

/-!
### Files of constraints

A line `context C` opens a class, and a line `derive a: e` gives it a derived attribute. Each
attribute is evaluated after those its text mentions.
-/

abbrev Derivations := List (String × String)

def Derivations.put (ds : Derivations) (name text : String) : Derivations :=
  putBy Prod.fst ds (name, text)

abbrev ClassTable := List (String × Derivations)

def ClassTable.openClass (t : ClassTable) (name : String) : ClassTable :=
  if (t.lookup name).isSome then t else t ++ [(name, [])]

def ClassTable.derive (t : ClassTable) (name attr text : String) : ClassTable :=
  t.map fun c => if c.1 = name then (c.1, Derivations.put c.2 attr text) else c

def readLine (state : ClassTable × Option String) (rawLine : String) :
    ClassTable × Option String :=
  let line := trim rawLine
  if line.isEmpty || startsWith line "--" then state
  else if startsWith line "context " then
    let name := trim (dropFront line 8)
    (state.1.openClass name, some name)
  else if startsWith line "derive " then
    match state.2, cutOnce (trim (dropFront line 7)) ":" with
    | some name, some (attr, text) => (state.1.derive name (trim attr) (trim text), state.2)
    | _, _ => state
  else state

def readClasses (text : String) : ClassTable :=
  ((cut text "\n").foldl readLine ([], none)).1

def mentions (text attr : String) : Bool :=
  contains (lower text) ("self." ++ lower attr)

def dependencies (ds : Derivations) : List (String × List String) :=
  ds.map fun d => (d.1, (ds.map Prod.fst).filter fun a => a ≠ d.1 && mentions d.2 a)

def least : List String → Option String
  | [] => none
  | a :: rest =>
    match least rest with
    | none => some a
    | some b => some (if b < a then b else a)

/-- Takes attributes one by one, each time the least of those whose dependencies have all
been taken. -/
def orderGo (deps : List (String × List String)) : Nat → List String → List String → List String
  | 0, done, _ => done
  | fuel + 1, done, pending =>
    let ready := pending.filter fun a => ((deps.lookup a).getD []).all (· ∈ done)
    match least ready with
    | none => done
    | some a => orderGo deps fuel (done ++ [a]) (pending.filter (· ≠ a))

/-- The order of evaluation; the written order when attributes depend on each other in a
circle. -/
def evaluationOrder (ds : Derivations) : Derivations :=
  let names := ds.map Prod.fst
  let order := orderGo (dependencies ds) names.length [] names
  if order.length ≠ names.length then ds
  else order.map fun a => (a, (ds.lookup a).getD "")

/-- Evaluates the derived attributes of one record in turn. A constraint that fails gives
null and a warning, and its attribute is not seen by later ones. -/
def deriveRecord (ds : Derivations) (env record : Record) : Record × List String :=
  let step := fun (state : Record × Record × List String) (d : String × String) =>
    let (env, record, warnings) := state
    let key := Names.snake d.1
    match evaluate env d.2 with
    | .ok v => (env.put (lower d.1) v, record.put key v, warnings)
    | .error f =>
      (env, record.put key .null,
        warnings ++ [s!"   Warning: Error evaluating {d.1}: " ++ f.message])
  let (_, out, warnings) := ds.foldl step (env, record, [])
  (out, warnings)

/-! ### The constraints of tables -/

def ofColumn (c : Column) : Except Fault String := do
  let e ← c.expression
  (Emit.render Emit.Constraint.dialect e).mapError Emit.Error.fault

def columnLines (c : Column) : Except Fault (List String) := do
  let shown ← c.formulaLine
  match ofColumn c with
  | .ok rule => return ["-- Formula: " ++ shown, s!"derive {c.name}: " ++ rule, ""]
  | .error f =>
    return [s!"-- Formula for {c.name} - parse error: " ++ f.message, "-- Original: " ++ shown, ""]

def tableLines (t : Table) : Except Fault (List String) := do
  let derived := t.columns.filter Column.isDerived
  if derived.isEmpty then return []
  return ["context " ++ t.name, ""] ++ (← derived.mapM columnLines).flatten

def document (tables : List Table) : Except Fault String := do
  let body ← tables.mapM tableLines
  return join "\n" (["-- OCL Constraints for ERB", "-- Generated from effortless-rulebook.json", ""]
    ++ body.flatten)

def className (entity : String) : String := Names.pascal entity

def noRules (name : String) : String :=
  s!"   Warning: No OCL constraints found for class '{name}'"

def completeEach (ordered : Derivations) : List Value → Except Fault (List Record) × List String
  | [] => (.ok [], [])
  | v :: rest =>
    match v.table "items" with
    | .error f => (.error f, [])
    | .ok r =>
      let (done, warnings) := deriveRecord ordered (attributes r) r
      let (others, more) := completeEach ordered rest
      (others.map (done :: ·), warnings ++ more)

/-- Completes the records of an entity by the derivation rules of its class; gives them and
the warnings. -/
def completeRecords (classes : ClassTable) (entity : String) (records : List Value) :
    Except Fault (List Record) × List String :=
  let name := className entity
  let rules := (classes.lookup name).getD []
  let (done, warnings) := completeEach (evaluationOrder rules) records
  (done, (if rules.isEmpty then [noRules name] else []) ++ warnings)

end Rulebook.Constraint
