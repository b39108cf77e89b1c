/-
Typed trees: formulas whose references are resolved to places in a record.

The formulas of a whole compilation share one table of text literals; each numbers its new labels
from the size of the table on. Labels given out before a formula fails remain.
-/

import Rulebook.Native.Pack

namespace Rulebook.Native

open Formula

inductive Tree where
  | loadBool (offset : Nat) (field : String)
  | loadInt (offset : Nat) (field : String)
  | loadText (offset : Nat) (field : String)
  | bool (b : Bool)
  | int (n : Int)
  | text (value label : String)
  | misfit (type : Datatype) (value : Value)
  | not (operand : Tree)
  | and (operands : List Tree)
  | or (operands : List Tree)
  | compare (op : Relation) (left right : Tree)
  | ite (cond yes no : Tree)
  | concat (parts : List Tree)
deriving Inhabited

def Tree.type : Tree → Datatype
  | loadBool _ _ | bool _ | not _ | and _ | or _ | compare _ _ _ => .boolean
  | loadInt _ _ | int _ => .integer
  | loadText _ _ | text _ _ | concat _ => .text
  | misfit type _ => type
  | ite _ yes _ => yes.type

abbrev Literals := List (String × String)

/-- What the lowering of a formula works on: the literals of the compilation, and the number
of the formula's next label. -/
structure Labelling where
  literals : Literals
  next : Nat
deriving DecidableEq, Repr

def Labelling.start (ls : Literals) : Labelling := ⟨ls, ls.length⟩

def literalLabel (n : Nat) : String := "str_" ++ toString n

def Labelling.intern (s : Labelling) (value : String) : String × Labelling :=
  match s.literals.find? fun l => l.2 = value with
  | some l => (l.1, s)
  | none =>
    let label := literalLabel s.next
    (label, ⟨putBy Prod.fst s.literals (label, value), s.next + 1⟩)

inductive LoweringError where
  | unknownField (name : String)
  | unknownUnary (op : String)
  | unknownRelation (symbol : String)
  | unknownFunction (name : String)
  | choiceArity (count : Nat)
  | negationArity (count : Nat)
  | untexted (typeName : String)
deriving DecidableEq, Repr

def LoweringError.fault : LoweringError → Fault
  | unknownField name =>
    .ofValue ("Unknown field: " ++ name ++ " (normalized: " ++ Names.snake name ++ ")")
  | unknownUnary op => .ofValue ("Unknown unary op: " ++ op)
  | unknownRelation symbol => Value.noKey symbol
  | unknownFunction name => .ofValue ("Unknown function: " ++ name)
  | choiceArity n => .ofValue ("IF requires 2 or 3 arguments, got " ++ toString n)
  | negationArity n => .ofValue ("NOT requires 1 argument, got " ++ toString n)
  | untexted typeName => .noMember typeName "replace"

def LoweringError.stops : LoweringError → Bool
  | untexted _ => true
  | _ => false

abbrev Lowering := ExceptT LoweringError (StateM Labelling)

def lowerText (value : String) : Lowering Tree := do
  let (label, s) := (← get).intern value
  set s
  return .text value label

def lowerField (layout : List Slot) (name : String) : Lowering Tree :=
  match findSlot? layout (Names.snake name) with
  | none => throw (.unknownField name)
  | some s =>
    match s.type with
    | .boolean => return .loadBool s.offset s.name
    | .integer => return .loadInt s.offset s.name
    | .text => return .loadText s.offset s.name

def defaultElse : Datatype → Lowering Tree
  | .text => lowerText ""
  | .boolean => return .bool false
  | .integer => return .int 0

def checkCall (name : String) (count : Nat) : Lowering Unit :=
  if name = "AND" || name = "OR" then return
  else if name = "IF" then
    if count < 2 || 3 < count then throw (.choiceArity count) else return
  else if name = "NOT" then
    if count ≠ 1 then throw (.negationArity count) else return
  else throw (.unknownFunction name)

def lowerCall (name : String) (args : List Tree) : Lowering Tree :=
  if name = "AND" then return .and args
  else if name = "OR" then return .or args
  else
    match args with
    | [a] => return .not a
    | [c, yes] => return .ite c yes (← defaultElse yes.type)
    | [c, yes, no] => return .ite c yes no
    | _ => throw (.unknownFunction name)

mutual

def lower (layout : List Slot) : Expr → Lowering Tree
  | .bool b => return .bool b
  | .int n => return .int n
  | .str s => lowerText s
  | .misfit type v =>
    match type with
    | .text => throw (.untexted v.typeName)
    | type => return .misfit type v
  | .field name => lowerField layout name
  | .unary op e =>
    if op = "NOT" then return .not (← lower layout e) else throw (.unknownUnary op)
  | .binary op l r => do
    let left ← lower layout l
    let right ← lower layout r
    match op with
    | .other symbol => throw (.unknownRelation symbol)
    | op => return .compare op left right
  | .call name args => do
    checkCall name args.length
    lowerCall name (← lowerAll layout args)
  | .concat parts => return .concat (← lowerAll layout parts)

def lowerAll (layout : List Slot) : List Expr → Lowering (List Tree)
  | [] => return []
  | e :: es => do
    let t ← lower layout e
    return t :: (← lowerAll layout es)

end

end Rulebook.Native
