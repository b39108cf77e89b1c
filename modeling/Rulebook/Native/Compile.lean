/-
Compilation of the calculated columns of a rulebook.

The formulas of one compilation share the text literals, the number of labels and the buffers.
-/

import Rulebook.Native.Select

namespace Rulebook.Native

open Formula

structure Session where
  literals : Literals := []
  issued : Issued := {}

def Session.lower (s : Session) (layout : List Slot) (e : Expr) :
    Except LoweringError Tree × Session :=
  let (result, labelling) := (Native.lower layout e).run (.start s.literals)
  (result, { s with literals := labelling.literals })

def Session.emit (s : Session) (name : String) (t : Tree) :
    Except SelectError (List Line) × Session :=
  let (result, issued) := (function name t).run s.issued
  (result, { s with issued })

def Session.data (s : Session) : List Line := dataSection s.literals s.issued.buffers

inductive Returns where
  | truth
  | integer
  | text
deriving DecidableEq, Repr

def Returns.name : Returns → String
  | truth => "bool"
  | integer => "int"
  | text => "string"

def Returns.ofType : Datatype → Returns
  | .boolean => truth
  | .integer => integer
  | .text => text

structure Entry where
  field : String
  name : String
  returns : Returns
deriving DecidableEq, Repr

def entriesOf (book : Record) (entity : String) : Except Fault (List Entry) := do
  let schema ← Schema.schemaOf .loose book entity
  let columns ← (← schema.iterate).mapM Column.lenient
  let named ← (computedOf columns).mapM fun c => do
    let name ← c.requiredName
    let field := Names.snake name
    return { field, name := functionName (Names.snake entity ++ "_" ++ field)
             returns := .ofType (← c.declaredType) : Entry }
  return named.foldl (putBy Entry.field) []

/-! ### Typed trees and layouts as data -/

def typeLabel : Datatype → Value
  | .boolean => .str "BOOL"
  | .integer => .str "INT"
  | .text => .str "STRING"

def nodeValue (name : String) (type : Datatype) (parts : Record) : Value :=
  .dict ([("node", .str name), ("result_type", typeLabel type)] ++ parts)

mutual

def Tree.toValue : Tree → Value
  | .loadBool o f => nodeValue "IRLoadBool" .boolean [("offset", .int o), ("field_name", .str f)]
  | .loadInt o f => nodeValue "IRLoadInt" .integer [("offset", .int o), ("field_name", .str f)]
  | .loadText o f => nodeValue "IRLoadString" .text [("ptr_offset", .int o),
      ("len_offset", .int (o + 8 : Nat)), ("field_name", .str f)]
  | .bool b => nodeValue "IRLiteralBool" .boolean [("value", .bool b)]
  | .int n => nodeValue "IRLiteralInt" .integer [("value", .int n)]
  | .text v l => nodeValue "IRLiteralString" .text [("value", .str v), ("label", .str l)]
  | .misfit type v => nodeValue (if type = .boolean then "IRLiteralBool" else "IRLiteralInt")
      type [("value", v)]
  | .not e => nodeValue "IRNot" .boolean [("operand", e.toValue)]
  | .and es => nodeValue "IRAnd" .boolean [("operands", .list (Tree.toValues es))]
  | .or es => nodeValue "IROr" .boolean [("operands", .list (Tree.toValues es))]
  | .compare op l r => nodeValue "IRCompare" .boolean [
      ("op", .str (((condOf op).map Cond.name).getD "")), ("left", l.toValue),
      ("right", r.toValue)]
  | .ite c y n => nodeValue "IRIf" (Tree.ite c y n).type [("condition", c.toValue),
      ("then_branch", y.toValue), ("else_branch", n.toValue)]
  | .concat ps => nodeValue "IRConcat" .text [("parts", .list (Tree.toValues ps))]

def Tree.toValues : List Tree → List Value
  | [] => []
  | t :: ts => t.toValue :: Tree.toValues ts

end

def placeValue (name : String) (type : Datatype) (offset size : Nat) : Record :=
  [("node", .str "FieldInfo"), ("name", .str name), ("datatype", typeLabel type),
    ("offset", .int offset), ("size", .int size)]

def Slot.toValue (s : Slot) : Value := .dict (placeValue s.name s.type s.offset s.size)

def Field.toValue (f : Field) : Value :=
  .dict (placeValue f.name f.type f.offset f.size ++ [("json_name", .str f.key)])

end Rulebook.Native
