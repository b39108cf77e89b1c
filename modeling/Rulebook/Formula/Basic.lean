/-
Formulas: the expressions of calculated columns.

Operators and functions that no notation knows can be expressed, and so can literals whose value
is not of their datatype; what becomes of them is for each notation to say.
-/

import Rulebook.Text.Case
import Rulebook.Value

namespace Rulebook

/-!
### Datatypes of columns

Every declared type but boolean and integer counts as text.
-/

inductive Datatype where
  | boolean
  | integer
  | text
deriving DecidableEq, Repr

namespace Datatype

def ofName (name : String) : Datatype :=
  let n := Text.lower name
  if n = "boolean" then boolean else if n = "integer" then integer else text

def structType (nullable : Bool) (d : Datatype) : String :=
  (if nullable then "*" else "") ++
    match d with
    | boolean => "bool"
    | integer => "int"
    | text => "string"

def schemaType : Datatype → String
  | boolean => "xsd:boolean"
  | integer => "xsd:integer"
  | text => "xsd:string"

def classType : Datatype → String
  | boolean => "Boolean"
  | integer => "Integer"
  | text => "String"

end Datatype

end Rulebook

namespace Rulebook.Formula

inductive Relation where
  | eq
  | ne
  | lt
  | le
  | gt
  | ge
  | other (symbol : String)
deriving DecidableEq, Repr

def Relation.symbol : Relation → String
  | eq => "="
  | ne => "<>"
  | lt => "<"
  | le => "<="
  | gt => ">"
  | ge => ">="
  | other s => s

def Relation.ofSymbol (s : String) : Relation :=
  if s = "=" then eq
  else if s = "<>" then ne
  else if s = "<" then lt
  else if s = "<=" then le
  else if s = ">" then gt
  else if s = ">=" then ge
  else other s

inductive Expr where
  | bool (b : Bool)
  | int (n : Int)
  | str (s : String)
  | misfit (type : Datatype) (value : Value)
  | field (name : String)
  | binary (op : Relation) (left right : Expr)
  | unary (op : String) (operand : Expr)
  | call (name : String) (args : List Expr)
  | concat (parts : List Expr)
deriving Inhabited

namespace Expr

def isField : Expr → Bool
  | field _ => true
  | _ => false

mutual

def addFields (seen : List String) : Expr → List String
  | bool _ | int _ | str _ | misfit _ _ => seen
  | field name => if name ∈ seen then seen else seen ++ [name]
  | binary _ l r => addFields (addFields seen l) r
  | unary _ e => addFields seen e
  | call _ args => addFieldsAll seen args
  | concat parts => addFieldsAll seen parts

def addFieldsAll (seen : List String) : List Expr → List String
  | [] => seen
  | e :: es => addFieldsAll (addFields seen e) es

end

/-- The fields an expression refers to, each once, in the order of first occurrence. -/
def fields (e : Expr) : List String := addFields [] e

end Expr

end Rulebook.Formula
