/-
Values: the data that rulebooks, records and answers are made of.

A value is JSON-like; integers are unbounded and kept apart from floating-point
numbers, and the entries of a table stay in the order in which their keys were
first put. `Record` operations keep that order. A NaN that was read has a mark, which
says where it came from and stays with it; a NaN that was computed has none.
-/

namespace Rulebook

inductive Value where
  | null
  | bool (b : Bool)
  | int (n : Int)
  | float (x : Float)
  | nan (mark : Nat)
  | str (s : String)
  | list (items : List Value)
  | dict (entries : List (String × Value))
deriving Inhabited

def putBy {α : Type} (key : α → String) : List α → α → List α
  | [], a => [a]
  | b :: rest, a => if key b = key a then a :: rest else b :: putBy key rest a

abbrev Record := List (String × Value)

namespace Record

def get? (r : Record) (key : String) : Option Value := r.lookup key

def getD (r : Record) (key : String) (default : Value) : Value := (r.get? key).getD default

def get (r : Record) (key : String) : Value := r.getD key .null

def has (r : Record) (key : String) : Bool := (r.get? key).isSome

def keys (r : Record) : List String := r.map Prod.fst

def put (r : Record) (key : String) (v : Value) : Record := putBy Prod.fst r (key, v)

/-- Builds a record from entries in which a later one wins and the first keeps its place. -/
def ofEntries (entries : List (String × Value)) : Record :=
  entries.foldl (fun r e => r.put e.1 e.2) []

end Record

namespace Value

def typeName : Value → String
  | null => "NoneType"
  | bool _ => "bool"
  | int _ => "int"
  | float _ | nan _ => "float"
  | str _ => "str"
  | list _ => "list"
  | dict _ => "dict"

/-- Whether a value counts as true in a condition: null, false, zero and everything
empty do not. -/
def truthy : Value → Bool
  | null => false
  | bool b => b
  | int n => n ≠ 0
  | float x => !(x == 0.0)
  | nan _ => true
  | str s => s ≠ ""
  | list items => !items.isEmpty
  | dict entries => !entries.isEmpty

def isNull : Value → Bool
  | null => true
  | _ => false

def isTrue : Value → Bool
  | bool b => b
  | _ => false

def entries : Value → Record
  | dict e => e
  | _ => []

def items : Value → List Value
  | list xs => xs
  | _ => []

end Value

end Rulebook
