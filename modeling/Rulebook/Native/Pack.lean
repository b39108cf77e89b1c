/-
Packing records into bytes.

The texts of a record are put into a table; in the packed bytes the number of the entry, counted
from one, stands for the address.
-/

import Rulebook.Schema.Table

namespace Rulebook.Native

open Text

/-!
### The layout of records in memory

A truth value takes one byte, an integer eight, and a text sixteen: its address and length. Integers
and texts start at a multiple of eight. Columns of one spelling share the slot of the last of them.
-/

structure Slot where
  name : String
  type : Datatype
  offset : Nat
  size : Nat
deriving DecidableEq, Repr

def width : Datatype → Nat
  | .boolean => 1
  | .integer => 8
  | .text => 16

def align (n : Nat) : Nat := (n + 7) / 8 * 8

def start (d : Datatype) (n : Nat) : Nat :=
  match d with
  | .boolean => n
  | _ => align n

def typedNames (columns : List Column) : Except Fault (List (String × Datatype)) :=
  columns.mapM fun c => do return (c.name, ← c.declaredType)

def placeSlots (placed : List Slot) (offset : Nat) : List (String × Datatype) → List Slot
  | [] => placed
  | (name, d) :: rest =>
    let at' := start d offset
    placeSlots (putBy Slot.name placed ⟨Names.snake name, d, at', width d⟩) (at' + width d) rest

def slots (columns : List (String × Datatype)) : List Slot := placeSlots [] 0 columns

def findSlot? (layout : List Slot) (name : String) : Option Slot :=
  layout.find? fun s => s.name = name

/-! ### Packing -/

structure Field where
  name : String
  type : Datatype
  offset : Nat
  size : Nat
  key : String
deriving DecidableEq, Repr

structure Shape where
  fields : List Field
  stop : Nat

def Shape.add (s : Shape) (column : String × Datatype) : Shape :=
  let offset := if column.2 = .boolean then s.stop else align s.stop
  let size := match column.2 with
    | .boolean => 1
    | .integer => 8
    | .text => 16
  ⟨putBy Field.name s.fields ⟨Names.snake column.1, column.2, offset, size, Names.key column.1⟩,
    offset + size⟩

def shape (columns : List (String × Datatype)) : Shape :=
  columns.foldl Shape.add ⟨[], 0⟩

def Shape.total (s : Shape) : Nat := align s.stop

def Field.keys (f : Field) : List String := [f.key, f.name, replace f.key "_" ""]

def Field.valueIn (f : Field) (record : Record) : Value :=
  ((f.keys.find? record.has).map record.get).getD .null

def writeAt (bytes : List UInt8) (offset : Nat) (new : List UInt8) : List UInt8 :=
  bytes.take offset ++ new ++ bytes.drop (offset + new.length)

def bytesOf : Nat → Nat → List UInt8
  | 0, _ => []
  | count + 1, n => (n % 256).toUInt8 :: bytesOf count (n / 256)

def wordOf (n : Int) : Except Fault (List UInt8) :=
  if -9223372036854775808 ≤ n && n < 9223372036854775808 then
    .ok (bytesOf 8 (n % 18446744073709551616).toNat)
  else .error ⟨.packing, "argument out of range"⟩

structure Packed where
  bytes : List UInt8
  texts : List (String × String) := []

def Packed.add (record : Record) (p : Packed) (f : Field) : Except Fault Packed := do
  let v := f.valueIn record
  if v.isNull then return p
  match f.type with
  | .boolean =>
    return { p with bytes := writeAt p.bytes f.offset [if v.truthy then 1 else 0] }
  | .integer =>
    return { p with bytes := writeAt p.bytes f.offset (← wordOf (← v.toInteger)) }
  | .text =>
    let text ← Text.encodable v.text
    let texts := p.texts ++ [(f.name, text)]
    return ⟨writeAt p.bytes f.offset (bytesOf 8 texts.length ++ bytesOf 8 text.utf8ByteSize),
      texts⟩

def pack (s : Shape) (record : Record) : Except Fault Packed :=
  s.fields.foldlM (Packed.add record) ⟨List.replicate s.total 0, []⟩

end Rulebook.Native
