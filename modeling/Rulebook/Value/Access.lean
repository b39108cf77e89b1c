/-
Access to the parts of values.

The parts of a value that comes from outside may not be what a caller expects; each
access here says by a fault what is wrong.
-/

import Rulebook.Numeral
import Rulebook.Value

namespace Rulebook.Value

/-!
### The text of values

`display` is the form that values have inside lists, tables and messages, where
texts stand in quotes; `text` differs from it only on texts, which stand for
themselves.
-/

mutual

def display : Value → String
  | null => "None"
  | bool b => if b then "True" else "False"
  | int n => toString n
  | float x => Numeral.floatText x
  | nan _ => Numeral.floatText Numeral.notANumber
  | str s => Text.quoted s
  | list items => "[" ++ ", ".intercalate (displayItems items) ++ "]"
  | dict entries => "\x7b" ++ ", ".intercalate (displayEntries entries) ++ "\x7d"

def displayItems : List Value → List String
  | [] => []
  | v :: vs => display v :: displayItems vs

def displayEntries : List (String × Value) → List String
  | [] => []
  | (k, v) :: es => (Text.quoted k ++ ": " ++ display v) :: displayEntries es

end

def text : Value → String
  | str s => s
  | v => v.display

mutual

def hasTooLong : Value → Bool
  | int n => Numeral.isTooLong n
  | list items => anyTooLong items
  | dict entries => anyEntryTooLong entries
  | _ => false

def anyTooLong : List Value → Bool
  | [] => false
  | v :: vs => hasTooLong v || anyTooLong vs

def anyEntryTooLong : List (String × Value) → Bool
  | [] => false
  | (_, v) :: es => hasTooLong v || anyEntryTooLong es

end

/-- The text of a value that may have grown by arithmetic: an integer of too many digits has
none. -/
def text? (v : Value) : Except Fault String :=
  if v.hasTooLong then .error (.ofValue Numeral.noNumeral) else .ok v.text

end Rulebook.Value

namespace Rulebook

/-!
### Equality and order of values

Booleans count as the integers zero and one, and an integer is compared with a
floating-point number exactly. Two tables are equal when they have the same keys
with equal values, in whatever order. Only numbers, texts and lists have an order;
a NaN is unequal to everything and stands in no order. The parts of lists and tables are
compared with one exception: there a NaN equals itself, so that a list equals itself
whatever it holds.
-/

inductive Number where
  | int (n : Int)
  | float (x : Float)

def Number.compare? : Number → Number → Option Ordering
  | .int m, .int n => some (compare m n)
  | .int m, .float y =>
    match Numeral.parts y with
    | .nan => none
    | .infinite negative => some (if negative then .gt else .lt)
    | .finite negative n q => some (Numeral.compareInt m negative n q)
  | .float x, .int n =>
    match Numeral.parts x with
    | .nan => none
    | .infinite negative => some (if negative then .lt else .gt)
    | .finite negative m q => some (Numeral.compareInt n negative m q).swap
  | .float x, .float y =>
    if x < y then some .lt else if x == y then some .eq else if y < x then some .gt else none

inductive OrderOp where
  | lt
  | le
  | gt
  | ge
deriving DecidableEq

def OrderOp.symbol : OrderOp → String
  | lt => "<"
  | le => "<="
  | gt => ">"
  | ge => ">="

def OrderOp.admits : OrderOp → Ordering → Bool
  | lt, o => o == .lt
  | le, o => o != .gt
  | gt, o => o == .gt
  | ge, o => o != .lt

namespace Value

def number? : Value → Option Number
  | bool b => some (.int (if b then 1 else 0))
  | int n => some (.int n)
  | float x => some (.float x)
  | nan _ => some (.float Numeral.notANumber)
  | _ => none

def equalAtom : Value → Value → Bool
  | null, null => true
  | str s, str t => s == t
  | a, b =>
    match a.number?, b.number? with
    | some x, some y => x.compare? y == some .eq
    | _, _ => false

def sameNan : Value → Value → Bool
  | nan m, nan n => m == n
  | _, _ => false

mutual

def equal : Value → Value → Bool
  | list xs, list ys => equalItems xs ys
  | dict es, dict fs => es.length == fs.length && equalEntries es fs
  | a, b => equalAtom a b

def equalItems : List Value → List Value → Bool
  | [], [] => true
  | x :: xs, y :: ys => (sameNan x y || equal x y) && equalItems xs ys
  | _, _ => false

def equalEntries : List (String × Value) → List (String × Value) → Bool
  | [], _ => true
  | (k, v) :: es, fs =>
    (match fs.lookup k with
      | some w => sameNan v w || equal v w
      | none => false) && equalEntries es fs

end

def alike (a b : Value) : Bool := sameNan a b || equal a b

def noOrder (op : OrderOp) (a b : Value) : Fault :=
  .ofType ("'" ++ op.symbol ++ "' not supported between instances of '" ++ a.typeName ++
    "' and '" ++ b.typeName ++ "'")

def orderAtom (op : OrderOp) (a b : Value) : Except Fault Bool :=
  match a, b with
  | str s, str t => .ok (op.admits (compare s t))
  | a, b =>
    match a.number?, b.number? with
    | some x, some y =>
      match x.compare? y with
      | some o => .ok (op.admits o)
      | none => .ok false
    | _, _ => .error (noOrder op a b)

mutual

def order (op : OrderOp) : Value → Value → Except Fault Bool
  | list xs, list ys => orderItems op xs ys
  | a, b => orderAtom op a b

def orderItems (op : OrderOp) : List Value → List Value → Except Fault Bool
  | [], [] => .ok (op.admits .eq)
  | [], _ :: _ => .ok (op.admits .lt)
  | _ :: _, [] => .ok (op.admits .gt)
  | x :: xs, y :: ys => if alike x y then orderItems op xs ys else order op x y

end

end Value

/-!
### Arithmetic on values

Booleans count as zero and one. An operation with a floating-point operand is done in
floating point, all others on integers without bound, except division, which rounds the
exact quotient. Texts and lists can be repeated, lists joined.
-/

inductive ArithOp where
  | add
  | sub
  | mul
  | div
deriving DecidableEq

namespace ArithOp

def symbol : ArithOp → String
  | add => "+"
  | sub => "-"
  | mul => "*"
  | div => "/"

def onFloats : ArithOp → Float → Float → Float
  | add, x, y => x + y
  | sub, x, y => x - y
  | mul, x, y => x * y
  | div, x, y => x / y

end ArithOp

namespace Value

def noOperation (op : ArithOp) (a b : Value) : Fault :=
  .ofType ("unsupported operand type(s) for " ++ op.symbol ++ ": '" ++ a.typeName ++
    "' and '" ++ b.typeName ++ "'")

def toFloat : Number → Except Fault Float
  | .float x => .ok x
  | .int n =>
    match Numeral.ofInt n with
    | some x => .ok x
    | none => .error ⟨.overflow, "int too large to convert to float"⟩

def divideInts (m n : Int) : Except Fault Value :=
  if n = 0 then .error ⟨.zeroDivision, "division by zero"⟩
  else
    match Numeral.ofRatio m.natAbs n.natAbs with
    | none => .error ⟨.overflow, "integer division result too large for a float"⟩
    | some x => .ok (.float (if (m < 0) != (n < 0) then -x else x))

def arithNumbers (op : ArithOp) (a b : Number) : Except Fault Value :=
  match a, b with
  | .int m, .int n =>
    match op with
    | .add => .ok (.int (m + n))
    | .sub => .ok (.int (m - n))
    | .mul => .ok (.int (m * n))
    | .div => divideInts m n
  | a, b => do
    let x ← toFloat a
    let y ← toFloat b
    if op = .div && y == 0.0 then .error ⟨.zeroDivision, "float division by zero"⟩
    else .ok (.float (op.onFloats x y))

def maxRepeated : Nat := Nat.pow 2 36

def repetitions (size : Nat) (count : Int) : Except Fault Nat :=
  if count ≥ (Nat.pow 2 63 : Nat) || count < -(Nat.pow 2 63 : Nat) then
    .error ⟨.overflow, "cannot fit 'int' into an index-sized integer"⟩
  else if count ≤ 0 || size = 0 then .ok 0
  else if maxRepeated < size * count.toNat then .error ⟨.memory, ""⟩
  else .ok count.toNat

def repeated (v : Value) (count : Int) : Except Fault Value :=
  match v with
  | str s => (repetitions s.length count).map fun n => .str (String.join (List.replicate n s))
  | list xs => (repetitions xs.length count).map fun n => .list (List.replicate n xs).flatten
  | _ => .error (noOperation .mul v (.int count))

def isSequence : Value → Bool
  | str _ | list _ => true
  | _ => false

def multiplySequence (a b : Value) : Except Fault Value :=
  let refuse := fun w : Value =>
    Except.error (Fault.ofType
      ("can't multiply sequence by non-int of type '" ++ w.typeName ++ "'"))
  if a.isSequence then
    match b.number? with
    | some (.int n) => repeated a n
    | _ => refuse b
  else if b.isSequence then
    match a.number? with
    | some (.int n) => repeated b n
    | _ => refuse a
  else .error (noOperation .mul a b)

def arith (op : ArithOp) (a b : Value) : Except Fault Value :=
  match a.number?, b.number? with
  | some x, some y => arithNumbers op x y
  | _, _ =>
    match op, a, b with
    | .mul, _, _ => multiplySequence a b
    | .add, list xs, list ys => .ok (.list (xs ++ ys))
    | .add, list _, _ =>
      .error (.ofType ("can only concatenate list (not \"" ++ b.typeName ++ "\") to list"))
    | .add, str s, str t => .ok (.str (s ++ t))
    | .add, str _, _ =>
      .error (.ofType ("can only concatenate str (not \"" ++ b.typeName ++ "\") to str"))
    | _, _, _ => .error (noOperation op a b)

end Value

end Rulebook

namespace Rulebook.Value

def noKey (key : String) : Fault := ⟨.key, Text.quoted key⟩

def table (method : String) : Value → Except Fault Record
  | dict entries => .ok entries
  | v => .error (.noMember v.typeName method)

/-- What a loop over a value visits: items of a list, keys of a table, characters of a text. -/
def iterate : Value → Except Fault (List Value)
  | list items => .ok items
  | dict entries => .ok (entries.map fun e => .str e.1)
  | str s => .ok (s.toList.map fun c => .str c.toString)
  | v => .error (.ofType ("'" ++ v.typeName ++ "' object is not iterable"))

def member (v : Value) (key : String) : Except Fault Value :=
  match v with
  | dict entries =>
    match Record.get? entries key with
    | some w => .ok w
    | none => .error (noKey key)
  | list _ => .error (.ofType "list indices must be integers or slices, not str")
  | str _ => .error (.ofType "string indices must be integers, not 'str'")
  | _ => .error (.ofType ("'" ++ v.typeName ++ "' object is not subscriptable"))

def getOr (v : Value) (key : String) (default : Value) : Except Fault Value :=
  (v.table "get").map fun r => r.getD key default

def holds (v : Value) (key : String) : Except Fault Bool :=
  match v with
  | dict entries => .ok (Record.has entries key)
  | list items => .ok (items.any (alike (.str key)))
  | str s => .ok (Text.contains s key)
  | _ => .error (.ofType ("argument of type '" ++ v.typeName ++ "' is not iterable"))

def size : Value → Except Fault Nat
  | list items => .ok items.length
  | dict entries => .ok entries.length
  | str s => .ok s.length
  | v => .error (.ofType ("object of type '" ++ v.typeName ++ "' has no len()"))

def asText (method : String) : Value → Except Fault String
  | str s => .ok s
  | v => .error (.noMember v.typeName method)

/-- A place in a sequence of `n` parts, counted from the end when negative, kept inside. -/
def clampIndex (n : Nat) (i : Int) : Nat :=
  if i < 0 then (n + i).toNat else min i.toNat n

def sliceBound (n : Nat) (default : Nat) : Value → Except Fault Nat
  | null => .ok default
  | bool b => .ok (clampIndex n (if b then 1 else 0))
  | int i => .ok (clampIndex n i)
  | _ => .error (.ofType
      "slice indices must be integers or None or have an __index__ method")

def slice (s : String) (start stop : Value) : Except Fault String := do
  let n := s.length
  let i ← sliceBound n 0 start
  let j ← sliceBound n n stop
  return .ofList ((s.toList.take j).drop i)

def front (n : Int) : Value → Except Fault Value
  | list items => .ok (.list (items.take (clampIndex items.length n)))
  | str s => .ok (.str (Text.takeFront s (clampIndex s.length n)))
  | dict _ => .error (.ofType "unhashable type: 'slice'")
  | v => .error (.ofType ("'" ++ v.typeName ++ "' object is not subscriptable"))

def hashable : Value → Except Fault Value
  | v@(list _) | v@(dict _) => .error (.ofType ("unhashable type: '" ++ v.typeName ++ "'"))
  | v => .ok v

def pairAt (place : Nat) (item : Value) : Except Fault (String × Value) := do
  let parts ← item.iterate.mapError fun _ => .ofType
    ("cannot convert dictionary update sequence element #" ++ toString place ++ " to a sequence")
  match parts with
  | [key, value] => return ((← hashable key).text, value)
  | _ => throw (.ofValue ("dictionary update sequence element #" ++ toString place
      ++ " has length " ++ toString parts.length ++ "; 2 is required"))

def toRecord : Value → Except Fault Record
  | dict entries => .ok entries
  | v => do return .ofEntries (← (← v.iterate).zipIdx.mapM fun i => pairAt i.2 i.1)

/-! ### Conversion to integers

Numbers lose their fraction, and a text is read as a decimal integer. -/

def toInteger : Value → Except Fault Int
  | bool b => .ok (if b then 1 else 0)
  | int n => .ok n
  | float x =>
    match Numeral.truncate? x with
    | some n => .ok n
    | none =>
      if x.isNaN then .error (.ofValue "cannot convert float NaN to integer")
      else .error ⟨.overflow, "cannot convert float infinity to integer"⟩
  | nan _ => .error (.ofValue "cannot convert float NaN to integer")
  | str s => Numeral.integer s
  | v => .error (.ofType
      ("int() argument must be a string, a bytes-like object or a real number, not '"
      ++ v.typeName ++ "'"))

end Rulebook.Value
