/-
Evaluation of constraints on an instance.

Attributes are found in any letter case, with or without underscores. A missing attribute is null,
which counts as zero in arithmetic, as the empty text in a concatenation, and satisfies no order.
-/

import Rulebook.Constraint.Parser
import Rulebook.Value.Access

namespace Rulebook.Constraint

open Text

/-- The attributes of an instance, under lower-case names with and without underscores; a
later key wins. -/
def attributes (entries : List (String × Value)) : Record :=
  entries.foldl (fun r e =>
    (r.put (lower e.1) e.2).put (replace (lower e.1) "_" "") e.2) []

def orElse (v default : Value) : Value := if v.isNull then default else v

def textOrEmpty (v : Value) : Except Fault String := if v.isNull then .ok "" else v.text?

def compareOrder (op : OrderOp) (a b : Value) : Except Fault Value :=
  if a.isNull || b.isNull then .ok (.bool false)
  else (Value.order op a b).map .bool

def isText : Value → Bool
  | .str _ => true
  | _ => false

def apply (op : BinaryOp) (a b : Value) : Except Fault Value :=
  match op with
  | .add =>
    if isText a || isText b then do return .str ((← textOrEmpty a) ++ (← textOrEmpty b))
    else Value.arith .add (orElse a (.int 0)) (orElse b (.int 0))
  | .sub => Value.arith .sub (orElse a (.int 0)) (orElse b (.int 0))
  | .mul => Value.arith .mul (orElse a (.int 0)) (orElse b (.int 0))
  | .div =>
    let divisor := if b.isNull || b.equal (.int 0) then .int 1 else b
    Value.arith .div (orElse a (.int 0)) divisor
  | .eq => .ok (.bool (a.equal b))
  | .ne => .ok (.bool (!a.equal b))
  | .lt => compareOrder .lt a b
  | .le => compareOrder .le a b
  | .gt => compareOrder .gt a b
  | .ge => compareOrder .ge a b
  | .and => .ok (.bool (a.truthy && b.truthy))
  | .or => .ok (.bool (a.truthy || b.truthy))

def applySymbol (symbol : String) (a b : Value) : Except Fault Value :=
  match BinaryOp.ofSymbol? symbol with
  | some op => apply op a b
  | none => .error (.ofValue ("Unknown binary op: " ++ symbol))

def callMethod (object : Value) (name : String) (args : List (Except Fault Value)) :
    Except Fault Value :=
  let method := lower name
  if method = "tolower" then
    (textOrEmpty object).map fun t => .str (lower t)
  else if method = "toupper" then
    (textOrEmpty object).map fun t => .str (upper t)
  else if method = "indexof" then
    match args with
    | [] => .error (.ofValue "indexOf requires 1 argument")
    | needle :: _ => do
      let needle ← needle
      if object.isNull then return .int (-1)
      let text ← object.text?
      match find? text (← needle.text?) with
      | some i => return .int i
      | none => return .int (-1)
  else if method = "substring" then
    match args with
    | start :: stop :: _ => do
      let start ← start
      let stop ← stop
      if object.isNull then return .str ""
      return .str (← Value.slice (← object.text?) start stop)
    | _ => .error (.ofValue "substring requires 2 arguments")
  else if method = "size" then
    (textOrEmpty object).map fun t => .int t.length
  else .error (.ofValue ("Unknown method: " ++ name))

mutual

def eval (env : Record) : Expr → Except Fault Value
  | .bool b => .ok (.bool b)
  | .int n => .ok (.int n)
  | .str s => .ok (.str s)
  | .attr name => .ok (env.get (lower name))
  | .not e =>
    match eval env e with
    | .error f => .error f
    | .ok v => .ok (if v.isNull then .null else .bool (!v.truthy))
  | .binary op l r =>
    match eval env l, eval env r with
    | .error f, _ => .error f
    | .ok _, .error f => .error f
    | .ok a, .ok b => apply op a b
  | .ite cond yes no =>
    match eval env cond with
    | .error f => .error f
    | .ok c => if c.truthy then eval env yes else eval env no
  | .method object name args =>
    match eval env object with
    | .error f => .error f
    | .ok v => callMethod v name (evalAll env args)

def evalAll (env : Record) : List Expr → List (Except Fault Value)
  | [] => []
  | e :: es => eval env e :: evalAll env es

end

def evaluate (env : Record) (text : String) : Except Fault Value := do
  let e ← parse text
  eval env e

end Rulebook.Constraint
