/-
Evaluation of derivation graphs.

A template is evaluated on a record node by node. The result is the value of the root together with
an explanation: the graph again, with the value that each node had.

Truth is three-valued, and an order comparison with null is null. A rule that needs the text of an
integer of too many digits fails.
-/

import Rulebook.Graph.Basic

namespace Rulebook.Graph

open Text

/-- Removes a node from the nodes others wait for. Gives the new state and the nodes that
wait for nothing any more. -/
def release (node : String) (waits : List (String × List String)) :
    List (String × List String) × List String :=
  (waits.map fun w => (w.1, w.2.filter (· ≠ node)),
   (waits.filter fun w => w.2 ≠ [] && w.2.all (· = node)).map Prod.fst)

/-- Takes nodes from the queue of those that wait for nothing; the first argument bounds
their number. -/
def drain : Nat → List String → List (String × List String) → List String
  | 0, _, _ => []
  | _ + 1, [], _ => []
  | fuel + 1, node :: queue, waits =>
    let (waits, freed) := release node waits
    node :: drain fuel (queue ++ freed) waits

/-- The order in which nodes are evaluated: each as soon as all its arguments are, then
those that never become ready. -/
def evalOrder (ids : List String) (edges : List (String × String)) : List String :=
  let waits := ids.map fun id => (id, (edges.filter (·.2 = id)).map Prod.fst)
  let order := drain ids.length ((waits.filter (·.2.isEmpty)).map Prod.fst) waits
  order ++ ids.filter (· ∉ order)

def inferType : Value → String
  | .null => "null"
  | .bool _ => "boolean"
  | .int _ => "integer"
  | .float _ | .nan _ => "number"
  | .str _ => "string"
  | _ => "unknown"

def isFalse : Value → Bool
  | .bool b => !b
  | _ => false

def conj (args : List Value) : Value :=
  if args.any isFalse then .bool false
  else if args.any Value.isNull then .null
  else .bool (args.all Value.isTrue)

def disj (args : List Value) : Value :=
  if args.any Value.isTrue then .bool true
  else if args.any Value.isNull then .null
  else .bool false

def textOrEmpty (v : Value) : Except Fault String := if v.isNull then .ok "" else v.text?

def applyFunction (name : String) (args : List Value) : Except Fault (Value × String) :=
  match name, args with
  | "AND", args => .ok (conj args, "boolean")
  | "OR", args => .ok (disj args, "boolean")
  | "NOT", [] => .ok (.null, "boolean")
  | "NOT", v :: _ => .ok (if v.isNull then .null else .bool (!v.truthy), "boolean")
  | "IF", c :: t :: rest =>
    let v := if c.isTrue then t else rest.headD .null
    .ok (v, inferType v)
  | "LOWER", v :: _ =>
    if v.isNull then .ok (.null, "null")
    else v.text?.map fun t => (.str (lower t), "string")
  | "FIND", n :: h :: _ =>
    if n.isNull || h.isNull then .ok (.null, "boolean")
    else do return (.bool (contains (← h.text?) (← n.text?)), "boolean")
  | "CAST", v :: _ => (textOrEmpty v).map fun t => (.str t, "string")
  | _, _ => .ok (.null, "null")

def applyOrder (op : OrderOp) (a b : Value) : Except Fault (Value × String) :=
  if a.isNull || b.isNull then .ok (.null, "null")
  else (Value.order op a b).map fun r => (.bool r, "boolean")

def applyOperator (name : String) (args : List Value) : Except Fault (Value × String) :=
  match name, args with
  | "CONCAT", args => (args.mapM textOrEmpty).map fun ts => (.str (String.join ts), "string")
  | "=", a :: b :: _ | "==", a :: b :: _ => .ok (.bool (a.equal b), "boolean")
  | "<>", a :: b :: _ | "!=", a :: b :: _ => .ok (.bool (!a.equal b), "boolean")
  | "<", a :: b :: _ => applyOrder .lt a b
  | "<=", a :: b :: _ => applyOrder .le a b
  | ">", a :: b :: _ => applyOrder .gt a b
  | ">=", a :: b :: _ => applyOrder .ge a b
  | _, _ => .ok (.null, "null")

/-- What is known of an evaluated node: its value, the name of its type, and what else the
explanation says about it. -/
structure Witness where
  value : Value
  type : Value
  kind : Value
  notes : Record

abbrev Witnesses := List (String × Witness)

def Witnesses.value (ws : Witnesses) (id : String) : Value :=
  ((ws.lookup id).map Witness.value).getD .null

def evalNode (record : Record) (ws : Witnesses) : Node → Except Fault (Option Witness)
  | .const value type => .ok (some ⟨value, type, .str "const", []⟩)
  | .ref field key =>
    let value := record.get key
    .ok (some ⟨value, .str (inferType value), .str "field_ref",
      [("field", field), ("field_snake", .str key)]⟩)
  | .fn name args => do
    let name := upper name
    let (value, type) ← applyFunction name (args.map ws.value)
    .ok (some ⟨value, .str type, .str "fn", [("name", .str name), ("args", idsValue args)]⟩)
  | .op name args => do
    let (value, type) ← applyOperator name (args.map ws.value)
    .ok (some ⟨value, .str type, .str "op", [("name", .str name), ("args", idsValue args)]⟩)
  | .result field inputs =>
    match inputs.head?.bind fun id => ws.lookup id with
    | some w => .ok (some ⟨w.value, w.type, .str "result", [("field", field)]⟩)
    | none =>
      .ok (some ⟨.null, .str "null", .str "result", [("error", .str "missing input")]⟩)
  | .unknown kind => .ok (some ⟨.null, .str "null", kind, [("error", .str "unknown kind")]⟩)
  | .absent => .ok none

def step (t : Template) (record : Record) (ws : Witnesses) (id : String) :
    Except Fault Witnesses := do
  match ← evalNode record ws ((t.nodes.lookup id).getD .absent) with
  | some w => return ws ++ [(id, w)]
  | none => return ws

def witnesses (t : Template) (record : Record) : Except Fault Witnesses :=
  (evalOrder (t.nodes.map Prod.fst) t.edges).foldlM (step t record) []

def instanceId (id : String) : String :=
  "i_" ++ (if startsWith id "n_" then dropFront id 2 else id)

def Witness.toValue (w : Witness) : Value :=
  .dict ([("kind", w.kind), ("value", w.value), ("type", w.type)] ++ w.notes)

structure Explanation where
  hash : Value
  root : String
  nodes : Record
  edges : List (String × String)

def explain (t : Template) (ws : Witnesses) : Explanation where
  hash := t.hash
  root := instanceId t.root
  nodes := Record.ofEntries (ws.map fun w => (instanceId w.1, w.2.toValue))
  edges := t.edges.map fun e => (instanceId e.1, instanceId e.2)

def Explanation.toValue (e : Explanation) : Value :=
  .dict [("template_hash", e.hash), ("root", .str e.root), ("nodes", .dict e.nodes),
    ("edges", edgesValue e.edges),
    ("evidence", .dict [("short_circuit", .list []), ("branches", .list [])])]

def evaluate (t : Template) (record : Record) : Except Fault (Value × Explanation) := do
  let ws ← witnesses t record
  return (ws.value t.root, explain t ws)

def evaluate? (t : Option Template) (record : Record) :
    Except Fault (Value × Option Explanation) :=
  match t with
  | none => .ok (.null, none)
  | some t => (evaluate t record).map fun r => (r.1, some r.2)

def noExplanation : Value := .dict [("error", .str "Invalid template")]

def explanationValue (e : Option Explanation) : Value :=
  (e.map Explanation.toValue).getD noExplanation

def check (e : Option Explanation) (value : Value) : Option String :=
  match e with
  | none => some "Root node None not found in nodes"
  | some e =>
    match e.nodes.get? e.root with
    | none => some ("Root node " ++ e.root ++ " not found in nodes")
    | some node =>
      let found := node.entries.get "value"
      if found.equal value then none
      else some ("Root value " ++ found.text ++ " doesn't match computed " ++ value.text)

end Rulebook.Graph
