/-
Derivation graphs of formulas.

The template of a formula has an edge from each argument to the node that takes it, and a last
node for the column itself. Arguments are numbered before what takes them.
-/

import Rulebook.Digest.Sha256
import Rulebook.Formula.Basic
import Rulebook.Json
import Rulebook.Names
import Rulebook.Value.Access

namespace Rulebook.Graph

open Formula

inductive Node where
  | const (value type : Value)
  | ref (field : Value) (key : String)
  | fn (name : String) (args : List String)
  | op (name : String) (args : List String)
  | result (field : Value) (inputs : List String)
  | unknown (kind : Value)
  | absent

structure Template where
  root : String
  nodes : List (String × Node)
  edges : List (String × String)
  hash : Value := .null

structure Draft where
  count : Nat := 0
  nodes : List (String × Node) := []
  edges : List (String × String) := []

def Draft.add (d : Draft) (stem : String) (node : Node) (args : List String) : String × Draft :=
  let id := "n_" ++ stem ++ "_" ++ toString (d.count + 1)
  (id, ⟨d.count + 1, d.nodes ++ [(id, node)], d.edges ++ args.map (·, id)⟩)

def constType : Datatype → String
  | .boolean => "boolean"
  | .integer => "integer"
  | .text => "string"

mutual

def visit (d : Draft) : Expr → String × Draft
  | .bool b => d.add "const" (.const (.bool b) (.str "boolean")) []
  | .int n => d.add "const" (.const (.int n) (.str "integer")) []
  | .str s => d.add "const" (.const (.str s) (.str "string")) []
  | .misfit type v => d.add "const" (.const v (.str (constType type))) []
  | .field name => d.add "ref" (.ref (.str name) (Names.snake name)) []
  | .unary op e =>
    let (a, d) := visit d e
    d.add "fn" (.fn op [a]) [a]
  | .binary op l r =>
    let (a, d) := visit d l
    let (b, d) := visit d r
    d.add "op" (.op op.symbol [a, b]) [a, b]
  | .call name args =>
    let (ids, d) := visitAll d args
    d.add "fn" (.fn name ids) ids
  | .concat parts =>
    let (ids, d) := visitAll d parts
    d.add "op" (.op "CONCAT" ids) ids

def visitAll (d : Draft) : List Expr → List String × Draft
  | [] => ([], d)
  | e :: es =>
    let (a, d) := visit d e
    let (rest, d) := visitAll d es
    (a :: rest, d)

end

def resultId (field : String) : String := "n_result_" ++ field

def ofExpr (e : Expr) (field : String) : Template :=
  let (top, d) := visit {} e
  let id := resultId field
  { root := id, nodes := d.nodes ++ [(id, .result (.str field) [top])],
    edges := d.edges ++ [(top, id)] }

def idsValue (ids : List String) : Value := .list (ids.map .str)

def Node.toValue : Node → Value
  | const value type => .dict [("kind", .str "const"), ("value", value), ("type", type)]
  | ref field key =>
    .dict [("kind", .str "field_ref"), ("field", field), ("field_snake", .str key)]
  | fn name args => .dict [("kind", .str "fn"), ("name", .str name), ("args", idsValue args)]
  | op name args => .dict [("kind", .str "op"), ("name", .str name), ("args", idsValue args)]
  | result field inputs =>
    .dict [("kind", .str "result"), ("field", field),
      ("field_snake", .str (Names.snake field.text)),
      ("in", idsValue inputs)]
  | unknown kind => .dict [("kind", kind)]
  | absent => .null

def Template.nodesValue (t : Template) : Value :=
  .dict (t.nodes.map fun n => (n.1, n.2.toValue))

def edgesValue (edges : List (String × String)) : Value :=
  .list (edges.map fun e => .list [.str e.1, .str e.2])

def pairLe (a b : String × String) : Bool :=
  a.1 < b.1 || (a.1 = b.1 && !(b.2 < a.2))

/-- The fingerprint of a template and its formula, which does not depend on the order of
nodes and edges. -/
def fingerprint (t : Template) (formula : String) : String :=
  let nodes := (t.nodes.map fun n => (n.1, n.2.toValue)).mergeSort fun a b => !(b.1 < a.1)
  let content := Value.dict [("formula", .str formula),
    ("nodes", .list (nodes.map fun n => .list [.str n.1, n.2])),
    ("edges", edgesValue (t.edges.mergeSort pairLe))]
  "sha256:" ++ Text.takeFront
    (Digest.sha256 (Json.write { Json.Style.line with sorted := true } content)) 16

def idsOf (v : Value) : Except Fault (List String) := do
  (← v.iterate).mapM fun
    | .str s => .ok s
    | .list _ => .error (.ofType "unhashable type: 'list'")
    | .dict _ => .error (.ofType "unhashable type: 'dict'")
    | w => .ok w.text

def Node.ofValue (v : Value) : Except Fault Node := do
  if !v.truthy then return absent
  let entries ← v.table "get"
  let kind := entries.get "kind"
  match kind with
  | .str "const" => return const (entries.get "value") (entries.getD "type" (.str "unknown"))
  | .str "field_ref" =>
    let fallback ← (entries.getD "field" (.str "")).asText "replace"
    let key := match entries.get? "field_snake" with
      | some w => w.text
      | none => Names.snake fallback
    return ref (entries.get "field") key
  | .str "fn" =>
    return fn (← (entries.getD "name" (.str "")).asText "upper")
      (← idsOf (entries.getD "args" (.list [])))
  | .str "op" =>
    return op (entries.getD "name" (.str "")).text (← idsOf (entries.getD "args" (.list [])))
  | .str "result" =>
    return result (entries.get "field") (← idsOf (entries.getD "in" (.list [])))
  | _ => return unknown kind

def edgeOf (v : Value) : Except Fault (String × String) := do
  match ← idsOf v with
  | [a, b] => return (a, b)
  | ids =>
    if ids.length < 2 then
      throw (.ofValue ("not enough values to unpack (expected 2, got "
        ++ toString ids.length ++ ")"))
    else throw (.ofValue "too many values to unpack (expected 2)")

def Template.ofValue (v : Value) : Except Fault (Option Template) := do
  let entries ← v.table "get"
  let nodes := entries.getD "nodes" (.dict [])
  let root := entries.get "root_node"
  if !root.truthy || !nodes.truthy then return none
  let edges ← (← (entries.getD "edges" (.list [])).iterate).mapM edgeOf
  let nodes ← (← nodes.table "get").mapM fun e => do return (e.1, ← Node.ofValue e.2)
  let root ← root.asText "startswith"
  return some { root, nodes, edges, hash := entries.get "template_hash" }

end Rulebook.Graph
