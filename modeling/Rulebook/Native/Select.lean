/-
Code for typed trees.

The code of a tree leaves a truth value in `w0`, an integer in `x0`, and a text as address in `x0`
and length in `x1`. The record is at the address in `x19`. Labels and buffers remain when the code
of a tree fails on the way.
-/

import Rulebook.Native.Instruction
import Rulebook.Native.Tree

namespace Rulebook.Native

open Formula Text Reg

structure Issued where
  labels : Nat := 0
  buffers : List String := []

inductive SelectError where
  | emptyConcat
  | noInteger (typeName : String)
deriving DecidableEq, Repr

def SelectError.fault : SelectError → Fault
  | emptyConcat => ⟨.index, "list index out of range"⟩
  | noInteger typeName =>
    .ofType ("'" ++ typeName ++ "' object cannot be interpreted as an integer")

abbrev Select := ExceptT SelectError (StateM Issued)

def newLabel (stem : String) : Select String := do
  let s ← get
  set { s with labels := s.labels + 1 }
  return stem ++ "_" ++ toString (s.labels + 1)

def reserveBuffer (function : String) : Select Unit :=
  modify fun s =>
    if function ∈ s.buffers then s else { s with buffers := s.buffers ++ [function] }

def bufferLabel (function : String) : String := "_result_buf_" ++ function

def code (is : List Instr) : List Line := is.map .instr

def halfWord (n : Int) (shift : Nat) : Nat := (n / (Nat.pow 2 shift : Nat) % 65536).toNat

def constant (n : Int) : List Instr :=
  if 0 ≤ n && n < 65536 then [.moveImm (x 0) n.toNat]
  else
    [.moveImm (x 0) (halfWord n 0)] ++
      (if 0xffff < n then [.moveKeep (x 0) (halfWord n 16) 16] else []) ++
      (if 0xffffffff < n then
        [.moveKeep (x 0) (halfWord n 32) 32, .moveKeep (x 0) (halfWord n 48) 48] else [])

def addressOf (r : Reg) (label : String) : List Instr := [.page r label, .pageOffset r r label]

def keepLeft : Datatype → List Instr
  | .boolean => [.move (w 20) (w 0)]
  | .text => [.move (x 20) (x 0), .move (x 21) (x 1)]
  | .integer => [.move (x 20) (x 0)]

def condOf : Relation → Option Cond
  | .eq => some .eq
  | .ne => some .ne
  | .lt => some .lt
  | .le => some .le
  | .gt => some .gt
  | .ge => some .ge
  | .other _ => none

/-- Compares the kept left operand with the right one. Texts are compared for equality,
whatever the sign. -/
def compareOperands (op : Relation) (left right : Datatype) : List Instr :=
  if left = .text || right = .text then
    [.move (x 2) (x 0), .move (x 3) (x 1), .move (x 0) (x 20), .move (x 1) (x 21),
      .call "_string_equals"] ++ (if op = .ne then [.flip (w 0) (w 0)] else [])
  else
    [if left = .boolean then .compare (w 20) (w 0) else .compare (x 20) (x 0)] ++
      ((condOf op).map fun c => Instr.setIf (w 0) c).toList

def keepBranch (d : Datatype) : List Instr :=
  .move (x 20) (x 0) :: (if d = .text then [.move (x 21) (x 1)] else [])

def takeBranch : Datatype → List Instr
  | .text => [.move (x 0) (x 20), .move (x 1) (x 21)]
  | .boolean => [.move (w 0) (w 20)]
  | .integer => [.move (x 0) (x 20)]

def partToText : Datatype → Select (List Line)
  | .boolean => do
    let yes ← newLabel "bool_true"
    let stop ← newLabel "bool_end"
    return code ([.branchNonzero (w 0) yes] ++ addressOf (x 0) "_str_false" ++
      [.moveImm (x 1) 5, .branch stop]) ++ [.label yes] ++
      code (addressOf (x 0) "_str_true" ++ [.moveImm (x 1) 4]) ++ [.label stop]
  | .integer =>
    return code [.move (x 1) (x 0), .subImm (x 0) (x 29) 200, .call "_int_to_string"]
  | .text => return []

def partSlot (index : Nat) : Nat := 16 + index * 16

def keepPart (index : Nat) : List Instr :=
  [.store (x 0) sp (partSlot index), .store (x 1) sp (partSlot index + 8)]

def joinPart (index : Nat) : List Instr :=
  [.load (x 4) sp (partSlot index + 8), .load (x 3) sp (partSlot index), .move (x 2) (x 1),
    .move (x 1) (x 0), .move (x 0) (x 22), .call "_string_concat"]

def joinParts (function : String) (count : Nat) : List Instr :=
  [.load (x 0) sp (partSlot 0), .load (x 1) sp (partSlot 0 + 8)] ++
    addressOf (x 22) (bufferLabel function) ++
    (List.range (count - 1)).flatMap fun i => joinPart (i + 1)

/-- Puts a value that is no integer into `x0`. What is small enough to be written in place is
written as its text, which is for the assembler to judge. -/
def looseConstant (v : Value) : Select (List Line) :=
  let small := do return (← Value.order .ge v (.int 0)) && (← Value.order .lt v (.int 65536))
  match small with
  | .ok true => return [.directive ("mov x0, #" ++ v.text)]
  | _ => throw (.noInteger v.typeName)

mutual

def select (function : String) : Tree → Select (List Line)
  | .bool b => return code [.moveImm (w 0) (if b then 1 else 0)]
  | .int n => return code (constant n)
  | .misfit type v =>
    match type with
    | .boolean => return code [.moveImm (w 0) (if v.truthy then 1 else 0)]
    | _ => looseConstant v
  | .text value label =>
    return code (addressOf (x 0) label ++ [.moveImm (x 1) value.length])
  | .loadBool offset _ => return code [.loadByte (w 0) (x 19) offset]
  | .loadInt offset _ => return code [.load (x 0) (x 19) offset]
  | .loadText offset _ =>
    return code [.load (x 0) (x 19) offset, .load (x 1) (x 19) (offset + 8)]
  | .not e => return (← select function e) ++ code [.flip (w 0) (w 0)]
  | .and es => do
    let no ← newLabel "and_false"
    let stop ← newLabel "and_end"
    let body ← selectEach function (.branchZero (w 0) no) es
    return body ++ code [.moveImm (w 0) 1, .branch stop] ++ [.label no] ++
      code [.moveImm (w 0) 0] ++ [.label stop]
  | .or es => do
    let yes ← newLabel "or_true"
    let stop ← newLabel "or_end"
    let body ← selectEach function (.branchNonzero (w 0) yes) es
    return body ++ code [.moveImm (w 0) 0, .branch stop] ++ [.label yes] ++
      code [.moveImm (w 0) 1] ++ [.label stop]
  | .compare op l r => do
    let left ← select function l
    let right ← select function r
    return left ++ code (keepLeft l.type) ++ right ++ code (compareOperands op l.type r.type)
  | .ite c yes no => do
    let other ← newLabel "if_else"
    let stop ← newLabel "if_end"
    let cond ← select function c
    let first ← select function yes
    let second ← select function no
    return cond ++ code [.branchZero (w 0) other] ++ first ++ code (keepBranch yes.type) ++
      code [.branch stop] ++ [.label other] ++ second ++ code (keepBranch yes.type) ++
      [.label stop] ++ code (takeBranch yes.type)
  | .concat parts => do
    reserveBuffer function
    let body ← selectParts function 0 parts
    if parts.isEmpty then throw .emptyConcat
    return body ++ code (joinParts function parts.length)

def selectEach (function : String) (test : Instr) : List Tree → Select (List Line)
  | [] => return []
  | e :: es => do
    let first ← select function e
    return first ++ code [test] ++ (← selectEach function test es)

def selectParts (function : String) (index : Nat) : List Tree → Select (List Line)
  | [] => return []
  | e :: es => do
    let value ← select function e
    let text ← partToText e.type
    return value ++ text ++ code (keepPart index) ++ (← selectParts function (index + 1) es)

end

/-- What a function starts with: it saves registers, takes space for parts, and keeps the
address of the record. -/
def entryCode : List Instr :=
  [.pushPair (x 29) (x 30), .move (x 29) sp, .pushPair (x 19) (x 20), .pushPair (x 21) (x 22),
    .pushPair (x 23) (x 24), .subImm sp sp 256, .move (x 19) (x 0)]

def exitCode : List Instr :=
  [.addImm sp sp 256, .popPair (x 23) (x 24), .popPair (x 21) (x 22), .popPair (x 19) (x 20),
    .popPair (x 29) (x 30), .ret]

def function (name : String) (t : Tree) : Select (List Line) := do
  let body ← select name t
  return [.directive (".globl _" ++ name), .directive ".p2align 2", .label ("_" ++ name)] ++
    code entryCode ++ body ++ code exitCode ++ [.blank]

def functionName (field : String) : String := "eval_" ++ field

def escapeData (s : String) : String := replace (replace s "\\" "\\\\") "\"" "\\\""

def literalLines (l : String × String) : List Line :=
  [.directive (".globl " ++ l.1), .label l.1, .directive (".asciz \"" ++ escapeData l.2 ++ "\""),
    .directive (".globl " ++ l.1 ++ "_len"), .label (l.1 ++ "_len"),
    .directive (".quad " ++ toString l.2.length)]

def bufferLines (function : String) : List Line :=
  let label := bufferLabel function
  [.directive (".globl " ++ label), .directive ".p2align 3", .label label,
    .directive ".space 1024"]

def dataSection (literals : Literals) (buffers : List String) : List Line :=
  [.directive ".data"] ++ literals.flatMap literalLines ++
    [.blank, .remark 4 "Static result buffers for string concatenation", .directive ".bss"] ++
    (buffers.mergeSort fun a b => !(b < a)).flatMap bufferLines

end Rulebook.Native
