/-
Instructions of the 64-bit ARM architecture that the compiler emits, and their notation.
-/

import Rulebook.Text.Search

namespace Rulebook.Native

open Text

inductive Reg where
  | x (n : Nat)
  | w (n : Nat)
  | sp
deriving DecidableEq, Repr

def Reg.name : Reg → String
  | x n => "x" ++ toString n
  | w n => "w" ++ toString n
  | sp => "sp"

inductive Cond where
  | eq
  | ne
  | lt
  | le
  | gt
  | ge
deriving DecidableEq, Repr

def Cond.name : Cond → String
  | eq => "eq"
  | ne => "ne"
  | lt => "lt"
  | le => "le"
  | gt => "gt"
  | ge => "ge"

inductive Instr where
  | pushPair (a b : Reg)
  | popPair (a b : Reg)
  | move (dst src : Reg)
  | moveImm (dst : Reg) (value : Nat)
  | moveChar (dst : Reg) (c : Char)
  | moveKeep (dst : Reg) (value shift : Nat)
  | addImm (dst a : Reg) (value : Nat)
  | addChar (dst a : Reg) (c : Char)
  | addReg (dst a b : Reg)
  | subImm (dst a : Reg) (value : Nat)
  | subReg (dst a b : Reg)
  | negate (dst src : Reg)
  | divide (dst a b : Reg)
  | multiplySub (dst a b c : Reg)
  | flip (dst src : Reg)
  | page (dst : Reg) (label : String)
  | pageOffset (dst src : Reg) (label : String)
  | load (dst base : Reg) (offset : Nat)
  | loadByte (dst base : Reg) (offset : Nat)
  | loadByteAt (dst base index : Reg)
  | loadByteHere (dst base : Reg)
  | store (src base : Reg) (offset : Nat)
  | storeByteAt (src base index : Reg)
  | storeByteHere (src base : Reg)
  | storeByteStep (src base : Reg)
  | compare (a b : Reg)
  | compareImm (a : Reg) (value : Nat)
  | setIf (dst : Reg) (cond : Cond)
  | branch (label : String)
  | branchIf (cond : Cond) (label : String)
  | branchZero (src : Reg) (label : String)
  | branchNonzero (src : Reg) (label : String)
  | call (label : String)
  | ret
deriving DecidableEq, Repr

def written (word : String) (operands : List String) : String := word ++ " " ++ join ", " operands

def address (base : Reg) (more : String) : String := "[" ++ base.name ++ ", " ++ more ++ "]"

def immediate (n : Nat) : String := "#" ++ toString n

def Instr.text : Instr → String
  | pushPair a b => written "stp" [a.name, b.name, "[sp, #-16]!"]
  | popPair a b => written "ldp" [a.name, b.name, "[sp], #16"]
  | move d s => written "mov" [d.name, s.name]
  | moveImm d v => written "mov" [d.name, immediate v]
  | moveChar d c => written "mov" [d.name, "#'" ++ c.toString ++ "'"]
  | moveKeep d v shift => written "movk" [d.name, immediate v, "lsl " ++ immediate shift]
  | addImm d a v => written "add" [d.name, a.name, immediate v]
  | addChar d a c => written "add" [d.name, a.name, "#'" ++ c.toString ++ "'"]
  | addReg d a b => written "add" [d.name, a.name, b.name]
  | subImm d a v => written "sub" [d.name, a.name, immediate v]
  | subReg d a b => written "sub" [d.name, a.name, b.name]
  | negate d s => written "neg" [d.name, s.name]
  | divide d a b => written "udiv" [d.name, a.name, b.name]
  | multiplySub d a b c => written "msub" [d.name, a.name, b.name, c.name]
  | flip d s => written "eor" [d.name, s.name, immediate 1]
  | page d label => written "adrp" [d.name, label ++ "@PAGE"]
  | pageOffset d s label => written "add" [d.name, s.name, label ++ "@PAGEOFF"]
  | load d base k => written "ldr" [d.name, address base (immediate k)]
  | loadByte d base k => written "ldrb" [d.name, address base (immediate k)]
  | loadByteAt d base i => written "ldrb" [d.name, address base i.name]
  | loadByteHere d base => written "ldrb" [d.name, "[" ++ base.name ++ "]"]
  | store s base k => written "str" [s.name, address base (immediate k)]
  | storeByteAt s base i => written "strb" [s.name, address base i.name]
  | storeByteHere s base => written "strb" [s.name, "[" ++ base.name ++ "]"]
  | storeByteStep s base => written "strb" [s.name, "[" ++ base.name ++ "]", immediate 1]
  | compare a b => written "cmp" [a.name, b.name]
  | compareImm a v => written "cmp" [a.name, immediate v]
  | setIf d c => written "cset" [d.name, c.name]
  | branch l => written "b" [l]
  | branchIf c l => written ("b." ++ c.name) [l]
  | branchZero s l => written "cbz" [s.name, l]
  | branchNonzero s l => written "cbnz" [s.name, l]
  | call l => written "bl" [l]
  | ret => "ret"

inductive Line where
  | label (name : String)
  | instr (i : Instr)
  | noted (i : Instr) (note : String)
  | directive (text : String)
  | remark (indent : Nat) (text : String)
  | blank
deriving DecidableEq, Repr

def Line.text : Line → String
  | label name => name ++ ":"
  | instr i => "    " ++ i.text
  | noted i note => padEnd 32 ("    " ++ i.text) ++ "; " ++ note
  | directive text => "    " ++ text
  | remark indent text => times indent " " ++ "; " ++ text
  | blank => ""

def linesText (lines : List Line) : String := join "\n" (lines.map Line.text)

open Reg

/-! ### The support routines of compiled functions -/

def supportHeader : List Line := [
  .blank,
  .remark 0 "String runtime for ERB Binary Substrate (ARM64 / Apple Silicon)",
  .remark 0 "Calling convention: Apple ARM64 ABI",
  .blank,
  .directive ".text",
  .directive ".p2align 2",
  .blank]

def equalsRoutine : List Line := [
  .remark 0 "bool _string_equals(const char* s1, size_t len1, const char* s2, size_t len2)",
  .remark 0 "x0 = s1, x1 = len1, x2 = s2, x3 = len2",
  .remark 0 "Returns 1 if strings are equal, 0 otherwise in w0",
  .directive ".globl _string_equals",
  .label "_string_equals",
  .noted (.compare (x 1) (x 3)) "Compare lengths first",
  .instr (.branchIf .ne "Lstr_eq_false"),
  .noted (.branchZero (x 1) "Lstr_eq_true") "If both empty, equal",
  .blank,
  .remark 4 "Compare byte by byte",
  .noted (.moveImm (x 4) 0) "index",
  .label "Lstr_eq_loop",
  .instr (.loadByteAt (w 5) (x 0) (x 4)),
  .instr (.loadByteAt (w 6) (x 2) (x 4)),
  .instr (.compare (w 5) (w 6)),
  .instr (.branchIf .ne "Lstr_eq_false"),
  .instr (.addImm (x 4) (x 4) 1),
  .instr (.compare (x 4) (x 1)),
  .instr (.branchIf .lt "Lstr_eq_loop"),
  .blank,
  .label "Lstr_eq_true",
  .instr (.moveImm (w 0) 1),
  .instr .ret,
  .blank,
  .label "Lstr_eq_false",
  .instr (.moveImm (w 0) 0),
  .instr .ret,
  .blank]

def concatRoutine : List Line := [
  .remark 0 ("char* _string_concat(char* dest, const char* s1, size_t len1, const char* s2, "
    ++ "size_t len2)"),
  .remark 0 "x0 = dest, x1 = s1_ptr, x2 = s1_len, x3 = s2_ptr, x4 = s2_len",
  .remark 0 "Returns dest in x0, total length in x1",
  .directive ".globl _string_concat",
  .label "_string_concat",
  .instr (.pushPair (x 29) (x 30)),
  .instr (.move (x 29) sp),
  .instr (.pushPair (x 19) (x 20)),
  .instr (.pushPair (x 21) (x 22)),
  .blank,
  .noted (.move (x 19) (x 0)) "save dest",
  .noted (.move (x 20) (x 2)) "save s1_len",
  .noted (.move (x 21) (x 4)) "save s2_len",
  .blank,
  .remark 4 "Copy s1 to dest",
  .noted (.moveImm (x 5) 0) "index",
  .noted (.branchZero (x 2) "Lconcat_s2") "skip if s1 empty",
  .label "Lconcat_s1_loop",
  .instr (.loadByteAt (w 6) (x 1) (x 5)),
  .instr (.storeByteAt (w 6) (x 0) (x 5)),
  .instr (.addImm (x 5) (x 5) 1),
  .instr (.compare (x 5) (x 2)),
  .instr (.branchIf .lt "Lconcat_s1_loop"),
  .blank,
  .label "Lconcat_s2",
  .remark 4 "Copy s2 after s1",
  .noted (.addReg (x 0) (x 19) (x 20)) "dest + s1_len",
  .noted (.moveImm (x 5) 0) "index",
  .noted (.branchZero (x 21) "Lconcat_done") "skip if s2 empty",
  .label "Lconcat_s2_loop",
  .instr (.loadByteAt (w 6) (x 3) (x 5)),
  .instr (.storeByteAt (w 6) (x 0) (x 5)),
  .instr (.addImm (x 5) (x 5) 1),
  .instr (.compare (x 5) (x 21)),
  .instr (.branchIf .lt "Lconcat_s2_loop"),
  .blank,
  .label "Lconcat_done",
  .noted (.move (x 0) (x 19)) "return dest ptr",
  .noted (.addReg (x 1) (x 20) (x 21)) "return total length",
  .blank,
  .instr (.popPair (x 21) (x 22)),
  .instr (.popPair (x 19) (x 20)),
  .instr (.popPair (x 29) (x 30)),
  .instr .ret,
  .blank]

def decimalRoutine : List Line := [
  .remark 0 "int_to_string: convert integer to string",
  .remark 0 "x0 = buffer, x1 = integer value",
  .remark 0 "Returns: x0 = buffer ptr, x1 = string length",
  .directive ".globl _int_to_string",
  .label "_int_to_string",
  .instr (.pushPair (x 29) (x 30)),
  .instr (.move (x 29) sp),
  .instr (.pushPair (x 19) (x 20)),
  .instr (.pushPair (x 21) (x 22)),
  .blank,
  .noted (.move (x 19) (x 0)) "save buffer start",
  .noted (.move (x 20) (x 0)) "current position",
  .noted (.move (x 2) (x 1)) "value to convert",
  .blank,
  .remark 4 "Handle negative",
  .instr (.compareImm (x 2) 0),
  .instr (.branchIf .ge "Lits_positive"),
  .instr (.negate (x 2) (x 2)),
  .instr (.moveChar (w 3) '-'),
  .instr (.storeByteStep (w 3) (x 20)),
  .blank,
  .label "Lits_positive",
  .noted (.move (x 21) (x 20)) "start of digits",
  .blank,
  .remark 4 "Generate digits in reverse",
  .instr (.moveImm (x 3) 10),
  .label "Lits_loop",
  .noted (.divide (x 4) (x 2) (x 3)) "quotient",
  .noted (.multiplySub (x 5) (x 4) (x 3) (x 2)) "remainder = x2 - (x4 * 10)",
  .instr (.addChar (w 5) (w 5) '0'),
  .instr (.storeByteStep (w 5) (x 20)),
  .instr (.move (x 2) (x 4)),
  .instr (.branchNonzero (x 2) "Lits_loop"),
  .blank,
  .remark 4 "Calculate length",
  .noted (.subReg (x 22) (x 20) (x 19)) "length",
  .blank,
  .remark 4 "Reverse digits (x21 = start, x20-1 = end)",
  .noted (.subImm (x 20) (x 20) 1) "point to last digit",
  .label "Lits_reverse",
  .instr (.compare (x 21) (x 20)),
  .instr (.branchIf .ge "Lits_done"),
  .instr (.loadByteHere (w 3) (x 21)),
  .instr (.loadByteHere (w 4) (x 20)),
  .instr (.storeByteStep (w 4) (x 21)),
  .instr (.storeByteHere (w 3) (x 20)),
  .instr (.subImm (x 20) (x 20) 1),
  .instr (.branch "Lits_reverse"),
  .blank,
  .label "Lits_done",
  .noted (.move (x 0) (x 19)) "return buffer ptr",
  .noted (.move (x 1) (x 22)) "return length",
  .blank,
  .instr (.popPair (x 21) (x 22)),
  .instr (.popPair (x 19) (x 20)),
  .instr (.popPair (x 29) (x 30)),
  .instr .ret,
  .blank]

def truthWords : List Line := [
  .directive ".data",
  .directive ".globl _str_true",
  .label "_str_true",
  .directive ".asciz \"true\"",
  .directive ".globl _str_false",
  .label "_str_false",
  .directive ".asciz \"false\"",
  .blank,
  .blank]

def supportLines : List Line :=
  supportHeader ++ equalsRoutine ++ concatRoutine ++ decimalRoutine ++ truthWords

end Rulebook.Native
