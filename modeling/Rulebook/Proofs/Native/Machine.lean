/-
A machine that runs programs for the 64-bit ARM architecture.

A program is a list of lines, and the machine is at one of them. Offsets and immediate operands
need not fit into an instruction word.
-/

import Mathlib
import Rulebook.Native.Instruction
import Rulebook.Native.Tree

open List

namespace Rulebook.Native

abbrev Word := BitVec 64

abbrev Byte := BitVec 8

/-! ### Memory -/

abbrev Memory := Word → Byte

def littleEndian (byte : Nat → Byte) : Nat → Nat
  | 0 => 0
  | count + 1 => littleEndian byte count + (byte count).toNat * 256 ^ count

/-- The number in the bytes from an address on. -/
def Memory.load (mem : Memory) (a : Word) (count : Nat) : Nat :=
  littleEndian (fun i => mem (a + BitVec.ofNat 64 i)) count

/-- Puts a number into the bytes from an address on. -/
def Memory.store (mem : Memory) (a : Word) (count value : Nat) : Memory := fun b =>
  if (b - a).toNat < count then BitVec.ofNat 8 (value / 256 ^ (b - a).toNat) else mem b

theorem littleEndian_congr {byte byte' count}
    (h : ∀ i < count, byte i = byte' i) : littleEndian byte count = littleEndian byte' count := by
  induction count with
  | zero => rfl
  | succ count ih =>
    rw [littleEndian, littleEndian, h count (by omega), ih fun i hi => h i (by omega)]

theorem littleEndian_ofNat (value count) :
    littleEndian (fun i => BitVec.ofNat 8 (value / 256 ^ i)) count = value % 256 ^ count := by
  induction count with
  | zero => simp [littleEndian, Nat.mod_one]
  | succ count ih =>
    have hsplit : value % 256 ^ (count + 1) =
        value % 256 ^ count + 256 ^ count * (value / 256 ^ count % 256) := by
      rw [pow_succ, Nat.mod_mul]
    rw [littleEndian, ih, BitVec.toNat_ofNat, hsplit, mul_comm]

namespace Memory

variable {mem : Memory} {a b : Word} {count count' value : Nat}

theorem store_of_le (h : count ≤ (b - a).toNat) : mem.store a count value b = mem b := by
  rw [store, if_neg (by omega)]

theorem load_store (h : count ≤ 2 ^ 64) :
    (mem.store a count value).load a count = value % 256 ^ count := by
  rw [← littleEndian_ofNat]
  refine littleEndian_congr fun i hi => ?_
  have hoffset : (a + BitVec.ofNat 64 i - a).toNat = i := by
    rw [BitVec.add_comm, BitVec.add_sub_cancel, BitVec.toNat_ofNat, Nat.mod_eq_of_lt (by omega)]
  rw [store, hoffset, if_pos hi]

theorem load_store_of_disjoint (h : ∀ i < count, count' ≤ (a + BitVec.ofNat 64 i - b).toNat) :
    (mem.store b count' value).load a count = mem.load a count := by
  refine littleEndian_congr fun i hi => ?_
  exact store_of_le (h i hi)

end Memory

/-! ### Flags -/

structure Flags where
  negative : Bool
  zero : Bool
  overflow : Bool

def Flags.ofSub {width : Nat} (a b : BitVec width) : Flags where
  negative := (a - b).msb
  zero := a - b = 0
  overflow := (a - b).toInt ≠ a.toInt - b.toInt

def Cond.holds (f : Flags) : Cond → Bool
  | eq => f.zero
  | ne => !f.zero
  | lt => f.negative != f.overflow
  | le => f.zero || f.negative != f.overflow
  | gt => !f.zero && f.negative == f.overflow
  | ge => f.negative == f.overflow

def Cond.orders : Cond → Int → Int → Bool
  | eq, a, b => a = b
  | ne, a, b => a ≠ b
  | lt, a, b => a < b
  | le, a, b => a ≤ b
  | gt, a, b => a > b
  | ge, a, b => a ≥ b

theorem Flags.zero_ofSub (a b : BitVec n) :
    (Flags.ofSub a b).zero = decide (a.toInt = b.toInt) := by
  simp [ofSub, BitVec.sub_eq_iff_eq_add, BitVec.toInt_inj]

theorem bmod_cases {n : Nat} (hlo : -(n : Int) < d) (hhi : d < n) :
    d.bmod n = d ∧ -(n : Int) ≤ 2 * d ∧ 2 * d < n ∨ d.bmod n = d - n ∧ n ≤ 2 * d ∨
      d.bmod n = d + n ∧ 2 * d < -(n : Int) := by
  by_cases hle : -(n : Int) ≤ 2 * d
  · grind [Int.sub_bmod_right, Int.bmod_eq_of_le]
  · grind [Int.add_bmod_right, Int.bmod_eq_of_le]

theorem Flags.negative_ofSub (a b : BitVec n) :
    ((Flags.ofSub a b).negative != (Flags.ofSub a b).overflow) = decide (a.toInt < b.toInt) := by
  have ha := a.le_two_mul_toInt
  have ha' := a.two_mul_toInt_lt
  have hb := b.le_two_mul_toInt
  have hb' := b.two_mul_toInt_lt
  have hcast : ((2 ^ n : Nat) : Int) = 2 ^ n := by push_cast; rfl
  simp only [ofSub, BitVec.msb_eq_toInt, BitVec.toInt_sub]
  rcases bmod_cases (n := 2 ^ n) (d := a.toInt - b.toInt) (by omega) (by omega) with
    ⟨hd, -⟩ | ⟨hd, hle⟩ | ⟨hd, hlt⟩
  · rw [hd]
    grind
  · rw [hd]
    grind
  · rw [hd]
    grind

/-- **Conditions after a comparison** say how the operands are ordered as signed numbers. -/
theorem Cond.holds_ofSub (c : Cond) (a b : BitVec n) :
    c.holds (Flags.ofSub a b) = c.orders a.toInt b.toInt := by
  have hzero := Flags.zero_ofSub a b
  have hlt := Flags.negative_ofSub a b
  cases c <;> simp only [holds, orders] <;> grind

/-! ### Machines -/

structure Machine where
  regs : Nat → Word
  sp : Word
  flags : Flags
  memory : Memory

def Word.low (v : Word) : Word := (v.setWidth 32).setWidth 64

namespace Machine

def read (m : Machine) : Reg → Word
  | .x n => m.regs n
  | .w n => Word.low (m.regs n)
  | .sp => m.sp

/-- Changes a register. Half a register is written with zeros in the other half. -/
def write (m : Machine) : Reg → Word → Machine
  | .x n, v => { m with regs := Function.update m.regs n v }
  | .w n, v => { m with regs := Function.update m.regs n (Word.low v) }
  | .sp, v => { m with sp := v }

@[simp]
theorem regs_write_x (m : Machine) (n k v) :
    (m.write (.x n) v).regs k = if k = n then v else m.regs k :=
  Function.update_apply m.regs n v k

@[simp]
theorem regs_write_w (m : Machine) (n k v) :
    (m.write (.w n) v).regs k = if k = n then Word.low v else m.regs k :=
  Function.update_apply m.regs n (Word.low v) k

@[simp]
theorem regs_write_sp (m : Machine) (v) : (m.write .sp v).regs = m.regs := rfl

@[simp]
theorem sp_write_x (m : Machine) (n v) : (m.write (.x n) v).sp = m.sp := rfl

@[simp]
theorem sp_write_w (m : Machine) (n v) : (m.write (.w n) v).sp = m.sp := rfl

@[simp]
theorem sp_write_sp (m : Machine) (v) : (m.write .sp v).sp = v := rfl

@[simp]
theorem memory_write (m : Machine) (r v) : (m.write r v).memory = m.memory := by
  cases r <;> rfl

end Machine

def Reg.bytes : Reg → Nat
  | w _ => 4
  | x _ | sp => 8

def Reg.compared (r : Reg) (u v : Word) : Flags :=
  match r with
  | w _ => .ofSub (u.setWidth 32) (v.setWidth 32)
  | x _ | sp => .ofSub u v

/-- What an instruction does to registers, flags and memory, where the data of a program has the
addresses `symbols`. -/
def Instr.effect (symbols : String → Word) (m : Machine) : Instr → Machine
  | pushPair a b =>
    { m with
      sp := m.sp - 16
      memory := (m.memory.store (m.sp - 16) 8 (m.read a).toNat).store (m.sp - 8) 8
        (m.read b).toNat }
  | popPair a b =>
    ((m.write a (.ofNat 64 (m.memory.load m.sp 8))).write b
      (.ofNat 64 (m.memory.load (m.sp + 8) 8))).write .sp (m.sp + 16)
  | move d s => m.write d (m.read s)
  | moveImm d v => m.write d (.ofNat 64 v)
  | moveChar d c => m.write d (.ofNat 64 c.toNat)
  | moveKeep d v shift =>
    m.write d (m.read d &&& ~~~(0xffff#64 <<< shift) ||| BitVec.ofNat 64 v <<< shift)
  | addImm d a v => m.write d (m.read a + .ofNat 64 v)
  | addChar d a c => m.write d (m.read a + .ofNat 64 c.toNat)
  | addReg d a b => m.write d (m.read a + m.read b)
  | subImm d a v => m.write d (m.read a - .ofNat 64 v)
  | subReg d a b => m.write d (m.read a - m.read b)
  | negate d s => m.write d (-m.read s)
  | divide d a b => m.write d (m.read a / m.read b)
  | multiplySub d a b c => m.write d (m.read c - m.read a * m.read b)
  | flip d s => m.write d (m.read s ^^^ 1)
  | page d label => m.write d (symbols label &&& ~~~0xfff)
  | pageOffset d s label => m.write d (m.read s + (symbols label &&& 0xfff))
  | load d base k => m.write d (.ofNat 64 (m.memory.load (m.read base + .ofNat 64 k) d.bytes))
  | loadByte d base k => m.write d (.ofNat 64 (m.memory.load (m.read base + .ofNat 64 k) 1))
  | loadByteAt d base i => m.write d (.ofNat 64 (m.memory.load (m.read base + m.read i) 1))
  | loadByteHere d base => m.write d (.ofNat 64 (m.memory.load (m.read base) 1))
  | store s base k =>
    { m with memory := m.memory.store (m.read base + .ofNat 64 k) s.bytes (m.read s).toNat }
  | storeByteAt s base i =>
    { m with memory := m.memory.store (m.read base + m.read i) 1 (m.read s).toNat }
  | storeByteHere s base => { m with memory := m.memory.store (m.read base) 1 (m.read s).toNat }
  | storeByteStep s base =>
    { m with memory := m.memory.store (m.read base) 1 (m.read s).toNat }.write base
      (m.read base + 1)
  | compare a b => { m with flags := a.compared (m.read a) (m.read b) }
  | compareImm a v => { m with flags := a.compared (m.read a) (.ofNat 64 v) }
  | setIf d c => m.write d (if c.holds m.flags then 1 else 0)
  | branch _ | branchIf _ _ | branchZero _ _ | branchNonzero _ _ | call _ | ret => m

/-! A pair of registers is taken from the stack. -/

section

variable (symbols : String → Word) (m : Machine) (a b n : Nat)

theorem sp_popPair : ((Instr.popPair (.x a) (.x b)).effect symbols m).sp = m.sp + 16 := rfl

theorem memory_popPair : ((Instr.popPair (.x a) (.x b)).effect symbols m).memory = m.memory := rfl

theorem regs_popPair : ((Instr.popPair (.x a) (.x b)).effect symbols m).regs n =
    if n = b then .ofNat 64 (m.memory.load (m.sp + 8) 8)
    else if n = a then .ofNat 64 (m.memory.load m.sp 8) else m.regs n := by
  rw [Instr.effect, Machine.regs_write_sp, Machine.regs_write_x, Machine.regs_write_x]

end

/-- How a program goes on after an instruction: at the next line, at a label, in a function that
comes back, or where the call was. -/
inductive Flow where
  | next
  | jump (label : String)
  | call (label : String)
  | back
deriving DecidableEq

def Instr.flow (m : Machine) : Instr → Flow
  | branch l => .jump l
  | branchIf c l => if c.holds m.flags then .jump l else .next
  | branchZero s l => if m.read s = 0 then .jump l else .next
  | branchNonzero s l => if m.read s = 0 then .next else .jump l
  | call l => .call l
  | ret => .back
  | _ => .next

/-! ### Programs -/

def Line.instr? : Line → Option Instr
  | instr i | noted i _ => some i
  | label _ | directive _ | remark _ _ | blank => none

def Line.label? : Line → Option String
  | label name => some name
  | instr _ | noted _ _ | directive _ | remark _ _ | blank => none

def labels (lines : List Line) : List String := lines.filterMap Line.label?

structure Program where
  lines : List Line
  symbols : String → Word

structure Config where
  machine : Machine
  place : Nat

namespace Program

def placeOf? (p : Program) (label : String) : Option Nat := p.lines.idxOf? (.label label)

/-- One step of a program; there is none behind its last line and to labels it does not give. A
call keeps the line to come back to in `x30`. -/
def step (p : Program) (c : Config) : Option Config := do
  let line ← p.lines[c.place]?
  match line.instr? with
  | none => some { c with place := c.place + 1 }
  | some i =>
    let m := i.effect p.symbols c.machine
    match i.flow c.machine with
    | .next => some ⟨m, c.place + 1⟩
    | .jump l => (p.placeOf? l).map fun k => ⟨m, k⟩
    | .call l => (p.placeOf? l).map fun k => ⟨m.write (.x 30) (.ofNat 64 (c.place + 1)), k⟩
    | .back => some ⟨m, (m.read (.x 30)).toNat⟩

/-- Some number of steps leads from one configuration to another. -/
def Reaches (p : Program) : Config → Config → Prop :=
  Relation.ReflTransGen fun c c' => p.step c = some c'

/-- Lines stand in a program from a place on. -/
def At (p : Program) (k : Nat) (ls : List Line) : Prop := ls <+: p.lines.drop k

variable {p : Program} {k : Nat} {m : Machine}

@[simp]
theorem at_nil : p.At k [] := nil_prefix

theorem at_cons : p.At k (l :: ls) ↔ p.lines[k]? = some l ∧ p.At (k + 1) ls := by
  unfold At
  rw [← head?_drop, ← tail_drop]
  cases p.lines.drop k with
  | nil => simp
  | cons l' ls' => simp [eq_comm]

theorem at_append : p.At k (ls ++ ls') ↔ p.At k ls ∧ p.At (k + ls.length) ls' := by
  induction ls generalizing k with
  | nil => simp
  | cons l ls ih =>
    rw [cons_append, at_cons, at_cons, ih, and_assoc, length_cons,
      show k + 1 + ls.length = k + (ls.length + 1) by omega]

theorem Reaches.trans (h : p.Reaches c c') (h' : p.Reaches c' c'') : p.Reaches c c'' :=
  Relation.ReflTransGen.trans h h'

theorem reaches_next (h : p.lines[k]? = some l) (hl : l.instr? = none) :
    p.Reaches ⟨m, k⟩ ⟨m, k + 1⟩ :=
  .single (by simp [step, h, hl])

theorem reaches_effect (h : p.lines[k]? = some l) (hl : l.instr? = some i)
    (hi : i.flow m = .next) : p.Reaches ⟨m, k⟩ ⟨i.effect p.symbols m, k + 1⟩ :=
  .single (by simp [step, h, hl, hi])

theorem reaches_jump
    (h : p.lines[k]? = some l) (hl : l.instr? = some i) (hi : i.flow m = .jump label)
    (hlabel : p.placeOf? label = some k') : p.Reaches ⟨m, k⟩ ⟨i.effect p.symbols m, k'⟩ :=
  .single (by simp [step, h, hl, hi, hlabel])

/-- The effect of instructions one after another. -/
def run (p : Program) (is : List Instr) (m : Machine) : Machine :=
  is.foldl (fun m i => i.effect p.symbols m) m

@[simp]
theorem run_nil (p : Program) (m) : p.run [] m = m := rfl

@[simp]
theorem run_cons (p : Program) (i is m) : p.run (i :: is) m = p.run is (i.effect p.symbols m) := rfl

/-- **Blocks.** Instructions that do not branch run from the first line to the line after them. -/
theorem reaches_lines (h : p.At k ls) (his : ∀ i ∈ ls.filterMap Line.instr?, ∀ m, i.flow m = .next) :
    p.Reaches ⟨m, k⟩ ⟨p.run (ls.filterMap Line.instr?) m, k + ls.length⟩ := by
  induction ls generalizing k m with
  | nil => exact .refl
  | cons l ls ih =>
    obtain ⟨hl, hrest⟩ := at_cons.mp h
    rw [length_cons, Nat.add_comm ls.length 1, ← Nat.add_assoc]
    cases hi : l.instr? with
    | none =>
      rw [filterMap_cons_none hi] at his ⊢
      exact (reaches_next hl hi).trans (ih hrest his)
    | some i =>
      rw [filterMap_cons_some hi] at his ⊢
      exact (reaches_effect hl hi (his i (.head _) m)).trans
        (ih hrest fun j hj => his j (mem_cons_of_mem i hj))

theorem reaches_code (h : p.At k (is.map .instr)) (hnext : ∀ i ∈ is, ∀ m, i.flow m = .next) :
    p.Reaches ⟨m, k⟩ ⟨p.run is m, k + (is.map Line.instr).length⟩ := by
  have hinstrs : (is.map Line.instr).filterMap Line.instr? = is := by
    rw [filterMap_map]
    exact filterMap_some
  have hreach := reaches_lines (m := m) h (hinstrs.symm ▸ hnext)
  rwa [hinstrs] at hreach

/-- **Branches.** Where no label is given twice, a label has the line that gives it. -/
theorem placeOf?_of_at (hp : (labels p.lines).Nodup)
    (h : p.lines[k]? = some (.label l)) : p.placeOf? l = some k := by
  obtain ⟨hk, hline⟩ := List.getElem?_eq_some_iff.mp h
  refine idxOf?_eq_some_iff.mpr ⟨hk, hline, fun j hj hj' => ?_⟩
  have hsplit : p.lines = p.lines.take k ++ p.lines.drop k := (take_append_drop k _).symm
  have hbefore : l ∈ labels (p.lines.take k) := by
    refine mem_filterMap.mpr ⟨.label l, ?_, rfl⟩
    exact mem_take_iff_getElem.mpr ⟨j, by omega, hj'⟩
  have hbehind : l ∈ labels (p.lines.drop k) := by
    refine mem_filterMap.mpr ⟨.label l, ?_, rfl⟩
    rw [drop_eq_getElem_cons hk, hline]
    exact (.head _)
  rw [hsplit, labels, filterMap_append, nodup_append] at hp
  exact hp.2.2 l hbefore l hbehind rfl

end Program

/-!
### What typed trees stand for

A tree over truth values and integers has a value on the bytes of a record. Conjunctions and
disjunctions stop at the first operand that decides them.
-/

open Formula Native.Tree

inductive Datum where
  | truth (b : Bool)
  | number (n : Int)
deriving DecidableEq, Repr

namespace Datum

def type : Datum → Datatype
  | truth _ => .boolean
  | number _ => .integer

def toInt : Datum → Int
  | truth b => if b then 1 else 0
  | number n => n

def word (v : Datum) : Word := BitVec.ofInt 64 v.toInt

/-- The number of a value is one of 64 bits with sign. -/
def Fits (v : Datum) : Prop := -2 ^ 63 ≤ v.toInt ∧ v.toInt < 2 ^ 63

instance (v : Datum) : Decidable v.Fits := inferInstanceAs (Decidable (_ ∧ _))

end Datum

/-- The bytes of a record, counted from its start. -/
structure Image where
  size : Nat
  byte : Nat → Byte

def Image.number (r : Image) (offset : Nat) : Int :=
  (BitVec.ofNat 64 (littleEndian (fun i => r.byte (offset + i)) 8)).toInt

def relates? (a b : Int) : Relation → Option Bool
  | .eq => some (a = b)
  | .ne => some (a ≠ b)
  | .lt => some (a < b)
  | .le => some (a ≤ b)
  | .gt => some (a > b)
  | .ge => some (a ≥ b)
  | .other _ => none

mutual

/-- The value of a tree on a record; trees with texts have none here. -/
def Tree.value (r : Image) : Tree → Option Datum
  | .loadBool offset _ => some (.truth (r.byte offset ≠ 0))
  | .loadInt offset _ => some (.number (r.number offset))
  | .bool b => some (.truth b)
  | .int n => some (.number n)
  | .not e =>
    match e.value r with
    | some (.truth b) => some (.truth !b)
    | _ => none
  | .and es => chainValue r false es
  | .or es => chainValue r true es
  | .compare op left right => do
    let a ← left.value r
    let b ← right.value r
    return .truth (← relates? a.toInt b.toInt op)
  | .ite c yes no =>
    match c.value r with
    | some (.truth true) => yes.value r
    | some (.truth false) => no.value r
    | _ => none
  | .loadText _ _ | .text _ _ | .misfit _ _ | .concat _ => none

def Tree.chainValue (r : Image) (stop : Bool) : List Tree → Option Datum
  | [] => some (.truth !stop)
  | e :: es =>
    match e.value r with
    | some (.truth b) => if b = stop then some (.truth stop) else chainValue r stop es
    | _ => none

end

def Tree.IsLeaf : Tree → Prop
  | loadBool _ _ | loadInt _ _ | bool _ | int _ => True
  | _ => False

/-- **Trees over truth values and integers** that suit a record, with their datatypes. Loads stay
within the record, a truth value is loaded from a byte that is zero or one, and comparisons have a
load or a literal to the right. -/
inductive Suits (r : Image) : Datatype → Tree → Prop
  | loadBool {offset : Nat} {field : String} :
      offset < r.size → r.byte offset = 0 ∨ r.byte offset = 1 →
        Suits r .boolean (.loadBool offset field)
  | loadInt {offset : Nat} {field : String} :
      offset + 8 ≤ r.size → Suits r .integer (.loadInt offset field)
  | bool {b : Bool} : Suits r .boolean (.bool b)
  | int {n : Int} : 0 ≤ n → n < 2 ^ 63 → Suits r .integer (.int n)
  | not {e : Tree} : Suits r .boolean e → Suits r .boolean (.not e)
  | and {es : List Tree} : (∀ e ∈ es, Suits r .boolean e) → Suits r .boolean (.and es)
  | or {es : List Tree} : (∀ e ∈ es, Suits r .boolean e) → Suits r .boolean (.or es)
  | compare {op : Relation} {d : Datatype} {left right : Tree} :
      (∀ symbol, op ≠ .other symbol) → Suits r d left → Suits r d right → right.IsLeaf →
        Suits r .boolean (.compare op left right)
  | ite {d : Datatype} {c yes no : Tree} :
      Suits r .boolean c → Suits r d yes → Suits r d no → Suits r d (.ite c yes no)

section

variable {r : Image} {d : Datatype} {t : Tree}

theorem Suits.type_eq (h : Suits r d t) : t.type = d := by
  induction h with
  | ite _ _ _ _ ih _ => exact ih
  | _ => rfl

theorem Datum.fits_truth (b) : (truth b).Fits := by
  cases b <;> decide

theorem Image.fits_number (r : Image) (offset) : (Datum.number (r.number offset)).Fits :=
  ⟨BitVec.le_toInt _, BitVec.toInt_lt⟩

theorem Datum.exists_truth {v : Datum} (h : v.type = .boolean) : ∃ b, v = .truth b := by
  cases v with
  | truth b => exact ⟨b, rfl⟩
  | number n => cases h

theorem exists_truth_value (h : ∃ v, t.value r = some v ∧ v.type = .boolean ∧ v.Fits) :
    ∃ b, t.value r = some (.truth b) := by
  obtain ⟨v, hv, htype, -⟩ := h
  obtain ⟨b, rfl⟩ := Datum.exists_truth htype
  exact ⟨b, hv⟩

theorem exists_chainValue (h : ∀ e ∈ es, ∃ b, e.value r = some (.truth b))
    (stop) : ∃ b, chainValue r stop es = some (.truth b) := by
  induction es with
  | nil => exact ⟨!stop, by rw [chainValue]⟩
  | cons e es ih =>
    obtain ⟨b, hb⟩ := h e (.head _)
    obtain ⟨b', hb'⟩ := ih fun e' he' => h e' (List.mem_cons_of_mem e he')
    simp only [chainValue, hb]
    split
    · exact ⟨stop, rfl⟩
    · exact ⟨b', hb'⟩

theorem exists_relates? (h : ∀ symbol, op ≠ .other symbol) (a b) :
    ∃ c, relates? a b op = some c := by
  cases op with
  | other symbol => exact absurd rfl (h symbol)
  | _ => exact ⟨_, rfl⟩

/-- **Trees that suit a record have values**, of their datatype and fit for a register. -/
theorem Suits.exists_value (h : Suits r d t) : ∃ v, t.value r = some v ∧ v.type = d ∧ v.Fits := by
  induction h with
  | @loadBool offset field _ _ =>
    exact ⟨_, by rw [value], rfl, Datum.fits_truth _⟩
  | @loadInt offset field _ => exact ⟨_, by rw [value], rfl, r.fits_number offset⟩
  | @bool b => exact ⟨_, by rw [value], rfl, Datum.fits_truth b⟩
  | @int n hlo hhi =>
    refine ⟨.number n, by rw [value], rfl, ?_, hhi⟩
    exact le_trans (by decide) hlo
  | @not e _ ih =>
    obtain ⟨b, hv⟩ := exists_truth_value ih
    exact ⟨.truth !b, by simp [value, hv], rfl, Datum.fits_truth _⟩
  | @and es _ ih =>
    obtain ⟨b, hb⟩ := exists_chainValue (fun e he => exists_truth_value (ih e he)) false
    exact ⟨.truth b, by rw [value, hb], rfl, Datum.fits_truth b⟩
  | @or es _ ih =>
    obtain ⟨b, hb⟩ := exists_chainValue (fun e he => exists_truth_value (ih e he)) true
    exact ⟨.truth b, by rw [value, hb], rfl, Datum.fits_truth b⟩
  | @compare op d left right hop _ _ _ ihleft ihright =>
    obtain ⟨v, hv, -⟩ := ihleft
    obtain ⟨w, hw, -⟩ := ihright
    obtain ⟨b, hb⟩ := exists_relates? hop v.toInt w.toInt
    exact ⟨.truth b, by simp [value, hv, hw, hb], rfl, Datum.fits_truth b⟩
  | @ite d c yes no _ _ _ ihc ihyes ihno =>
    obtain ⟨b, hv⟩ := exists_truth_value ihc
    cases b with
    | true =>
      obtain ⟨w, hw, hw'⟩ := ihyes
      exact ⟨w, by simp [value, hv, hw], hw'⟩
    | false =>
      obtain ⟨w, hw, hw'⟩ := ihno
      exact ⟨w, by simp [value, hv, hw], hw'⟩

theorem Suits.exists_value_boolean (h : Suits r .boolean t) : ∃ b, t.value r = some (.truth b) :=
  exists_truth_value h.exists_value

end

end Rulebook.Native
