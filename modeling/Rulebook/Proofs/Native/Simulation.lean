/-
The code of a tree computes its value.

The code leaves the value in `x0` and changes no memory and no register but `x0` and `x20`. A load
or a literal leaves `x20` alone too, so that a comparison still has its left operand.
-/

import Rulebook.Proofs.Native.Machine
import Rulebook.Proofs.Native.Selection

open List

namespace Rulebook.Native

open Formula Reg Program Instr Machine Datum

variable {scratch : List Nat} {n : Nat}

/-! ### Blocks of code -/

/-- Two states that differ in flags and some registers at most. -/
structure Machine.Keeps (scratch : List Nat) (m m' : Machine) : Prop where
  regs : ∀ n, n ∉ scratch → m'.regs n = m.regs n
  sp : m'.sp = m.sp
  memory : m'.memory = m.memory

def Machine.Holds (m : Machine) (r : Image) (a : Word) : Prop :=
  ∀ i < r.size, m.memory (a + .ofNat 64 i) = r.byte i

def Machine.Sees (m : Machine) (r : Image) : Prop := m.Holds r (m.regs 19)

namespace Machine

variable {m m' m'' : Machine} {scratch scratch' : List Nat} {r : Image}

theorem Keeps.refl (m : Machine) : m.Keeps scratch m := ⟨fun _ _ => rfl, rfl, rfl⟩

theorem Keeps.trans (h : m.Keeps scratch m') (h' : m'.Keeps scratch m'') : m.Keeps scratch m'' where
  regs n hn := (h'.regs n hn).trans (h.regs n hn)
  sp := h'.sp.trans h.sp
  memory := h'.memory.trans h.memory

theorem Keeps.mono (h : m.Keeps scratch m') (hsub : ∀ n ∈ scratch, n ∈ scratch') :
    m.Keeps scratch' m' :=
  ⟨fun n hn => h.regs n fun hmem => hn (hsub n hmem), h.sp, h.memory⟩

theorem Keeps.sees (h : m.Keeps scratch m') (hscratch : 19 ∉ scratch) (hm : m.Sees r) :
    m'.Sees r := by
  intro i hi
  rw [h.memory, h.regs 19 hscratch, hm i hi]

end Machine

/-- **Code computes a value**, wherever it stands and whatever the state of the machine. -/
def Runs (r : Image) (scratch : List Nat) (ls : List Line) (v : Datum) : Prop :=
  ∀ p : Program, (labels p.lines).Nodup → ∀ k, p.At k ls → ∀ m : Machine, m.Sees r →
    ∃ m', p.Reaches ⟨m, k⟩ ⟨m', k + ls.length⟩ ∧ m'.regs 0 = v.word ∧ m.Keeps scratch m'

theorem Runs.mono
    (h : Runs r scratch ls v) (hsub : ∀ n ∈ scratch, n ∈ scratch') : Runs r scratch' ls v := by
  intro p hp k hat m hm
  obtain ⟨m', hreach, hvalue, hkeeps⟩ := h p hp k hat m hm
  exact ⟨m', hreach, hvalue, hkeeps.mono hsub⟩

def Linear (is : List Instr) : Prop := ∀ i ∈ is, ∀ m, i.flow m = .next

theorem linear_nil : Linear [] := by simp [Linear]

theorem linear_cons (hi : ∀ m, i.flow m = .next) (his : Linear is) : Linear (i :: is) := by
  intro j hj
  rcases mem_cons.mp hj with rfl | hj
  · exact hi
  · exact his j hj

section

variable {r : Image} {scratch : List Nat} {v w : Datum}

theorem runs_code (hnext : Linear is) (heffect : ∀ (p : Program) (m), m.Sees r →
      (p.run is m).regs 0 = v.word ∧ m.Keeps scratch (p.run is m)) :
    Runs r scratch (code is) v := by
  intro p _ k hat m hm
  exact ⟨p.run is m, reaches_code hat hnext, heffect p m hm⟩

end

/-! ### Values in registers -/

theorem low_word_truth (b) : Word.low (truth b).word = (truth b).word := by
  cases b <;> decide

theorem word_truth_eq_zero (b) : (truth b).word = 0 ↔ b = false := by
  cases b <;> decide

theorem toInt_word {v : Datum} (h : v.Fits) : v.word.toInt = v.toInt := by
  rw [word, BitVec.toInt_ofInt]
  exact Int.bmod_eq_of_le (by have := h.1; omega) (by have := h.2; omega)

/-! ### Loads and literals -/

theorem setBits_eq_add (hv : v < 2 ^ shift) (hh : h < 65536) (hshift : shift + 16 ≤ 64) :
    BitVec.ofNat 64 v &&& ~~~(0xffff#64 <<< shift) ||| BitVec.ofNat 64 h <<< shift =
      BitVec.ofNat 64 (v + h * 2 ^ shift) := by
  have hlow : BitVec.ofNat 64 v &&& ~~~(0xffff#64 <<< shift) = BitVec.ofNat 64 v := by
    refine BitVec.eq_of_getLsbD_eq fun i hi => ?_
    have hbit : shift ≤ i → v.testBit i = false := fun hle =>
      Nat.testBit_lt_two_pow (lt_of_lt_of_le hv (Nat.pow_le_pow_right (by decide) hle))
    by_cases hle : shift ≤ i
    · simp [BitVec.getLsbD_ofNat, hbit hle]
    · simp
      omega
  have hpow : 2 ^ shift * 65536 ≤ 2 ^ 64 := by
    rw [show 65536 = 2 ^ 16 from rfl, ← pow_add]
    exact Nat.pow_le_pow_right (by decide) hshift
  have hhigh : h * 2 ^ shift + 2 ^ shift ≤ 2 ^ 64 := by nlinarith
  rw [hlow]
  refine BitVec.eq_of_toNat_eq ?_
  rw [BitVec.toNat_or, BitVec.toNat_shiftLeft, BitVec.toNat_ofNat, BitVec.toNat_ofNat,
    BitVec.toNat_ofNat, Nat.mod_eq_of_lt (by omega), Nat.mod_eq_of_lt (a := h) (by omega),
    Nat.mod_eq_of_lt (a := v + h * 2 ^ shift) (by omega), Nat.mod_eq_of_lt (by omega), Nat.or_comm,
    ← Nat.shiftLeft_eq, ← Nat.shiftLeft_add_eq_or_of_lt hv, Nat.add_comm]

theorem effect_moveKeep (symbols) (m : Machine)
    (hv : v < 2 ^ shift) (hh : h < 65536) (hshift : shift + 16 ≤ 64) :
    (moveKeep (x 0) h shift).effect symbols (m.write (x 0) (.ofNat 64 v)) =
      m.write (x 0) (.ofNat 64 (v + h * 2 ^ shift)) := by
  simp [Instr.effect, Machine.read, Machine.write, setBits_eq_add hv hh hshift]

theorem halfWord_natCast (n shift : Nat) : halfWord n shift = n / 2 ^ shift % 65536 := by
  rfl

theorem run_constant (p : Program) (m) (hn : n < 2 ^ 63) :
    p.run (constant n) m = m.write (x 0) (BitVec.ofInt 64 n) := by
  rw [constant]
  by_cases hsmall : n < 65536
  · rw [if_pos (by simpa using hsmall)]
    rfl
  · rw [if_neg (by simpa using hsmall), if_pos (by omega), halfWord_natCast, halfWord_natCast,
      halfWord_natCast, halfWord_natCast]
    have hmove : effect p.symbols m (.moveImm (x 0) (n / 2 ^ 0 % 65536)) =
        m.write (x 0) (.ofNat 64 (n % 65536)) := by
      rw [pow_zero, Nat.div_one]
      rfl
    by_cases hmid : n ≤ 0xffffffff
    · grind [singleton_append, run_cons, run_nil, effect_moveKeep]
    · rw [if_pos (by omega)]
      simp only [cons_append, nil_append, run_cons, run_nil, hmove]
      rw [effect_moveKeep _ _ (by omega) (by omega) (by omega),
        effect_moveKeep _ _ (by omega) (by omega) (by omega),
        effect_moveKeep _ _ (by omega) (by omega) (by omega)]
      congr 2
      omega

theorem linear_constant (n) : Linear (constant n) := by
  unfold constant
  split
  · simp [Linear, flow]
  · split <;> split <;> simp [Linear, flow]

theorem Machine.keeps_write (m : Machine) (h : n ∈ scratch) (v) :
    m.Keeps scratch (m.write (x n) v) := by
  refine ⟨fun k hk => ?_, rfl, rfl⟩
  have hne : k ≠ n := fun heq => hk (heq ▸ h)
  rw [regs_write_x, if_neg hne]

theorem Machine.keeps_write_low (m : Machine) (h : n ∈ scratch) (v) :
    m.Keeps scratch (m.write (w n) v) :=
  m.keeps_write h (Word.low v)

section

variable {r : Image}

theorem regs_moveTruth (symbols m) (b : Bool) :
    ((moveImm (w 0) (if b then 1 else 0)).effect symbols m).regs 0 = (truth b).word := by
  rw [effect, regs_write_w, if_pos rfl]
  cases b <;> decide

theorem runs_bool (b : Bool) : Runs r [0] (code [.moveImm (w 0) (if b then 1 else 0)]) (.truth b) :=
  runs_code (linear_cons (fun _ => rfl) linear_nil) fun p m _ =>
    ⟨regs_moveTruth p.symbols m b, m.keeps_write_low (by simp) _⟩

theorem runs_int {n} (hlo : 0 ≤ n) (hhi : n < 2 ^ 63) :
    Runs r [0] (code (constant n)) (.number n) := by
  obtain ⟨n, rfl⟩ := Int.eq_ofNat_of_zero_le hlo
  refine runs_code (linear_constant n) fun p m _ => ?_
  rw [run_constant p m (by omega)]
  exact ⟨by rw [regs_write_x]; rfl, m.keeps_write (by simp) _⟩

theorem runs_loadBool (hsize : offset < r.size) (hbyte : r.byte offset = 0 ∨ r.byte offset = 1) :
    Runs r [0] (code [.loadByte (w 0) (x 19) offset]) (.truth (r.byte offset ≠ 0)) := by
  refine runs_code (linear_cons (fun _ => rfl) linear_nil) fun p m hm => ⟨?_, ?_⟩
  · have hload : m.memory.load (m.regs 19 + .ofNat 64 offset) 1 = (r.byte offset).toNat := by
      rw [Memory.load, littleEndian, littleEndian, ← hm offset hsize]
      simp
    simp only [Program.run_cons, Program.run_nil, Instr.effect, Machine.read,
      regs_write_w, if_true, hload]
    rcases hbyte with hbyte | hbyte <;> rw [hbyte] <;> decide
  · exact m.keeps_write_low (by simp) _

theorem runs_loadInt (hsize : offset + 8 ≤ r.size) :
    Runs r [0] (code [.load (x 0) (x 19) offset]) (.number (r.number offset)) := by
  refine runs_code (linear_cons (fun _ => rfl) linear_nil) fun p m hm => ⟨?_, ?_⟩
  · have hload : m.memory.load (m.regs 19 + .ofNat 64 offset) 8 =
        littleEndian (fun i => r.byte (offset + i)) 8 := by
      refine littleEndian_congr fun i hi => ?_
      rw [BitVec.add_assoc, ← BitVec.ofNat_add, hm (offset + i) (by omega)]
    simp only [Program.run_cons, Program.run_nil, Instr.effect, Machine.read,
      regs_write_x, if_true, Reg.bytes, hload]
    rw [word, toInt, Image.number, BitVec.ofInt_toInt]
  · exact m.keeps_write (by simp) _

end

/-! ### Negation and comparison -/

section

variable {b : Bool} {m : Machine} {v : Datum} {op : Relation}

variable {r : Image} {ls ls' : List Line}

theorem Runs.negate (h : Runs r [0, 20] ls (.truth b)) :
    Runs r [0, 20] (ls ++ code [.flip (w 0) (w 0)]) (.truth !b) := by
  intro p hp k hat m hm
  obtain ⟨hls, hflip⟩ := at_append.mp hat
  obtain ⟨m1, hreach, hvalue, hkeeps⟩ := h p hp k hls m hm
  have hstep := reaches_code (m := m1) hflip (linear_cons (fun _ => rfl) linear_nil)
  refine ⟨m1.write (w 0) (m1.read (w 0) ^^^ 1), ?_, ?_,
    hkeeps.trans (m1.keeps_write_low (by simp) _)⟩
  · rw [length_append]
    exact hreach.trans hstep
  · simp only [Machine.regs_write_w, Machine.read, hvalue]
    cases b <;> decide

theorem relates?_eq (op a b) : relates? a b op = (condOf op).map fun c => c.orders a b := by
  cases op <;> rfl

theorem run_move (p : Program) (hm : m.regs src = v.word) (dst) :
    (p.run [.move (x dst) (x src)] m).regs dst = v.word ∧
      m.Keeps [dst] (p.run [.move (x dst) (x src)] m) := by
  refine ⟨?_, m.keeps_write (by simp) _⟩
  simp [Instr.effect, Machine.read, hm]

theorem run_move_truth (p : Program) (hm : m.regs src = (truth b).word) (dst) :
    (p.run [.move (w dst) (w src)] m).regs dst = (truth b).word ∧
      m.Keeps [dst] (p.run [.move (w dst) (w src)] m) := by
  refine ⟨?_, m.keeps_write_low (by simp) _⟩
  simp [Instr.effect, Machine.read, hm, low_word_truth]

theorem run_keepLeft (p : Program) (hm : m.regs 0 = v.word) :
    (p.run (keepLeft v.type) m).regs 20 = v.word ∧ m.Keeps [20] (p.run (keepLeft v.type) m) := by
  cases v with
  | truth b => exact run_move_truth p hm 20
  | number n => exact run_move p hm 20

theorem linear_keepLeft (d) : Linear (keepLeft d) := by
  cases d <;> simp [Linear, keepLeft, flow]

theorem toInt_setWidth_word_truth (b) :
    ((truth b).word.setWidth 32).toInt = (truth b).toInt := by
  cases b <;> decide

theorem run_compare_setIf (p : Program) {a b c ordered}
    (hholds : c.holds (a.compared (m.read a) (m.read b)) = ordered) :
    (p.run [.compare a b, .setIf (w 0) c] m).regs 0 = (truth ordered).word ∧
      m.Keeps [0] (p.run [.compare a b, .setIf (w 0) c] m) := by
  have hword : ∀ b : Bool, Word.low (if b then 1 else 0) = (truth b).word := by decide
  have hflags : m.Keeps [0] { m with flags := a.compared (m.read a) (m.read b) } :=
    ⟨fun _ _ => rfl, rfl, rfl⟩
  simp only [run_cons, run_nil, effect, hholds]
  refine ⟨?_, hflags.trans (keeps_write_low _ (by simp) _)⟩
  rw [regs_write_w, if_pos rfl, hword]

theorem run_compareOperands (p : Program) {c} {u : Datum} (hop : condOf op = some c)
    (htype : u.type = v.type) (hv : v.Fits) (hu : u.Fits) (hleft : m.regs 20 = v.word)
    (hright : m.regs 0 = u.word) : (p.run (compareOperands op v.type u.type) m).regs 0 =
        (truth (c.orders v.toInt u.toInt)).word ∧
      m.Keeps [0] (p.run (compareOperands op v.type u.type) m) := by
  cases v with
  | truth b =>
    obtain ⟨b', rfl⟩ := exists_truth htype
    have hcode : compareOperands op (truth b).type (truth b').type =
        [.compare (w 20) (w 0), .setIf (w 0) c] := by
      simp [compareOperands, type, hop]
    rw [hcode]
    refine run_compare_setIf p ?_
    rw [Machine.read, Machine.read, hleft, hright, low_word_truth, low_word_truth, Reg.compared,
      Cond.holds_ofSub, toInt_setWidth_word_truth, toInt_setWidth_word_truth]
  | number n =>
    have hcode : compareOperands op (number n).type u.type =
        [.compare (x 20) (x 0), .setIf (w 0) c] := by
      rw [htype]
      simp [compareOperands, type, hop]
    rw [hcode]
    refine run_compare_setIf p ?_
    rw [Machine.read, Machine.read, hleft, hright, Reg.compared, Cond.holds_ofSub, toInt_word hv,
      toInt_word hu]

theorem linear_compareOperands (hd : d ≠ .text) : Linear (compareOperands op d d) := by
  cases d with
  | text => exact absurd rfl hd
  | boolean => cases op <;> simp [Linear, compareOperands, flow]
  | integer => cases op <;> simp [Linear, compareOperands, flow]

/-- **Comparisons.** The left operand waits in `x20`, which the code of the right one keeps. -/
theorem Runs.relate {u} (hleft : Runs r [0, 20] ls v) (hright : Runs r [0] ls' u)
    (htype : u.type = v.type) (hv : v.Fits) (hu : u.Fits)
    (hop : relates? v.toInt u.toInt op = some b) :
    Runs r [0, 20] (ls ++ code (keepLeft v.type) ++ ls' ++ code (compareOperands op v.type u.type))
      (.truth b) := by
  intro p hp k hat m hm
  rw [relates?_eq] at hop
  obtain ⟨c, hc, rfl⟩ := Option.map_eq_some_iff.mp hop
  simp only [append_assoc] at hat
  obtain ⟨hat, hrest⟩ := at_append.mp hat
  obtain ⟨hatKeep, hrest⟩ := at_append.mp hrest
  obtain ⟨hat', hatCompare⟩ := at_append.mp hrest
  obtain ⟨m1, hreach1, hvalue1, hkeeps1⟩ := hleft p hp k hat m hm
  have hreach2 := reaches_code (m := m1) hatKeep (linear_keepLeft v.type)
  obtain ⟨hkept, hkeeps2⟩ := run_keepLeft p hvalue1
  have hsees := hkeeps2.sees (by decide) (hkeeps1.sees (by decide) hm)
  obtain ⟨m3, hreach3, hvalue3, hkeeps3⟩ := hright p hp _ hat' _ hsees
  have hleft3 : m3.regs 20 = v.word := by rw [hkeeps3.regs 20 (by decide), hkept]
  have hlinear : Linear (compareOperands op v.type u.type) := by
    rw [htype]
    exact linear_compareOperands (by cases v <;> simp [type])
  have hreach4 := reaches_code (m := m3) hatCompare hlinear
  obtain ⟨hvalue4, hkeeps4⟩ := run_compareOperands p hc htype hv hu hleft3 hvalue3
  refine ⟨_, ?_, hvalue4, ?_⟩
  · simp only [length_append, ← Nat.add_assoc]
    exact ((hreach1.trans hreach2).trans hreach3).trans hreach4
  · exact ((hkeeps1.trans (hkeeps2.mono (by simp))).trans (hkeeps3.mono (by simp))).trans
      (hkeeps4.mono (by simp))

end

/-! ### Conjunction, disjunction and choice -/

section

variable {b : Bool} {m : Machine} {v : Datum}

variable {r : Image} {ls ls' : List Line}

def branchOn (stop : Bool) (label : String) : Instr :=
  if stop then .branchNonzero (w 0) label else .branchZero (w 0) label

theorem flow_branchOn (stop) (h : m.regs 0 = (truth b).word) (label) :
    (branchOn stop label).flow m = if b = stop then .jump label else .next := by
  have hread : m.read (w 0) = 0 ↔ b = false := by
    rw [Machine.read, h, low_word_truth, word_truth_eq_zero]
  cases stop with
  | false =>
    change (if m.read (w 0) = 0 then Flow.jump label else .next) = _
    rw [if_congr hread rfl rfl]
  | true =>
    change (if m.read (w 0) = 0 then Flow.next else .jump label) = _
    rw [if_congr hread rfl rfl]
    cases b <;> rfl

theorem effect_branchOn (symbols m stop label) : (branchOn stop label).effect symbols m = m := by
  cases stop <;> rfl

/-- **Operands in a row** run up to the first that is `stop`, and then to a label; without such
an operand they run to the line after them. -/
def RunsChain (r : Image) (stop : Bool) (label : String) (ls : List Line) (b : Bool) : Prop :=
  ∀ p : Program, (labels p.lines).Nodup → ∀ k, p.At k ls → ∀ k', p.placeOf? label = some k' →
    ∀ m : Machine, m.Sees r → ∃ m', m.Keeps [0, 20] m' ∧
      p.Reaches ⟨m, k⟩ ⟨m', if b = stop then k' else k + ls.length⟩

theorem runsChain_nil (stop label) : RunsChain r stop label [] (!stop) := by
  intro p _ k _ k' _ m _
  refine ⟨m, .refl m, ?_⟩
  rw [if_neg (by simp)]
  exact .refl

theorem RunsChain.cons (h : Runs r [0, 20] ls (.truth b))
    (hrest : b ≠ stop → RunsChain r stop label ls' b') :
    RunsChain r stop label (ls ++ code [branchOn stop label] ++ ls')
      (if b = stop then stop else b') := by
  intro p hp k hat k' hk' m hm
  rw [append_assoc] at hat
  obtain ⟨hat, hatRest⟩ := at_append.mp hat
  obtain ⟨hatBranch, hat'⟩ := at_append.mp hatRest
  obtain ⟨m1, hreach1, hvalue, hkeeps⟩ := h p hp k hat m hm
  have hflow := flow_branchOn stop hvalue label
  have hline := (at_cons.mp hatBranch).1
  by_cases hstop : b = stop
  · rw [if_pos hstop] at hflow ⊢
    have hjump := reaches_jump hline rfl hflow hk'
    rw [effect_branchOn] at hjump
    exact ⟨m1, hkeeps, by rw [if_pos rfl]; exact hreach1.trans hjump⟩
  · rw [if_neg hstop] at hflow ⊢
    have hnext := reaches_effect hline rfl hflow
    rw [effect_branchOn] at hnext
    obtain ⟨m2, hkeeps2, hreach2⟩ := hrest hstop p hp _ hat' k' hk' m1 (hkeeps.sees (by decide) hm)
    refine ⟨m2, hkeeps.trans hkeeps2, ?_⟩
    simp only [length_append, ← Nat.add_assoc]
    exact (hreach1.trans hnext).trans hreach2

theorem reaches_moveTruth {p : Program} (m)
    (h : p.lines[k]? = some (.instr (.moveImm (w 0) (if b then 1 else 0)))) :
    ∃ m', p.Reaches ⟨m, k⟩ ⟨m', k + 1⟩ ∧ m'.regs 0 = (truth b).word ∧ m.Keeps [0, 20] m' :=
  ⟨_, reaches_effect h rfl rfl, regs_moveTruth p.symbols m b,
    m.keeps_write_low (by simp) _⟩

/-- **Conjunction and disjunction**: what all operands give when none is `stop`, and what the
first gives that is. -/
theorem RunsChain.runs (h : RunsChain r stop hit ls b) (fin) :
    Runs r [0, 20] (ls ++ code [.moveImm (w 0) (if !stop then 1 else 0), .branch fin] ++
      [.label hit] ++ code [.moveImm (w 0) (if stop then 1 else 0)] ++ [.label fin])
      (.truth b) := by
  intro p hp k hat m hm
  simp only [append_assoc] at hat
  obtain ⟨hat, hrest⟩ := at_append.mp hat
  obtain ⟨hatMove, hrest⟩ := at_append.mp hrest
  obtain ⟨hatHit, hrest⟩ := at_append.mp hrest
  obtain ⟨hatSet, hatFin⟩ := at_append.mp hrest
  obtain ⟨hmove, hbranch⟩ := at_cons.mp hatMove
  have hhit := (at_cons.mp hatHit).1
  have hset := (at_cons.mp hatSet).1
  have hfin := (at_cons.mp hatFin).1
  obtain ⟨m1, hkeeps1, hreach1⟩ := h p hp k hat _ (placeOf?_of_at hp hhit) m hm
  simp only [length_append, ← Nat.add_assoc]
  by_cases hstop : b = stop
  · rw [if_pos hstop] at hreach1
    have hpass := reaches_next (m := m1) hhit rfl
    obtain ⟨m2, hreach2, hvalue, hkeeps2⟩ := reaches_moveTruth m1 hset
    have hdone := reaches_next (m := m2) hfin rfl
    exact ⟨m2, ((hreach1.trans hpass).trans hreach2).trans hdone, hstop ▸ hvalue,
      hkeeps1.trans hkeeps2⟩
  · rw [if_neg hstop] at hreach1
    obtain ⟨m2, hreach2, hvalue, hkeeps2⟩ := reaches_moveTruth m1 hmove
    have hjump := reaches_jump (m := m2) (at_cons.mp hbranch).1 rfl rfl
      (placeOf?_of_at hp hfin)
    have hdone := reaches_next (m := m2) hfin rfl
    have hb : b = !stop := by cases b <;> cases stop <;> simp at hstop ⊢
    exact ⟨m2, ((hreach1.trans hreach2).trans hjump).trans hdone, hb ▸ hvalue,
      hkeeps1.trans hkeeps2⟩

theorem run_keepBranch (p : Program) (hm : m.regs 0 = v.word) :
    (p.run (keepBranch v.type) m).regs 20 = v.word ∧
      m.Keeps [20] (p.run (keepBranch v.type) m) := by
  cases v with
  | truth b => exact run_move p hm 20
  | number n => exact run_move p hm 20

theorem run_takeBranch (p : Program) (hm : m.regs 20 = v.word) :
    (p.run (takeBranch v.type) m).regs 0 = v.word ∧ m.Keeps [0] (p.run (takeBranch v.type) m) := by
  cases v with
  | truth b => exact run_move_truth p hm 0
  | number n => exact run_move p hm 0

theorem linear_keepBranch (d) : Linear (keepBranch d) := by
  cases d <;> simp [Linear, keepBranch, flow]

theorem linear_takeBranch (d) : Linear (takeBranch d) := by
  cases d <;> simp [Linear, takeBranch, flow]

theorem Runs.reaches_kept (h : Runs r [0, 20] ls v) {p : Program} (hp : (labels p.lines).Nodup)
    (hat : p.At k ls) (hkeep : p.At (k + ls.length) (code (keepBranch v.type))) (hm : m.Sees r) :
    ∃ m', p.Reaches ⟨m, k⟩ ⟨m', k + ls.length + (code (keepBranch v.type)).length⟩ ∧
      m'.regs 20 = v.word ∧ m.Keeps [0, 20] m' := by
  obtain ⟨m1, hreach1, hvalue, hkeeps1⟩ := h p hp k hat m hm
  have hreach2 := reaches_code (m := m1) hkeep (linear_keepBranch v.type)
  obtain ⟨hkept, hkeeps2⟩ := run_keepBranch p hvalue
  exact ⟨_, hreach1.trans hreach2, hkept, hkeeps1.trans (hkeeps2.mono (by simp))⟩

/-- **Choice.** Both ways lead to the label `fin` with the value in `x20`. -/
theorem Runs.choose {cond yes no} (other fin)
    (hcond : Runs r [0, 20] cond (.truth b)) (hyes : b = true → Runs r [0, 20] yes v)
    (hno : b = false → Runs r [0, 20] no v) :
    Runs r [0, 20] (cond ++ code [.branchZero (w 0) other] ++ yes ++ code (keepBranch v.type) ++
      code [.branch fin] ++ [.label other] ++ no ++ code (keepBranch v.type) ++ [.label fin] ++
      code (takeBranch v.type)) v := by
  intro p hp k hat m hm
  simp only [append_assoc] at hat
  obtain ⟨hat, hrest⟩ := at_append.mp hat
  obtain ⟨hatTest, hrest⟩ := at_append.mp hrest
  obtain ⟨hatYes, hrest⟩ := at_append.mp hrest
  obtain ⟨hatKeep, hrest⟩ := at_append.mp hrest
  obtain ⟨hatBranch, hrest⟩ := at_append.mp hrest
  obtain ⟨hatOther, hrest⟩ := at_append.mp hrest
  obtain ⟨hatNo, hrest⟩ := at_append.mp hrest
  obtain ⟨hatKeep', hrest⟩ := at_append.mp hrest
  obtain ⟨hatFin, hatTake⟩ := at_append.mp hrest
  have hother := (at_cons.mp hatOther).1
  have hfin := (at_cons.mp hatFin).1
  obtain ⟨m1, hreach1, hvalue1, hkeeps1⟩ := hcond p hp k hat m hm
  have hsees := hkeeps1.sees (by decide) hm
  have hflow := flow_branchOn false hvalue1 other
  have htest := (at_cons.mp hatTest).1
  -- Up to the label the two ways differ.
  have hkept : ∃ m2, p.Reaches ⟨m1, k + cond.length⟩ ⟨m2, k + cond.length + 1 + yes.length +
      (code (keepBranch v.type)).length + 1 + 1 + no.length +
      (code (keepBranch v.type)).length⟩ ∧ m2.regs 20 = v.word ∧ m1.Keeps [0, 20] m2 := by
    cases b with
    | true =>
      have hnext := reaches_effect htest rfl hflow
      obtain ⟨m2, hreach2, hkept, hkeeps2⟩ := (hyes rfl).reaches_kept hp hatYes hatKeep hsees
      have hjump := reaches_jump (m := m2) (at_cons.mp hatBranch).1 rfl rfl
        (placeOf?_of_at hp hfin)
      exact ⟨m2, (Program.Reaches.trans hnext hreach2).trans hjump, hkept, hkeeps2⟩
    | false =>
      have hjump := reaches_jump htest rfl hflow (placeOf?_of_at hp hother)
      have hpass := reaches_next (m := m1) hother rfl
      obtain ⟨m2, hreach2, hkept, hkeeps2⟩ := (hno rfl).reaches_kept hp hatNo hatKeep' hsees
      exact ⟨m2, (Program.Reaches.trans hjump hpass).trans hreach2, hkept, hkeeps2⟩
  obtain ⟨m2, hreach2, hvalue2, hkeeps2⟩ := hkept
  have hpass := reaches_next (m := m2) hfin rfl
  have hreach3 := reaches_code (m := m2) hatTake (linear_takeBranch v.type)
  obtain ⟨hvalue3, hkeeps3⟩ := run_takeBranch p hvalue2
  refine ⟨_, ?_, hvalue3, (hkeeps1.trans hkeeps2).trans (hkeeps3.mono (by simp))⟩
  simp only [length_append, ← Nat.add_assoc]
  exact ((hreach1.trans hreach2).trans hpass).trans hreach3

end

/-! ### Trees -/

def Compiles (r : Image) (name : String) (scratch : List Nat) (t : Tree) (v : Datum) : Prop :=
  ∀ s, ∃ ls s', Gives (select name t) s ls s' ∧ Runs r scratch ls v

section

variable {r : Image} {name : String} {d : Datatype} {t : Tree} {v : Datum}

theorem Compiles.mono (h : Compiles r name scratch t v)
    (hsub : ∀ n ∈ scratch, n ∈ scratch') : Compiles r name scratch' t v := by
  intro s
  obtain ⟨ls, s', hls, hruns⟩ := h s
  exact ⟨ls, s', hls, hruns.mono hsub⟩

theorem compiles_of_code
    (hselect : select name t = pure (code is)) (h : Runs r scratch (code is) v) :
    Compiles r name scratch t v := by
  intro s
  refine ⟨code is, s, ?_, h⟩
  rw [hselect, gives_pure]
  exact ⟨rfl, rfl⟩

theorem Suits.compiles_leaf (h : Suits r d t) (hleaf : t.IsLeaf) (hv : t.value r = some v) :
    Compiles r name [0] t v := by
  cases h with
  | loadBool hsize hbyte =>
    cases hv
    exact compiles_of_code (by rw [select]) (runs_loadBool hsize hbyte)
  | loadInt hsize =>
    cases hv
    exact compiles_of_code (by rw [select]) (runs_loadInt hsize)
  | @bool b =>
    cases hv
    exact compiles_of_code (by rw [select]) (runs_bool b)
  | int hlo hhi =>
    cases hv
    exact compiles_of_code (by rw [select]) (runs_int hlo hhi)
  | not _ | and _ | or _ | compare _ _ _ _ | ite _ _ _ => exact absurd hleaf id

theorem compiles_chain (label) (hes : ∀ e ∈ es, Suits r .boolean e)
    (hcompiles : ∀ e ∈ es, ∀ v, e.value r = some v → Compiles r name [0, 20] e v)
    (hb : Tree.chainValue r stop es = some (.truth b)) (s) :
    ∃ ls s', Gives (selectEach name (branchOn stop label) es) s ls s' ∧
      RunsChain r stop label ls b := by
  induction es generalizing s b with
  | nil =>
    cases hb
    exact ⟨[], s, by rfl, runsChain_nil stop label⟩
  | cons e es ih =>
    obtain ⟨c, hv⟩ := (hes e (.head _)).exists_value_boolean
    obtain ⟨first, s1, hfirst, hruns⟩ := hcompiles e (.head _) _ hv s
    obtain ⟨b', hb'⟩ := exists_chainValue
      (fun e' he' => (hes e' (mem_cons_of_mem e he')).exists_value_boolean) stop
    obtain ⟨rest, s2, hrest, hchain⟩ := ih (fun e' he' => hes e' (mem_cons_of_mem e he'))
      (fun e' he' => hcompiles e' (mem_cons_of_mem e he')) hb' s1
    simp only [Tree.chainValue, hv, hb'] at hb
    obtain rfl : b = if c = stop then stop else b' := by
      split at hb <;> cases hb <;> simp [*]
    refine ⟨_, s2, ?_, RunsChain.cons hruns fun _ => hchain⟩
    simp only [selectEach, gives_bind, gives_pure]
    exact ⟨first, s1, hfirst, rest, s2, hrest, rfl, rfl⟩

/-- **The code of a tree computes its value.** -/
theorem Suits.compiles (h : Suits r d t) (name) :
    ∀ v, t.value r = some v → Compiles r name [0, 20] t v := by
  induction h with
  | loadBool hsize hbyte =>
    exact fun v hv => ((Suits.loadBool hsize hbyte).compiles_leaf trivial hv).mono (by simp)
  | loadInt hsize =>
    exact fun v hv => ((Suits.loadInt hsize).compiles_leaf trivial hv).mono (by simp)
  | bool => exact fun v hv => (Suits.bool.compiles_leaf trivial hv).mono (by simp)
  | int hlo hhi =>
    exact fun v hv => ((Suits.int hlo hhi).compiles_leaf trivial hv).mono (by simp)
  | @not e he ih =>
    intro v hv s
    obtain ⟨b, hu⟩ := he.exists_value_boolean
    simp only [Tree.value, hu, Option.some.injEq] at hv
    subst hv
    obtain ⟨ls, s', hls, hruns⟩ := ih _ hu s
    refine ⟨_, s', ?_, hruns.negate⟩
    simp only [select, gives_bind, gives_pure]
    exact ⟨ls, s', hls, rfl, rfl⟩
  | @and es hes ih =>
    intro v hv s
    obtain ⟨b, hb⟩ := exists_chainValue (fun e he => (hes e he).exists_value_boolean) false
    rw [Tree.value, hb, Option.some.injEq] at hv
    subst hv
    obtain ⟨body, s', hbody, hchain⟩ := compiles_chain (labelText "and_false" (s.labels + 1)) hes ih
      hb { s with labels := s.labels + 1 + 1 }
    refine ⟨_, s', ?_, hchain.runs (labelText "and_end" (s.labels + 1 + 1))⟩
    simp only [select, gives_bind, gives_newLabel, gives_pure]
    exact ⟨_, _, ⟨rfl, rfl⟩, _, _, ⟨rfl, rfl⟩, body, s', hbody, rfl, rfl⟩
  | @or es hes ih =>
    intro v hv s
    obtain ⟨b, hb⟩ := exists_chainValue (fun e he => (hes e he).exists_value_boolean) true
    rw [Tree.value, hb, Option.some.injEq] at hv
    subst hv
    obtain ⟨body, s', hbody, hchain⟩ := compiles_chain (labelText "or_true" (s.labels + 1)) hes ih
      hb { s with labels := s.labels + 1 + 1 }
    refine ⟨_, s', ?_, hchain.runs (labelText "or_end" (s.labels + 1 + 1))⟩
    simp only [select, gives_bind, gives_newLabel, gives_pure]
    exact ⟨_, _, ⟨rfl, rfl⟩, _, _, ⟨rfl, rfl⟩, body, s', hbody, rfl, rfl⟩
  | @compare op d left right hop hleft hright hleaf ihleft ihright =>
    intro v hv s
    obtain ⟨a, ha, hatype, hafits⟩ := hleft.exists_value
    obtain ⟨c, hc, hctype, hcfits⟩ := hright.exists_value
    obtain ⟨b, hb⟩ := exists_relates? hop a.toInt c.toInt
    simp only [Tree.value, ha, hc, hb, Option.bind_eq_bind, Option.bind_some, Option.pure_def,
      Option.some.injEq] at hv
    subst hv
    obtain ⟨ls, s1, hls, hruns⟩ := ihleft a ha s
    obtain ⟨ls', s2, hls', hruns'⟩ := hright.compiles_leaf hleaf hc s1
    refine ⟨_, s2, ?_, hruns.relate hruns' (hctype.trans hatype.symm) hafits hcfits hb⟩
    simp only [select, gives_bind, gives_pure]
    refine ⟨ls, s1, hls, ls', s2, hls', ?_, rfl⟩
    rw [hatype, hctype, hleft.type_eq, hright.type_eq]
  | @ite d c yes no hc hyes hno ihc ihyes ihno =>
    intro v hv s
    obtain ⟨b, hu⟩ := hc.exists_value_boolean
    obtain ⟨vyes, hvyes, htypeYes, -⟩ := hyes.exists_value
    obtain ⟨vno, hvno, htypeNo, -⟩ := hno.exists_value
    obtain ⟨cond, s1, hcond, hrunsCond⟩ := ihc _ hu { s with labels := s.labels + 1 + 1 }
    obtain ⟨first, s2, hfirst, hrunsYes⟩ := ihyes vyes hvyes s1
    obtain ⟨second, s3, hsecond, hrunsNo⟩ := ihno vno hvno s2
    have hvalue : v = if b then vyes else vno := by
      cases b <;> simpa [Tree.value, hu, hvyes, hvno, eq_comm] using hv
    have htypeV : v.type = yes.type := by
      rw [hyes.type_eq, hvalue]
      split <;> assumption
    have hthen : b = true → Runs r [0, 20] first v := by
      rintro rfl
      exact hvalue ▸ hrunsYes
    have helse : b = false → Runs r [0, 20] second v := by
      rintro rfl
      exact hvalue ▸ hrunsNo
    refine ⟨_, s3, ?_, Runs.choose (labelText "if_else" (s.labels + 1))
      (labelText "if_end" (s.labels + 1 + 1)) hrunsCond hthen helse⟩
    simp only [select, gives_bind, gives_newLabel, gives_pure]
    refine ⟨_, _, ⟨rfl, rfl⟩, _, _, ⟨rfl, rfl⟩, cond, s1, hcond, first, s2, hfirst, second, s3,
      hsecond, ?_, rfl⟩
    rw [htypeV]

end

end Rulebook.Native
