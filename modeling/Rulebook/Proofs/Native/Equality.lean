/-
Texts compared for equality.

Texts of different lengths differ, and of texts of one length the bytes are compared. A literal is
given its characters as length and a field its bytes.
-/

import Rulebook.Proofs.Native.Call
import Rulebook.Proofs.Native.Packing

namespace Rulebook.Native

open List String Formula Text Reg Instr Program

/-! ### Code in the middle of a program -/

section

variable {p : Program} {k i : Nat} {ls : List Line} {m : Machine} {instr : Instr} {label : String}

theorem Program.At.slice (h : p.At k ls) (i n) : p.At (k + i) ((ls.drop i).take n) := by
  have hdrop : ls.drop i <+: (p.lines.drop k).drop i := h.drop i
  rw [drop_drop] at hdrop
  exact ( take_prefix n _).trans hdrop

theorem Program.At.line (h : p.At k ls) (hl : ls[i]? = some l) : p.lines[k + i]? = some l := by
  obtain ⟨rest, hrest⟩ := h
  obtain ⟨hi, -⟩ := List.getElem?_eq_some_iff.mp hl
  rw [← getElem?_drop, ← hrest, getElem?_append_left hi, hl]

theorem Program.At.placeOf? (h : p.At k ls) (hp : (labels p.lines).Nodup)
    (hl : ls[i]? = some (.label label)) : p.placeOf? label = some (k + i) :=
  placeOf?_of_at hp (h.line hl)

theorem Program.reaches_back (h : p.lines[k]? = some (.instr .ret)) :
    p.Reaches ⟨m, k⟩ ⟨m, (m.regs 30).toNat⟩ :=
  .single (by simp [step, h, Line.instr?, Instr.flow, Instr.effect, Machine.read])

theorem Program.reaches_call (h : p.lines[k]? = some (.instr (.call label)))
    (hlabel : p.placeOf? label = some k') :
    p.Reaches ⟨m, k⟩ ⟨m.write (x 30) (.ofNat 64 (k + 1)), k'⟩ :=
  .single (by simp [step, h, Line.instr?, flow, effect, hlabel])

theorem Program.At.runs (h : p.At k ls) (i n : Nat) (is : List Instr)
    (hlines : ((ls.drop i).take n).filterMap Line.instr? = is := by rfl)
    (hlength : ((ls.drop i).take n).length = n := by rfl)
    (his : Linear is := by simp [Linear, flow]) :
    p.Reaches ⟨m, k + i⟩ ⟨p.run is m, k + (i + n)⟩ := by
  have hrun := reaches_lines (m := m) (h.slice i n) (hlines ▸ his)
  rwa [hlines, hlength, Nat.add_assoc] at hrun

theorem Program.At.passes (h : p.At k ls) (i) (hl : ls[i]?.bind Line.instr? = some instr)
    (hflow : instr.flow m = .next) :
    p.Reaches ⟨m, k + i⟩ ⟨instr.effect p.symbols m, k + (i + 1)⟩ := by
  obtain ⟨l, hline, hinstr⟩ := Option.bind_eq_some_iff.mp hl
  exact reaches_effect (h.line hline) hinstr hflow

theorem Program.At.jumps (h : p.At k ls) (hp : (labels p.lines).Nodup) (i j : Nat)
    (hl : ls[i]?.bind Line.instr? = some instr) (hflow : instr.flow m = .jump label)
    (hlabel : ls[j]? = some (.label label) := by rfl) :
    p.Reaches ⟨m, k + i⟩ ⟨instr.effect p.symbols m, k + j⟩ := by
  obtain ⟨l, hline, hinstr⟩ := Option.bind_eq_some_iff.mp hl
  exact reaches_jump (h.line hline) hinstr hflow (h.placeOf? hp hlabel)

end

/-! ### Bytes in registers -/

theorem Memory.load_one (mem : Memory) (a) : mem.load a 1 = (mem a).toNat := by
  simp [load, littleEndian]

theorem ne_holds_byte (r) (a b : Byte) :
    Cond.ne.holds ((w r).compared (Word.low (Word.low (.ofNat 64 a.toNat)))
      (Word.low (Word.low (.ofNat 64 b.toNat)))) = decide (a ≠ b) := by
  have hlow : ∀ c : Byte,
      (Word.low (Word.low (.ofNat 64 c.toNat))).setWidth 32 = BitVec.ofNat 32 c.toNat := by
    intro c
    apply BitVec.eq_of_toNat_eq
    simp [Word.low]
  rw [Reg.compared, hlow, hlow, Cond.holds_ofSub]
  refine decide_eq_decide.mpr (not_congr ?_)
  rw [BitVec.toInt_inj]
  constructor
  · intro heq
    have hnat := congrArg BitVec.toNat heq
    rw [BitVec.toNat_ofNat, BitVec.toNat_ofNat] at hnat
    apply BitVec.eq_of_toNat_eq
    omega
  · intro heq
    rw [heq]

def SameBytes (mem : Memory) (a b : Word) (count : Nat) : Prop :=
  ∀ j < count, mem (a + .ofNat 64 j) = mem (b + .ofNat 64 j)

instance (mem : Memory) (a b : Word) (count : Nat) : Decidable (SameBytes mem a b count) :=
  inferInstanceAs (Decidable (∀ j < count, _))

theorem toInt_ofNat_lt_iff (hi : i < 2 ^ 63) (hn : n < 2 ^ 63) :
    (BitVec.ofNat 64 i).toInt < (BitVec.ofNat 64 n).toInt ↔ i < n := by
  have htoInt : ∀ j : Nat, j < 2 ^ 63 → (BitVec.ofNat 64 j).toInt = j := by
    grind [BitVec.toInt_eq_toNat_bmod, BitVec.toNat_ofNat, Nat.mod_eq_of_lt]
  rw [htoInt i hi, htoInt n hn, Int.ofNat_lt]

/-! ### The routine -/

/-- From a place a program comes to another one with a truth value in `w0`. -/
def Program.Answers (p : Program) (scratch : List Nat) (c : Config) (stop : Nat) (b : Bool) :
    Prop :=
  ∃ m', p.Reaches c ⟨m', stop⟩ ∧ m'.regs 0 = (Datum.truth b).word ∧ c.machine.Keeps scratch m'

theorem Program.Answers.after {p : Program} (h : p.Answers s c stop b) (hs : s ⊆ s')
    (hreach : p.Reaches ⟨m, k⟩ c) (hkeeps : m.Keeps s' c.machine) : p.Answers s' ⟨m, k⟩ stop b := by
  obtain ⟨m', hanswer, hvalue, hkeeps'⟩ := h
  exact ⟨m', hreach.trans hanswer, hvalue, hkeeps.trans (hkeeps'.mono hs)⟩

section

variable {p : Program} {k : Nat} {m : Machine} (hat : p.At k equalsRoutine)
include hat

theorem reaches_answer (b)
    (hmove : ((equalsRoutine.drop j).take 2).filterMap Line.instr? = [.moveImm (w 0) b.toNat])
    (hlength : ((equalsRoutine.drop j).take 2).length = 2)
    (hret : equalsRoutine[j + 2]? = some (.instr .ret)) :
    p.Answers [0] ⟨m, k + j⟩ (m.regs 30).toNat b := by
  have hset : p.Reaches ⟨m, k + j⟩ ⟨m.write (w 0) (.ofNat 64 b.toNat), k + (j + 2)⟩ :=
    hat.runs j 2 _ hmove hlength
  have hback := reaches_back (m := m.write (w 0) (.ofNat 64 b.toNat)) (hat.line hret)
  refine ⟨_, hset.trans hback, ?_, m.keeps_write_low (by simp) _⟩
  cases b <;> rfl

theorem reaches_yes : p.Answers [0] ⟨m, k + 20⟩ (m.regs 30).toNat true :=
  reaches_answer hat true rfl rfl rfl

theorem reaches_no : p.Answers [0] ⟨m, k + 24⟩ (m.regs 30).toNat false :=
  reaches_answer hat false rfl rfl rfl

theorem loop_compares : ∃ m', p.Reaches ⟨m, k + 11⟩ ⟨m', k + 15⟩ ∧ m.Keeps [5, 6] m' ∧
      Cond.ne.holds m'.flags =
        decide (m.memory (m.regs 0 + m.regs 4) ≠ m.memory (m.regs 2 + m.regs 4)) := by
  have hrun := hat.runs (m := m) 11 4
    [.loadByteAt (w 5) (x 0) (x 4), .loadByteAt (w 6) (x 2) (x 4), .compare (w 5) (w 6)]
  refine ⟨_, hrun, ⟨fun n hn => ?_, rfl, ?_⟩, ?_⟩
  · simp_all [effect]
  · simp [effect]
  · rw [← ne_holds_byte 5, ← Memory.load_one, ← Memory.load_one]
    simp [Instr.effect, Machine.read]

theorem loop_agrees (heq : m.memory (m.regs 0 + m.regs 4) = m.memory (m.regs 2 + m.regs 4)) :
    ∃ m', p.Reaches ⟨m, k + 11⟩ ⟨m', k + 18⟩ ∧ m.Keeps [4, 5, 6] m' ∧ m'.regs 4 = m.regs 4 + 1 ∧
      Cond.lt.holds m'.flags = decide ((m.regs 4 + 1).toInt < (m.regs 1).toInt) := by
  obtain ⟨m1, hcompare, hkeeps, hflags⟩ := loop_compares (m := m) hat
  have hpass : p.Reaches ⟨m1, k + 15⟩ ⟨m1, k + 16⟩ :=
    hat.passes 15 rfl (if_neg (by simp [hflags, heq]))
  have hrun := hat.runs (m := m1) 16 2 [.addImm (x 4) (x 4) 1, .compare (x 4) (x 1)]
  have hindex : m1.regs 4 = m.regs 4 := hkeeps.regs 4 (by decide)
  have hlength : m1.regs 1 = m.regs 1 := hkeeps.regs 1 (by decide)
  refine ⟨_, hcompare.trans (hpass.trans hrun), ?_, ?_, ?_⟩
  · refine (hkeeps.mono (by simp)).trans ⟨fun n hn => ?_, rfl, rfl⟩
    obtain ⟨hfour, -⟩ : n ≠ 4 ∧ n ≠ 5 ∧ n ≠ 6 := by simpa using hn
    simp [effect, hfour]
  · simp [Instr.effect, Machine.read, hindex]
  · rw [← hindex, ← hlength]
    exact Cond.holds_ofSub .lt (m1.regs 4 + 1) (m1.regs 1)

theorem equals_sizes : ∃ m', p.Reaches ⟨m, k + 4⟩ ⟨m', k + 6⟩ ∧ m.Keeps [] m' ∧
      Cond.ne.holds m'.flags = decide (m.regs 1 ≠ m.regs 3) := by
  have hcompare := hat.runs (m := m) 4 2 [.compare (x 1) (x 3)]
  refine ⟨_, hcompare, ⟨fun _ _ => rfl, rfl, rfl⟩, ?_⟩
  refine (Cond.holds_ofSub .ne (m.regs 1) (m.regs 3)).trans ?_
  exact decide_eq_decide.mpr (not_congr BitVec.toInt_inj)

variable (hp : (labels p.lines).Nodup)
include hp

theorem loop_differs (hne : m.memory (m.regs 0 + m.regs 4) ≠ m.memory (m.regs 2 + m.regs 4)) :
    p.Answers [0, 4, 5, 6] ⟨m, k + 11⟩ (m.regs 30).toNat false := by
  obtain ⟨m1, hcompare, hkeeps, hflags⟩ := loop_compares (m := m) hat
  have hjump : p.Reaches ⟨m1, k + 15⟩ ⟨m1, k + 24⟩ :=
    hat.jumps hp 15 24 rfl (if_pos (hflags.trans (decide_eq_true hne)))
  rw [← hkeeps.regs 30 (by decide)]
  exact (reaches_no hat).after (by simp) (hcompare.trans hjump) (hkeeps.mono (by simp))

/-- **The byte loop.** From an index up to which the bytes agree it finds out whether all do. -/
theorem equals_loop (hn : n < 2 ^ 63) (hlength : m.regs 1 = .ofNat 64 n) (hi : i < n)
    (hindex : m.regs 4 = .ofNat 64 i) (hsame : SameBytes m.memory (m.regs 0) (m.regs 2) i) :
    p.Answers [0, 4, 5, 6] ⟨m, k + 11⟩ (m.regs 30).toNat
      (decide (SameBytes m.memory (m.regs 0) (m.regs 2) n)) := by
  -- the rounds that are left become fewer
  induction hleft : n - i generalizing i m with
  | zero => omega
  | succ left ih =>
    by_cases heq : m.memory (m.regs 0 + m.regs 4) = m.memory (m.regs 2 + m.regs 4)
    · obtain ⟨m1, hround, hkeeps, hnext, hflags⟩ := loop_agrees hat heq
      have hsame' : SameBytes m.memory (m.regs 0) (m.regs 2) (i + 1) := by
        intro j hj
        rcases Nat.lt_succ_iff_lt_or_eq.mp hj with hj | rfl
        · exact hsame j hj
        · rw [← hindex]
          exact heq
      have hindex' : m.regs 4 + 1 = .ofNat 64 (i + 1) := by
        rw [hindex, BitVec.ofNat_add]
        rfl
      rw [hindex', hlength] at hflags
      rw [← hkeeps.regs 30 (by decide)]
      by_cases hlast : i + 1 = n
      · -- the last byte agreed too
        subst hlast
        have hpass : p.Reaches ⟨m1, k + 18⟩ ⟨m1, k + 19⟩ :=
          hat.passes 18 rfl (if_neg (by simp [hflags]))
        have hskip : p.Reaches ⟨m1, k + 19⟩ ⟨m1, k + 20⟩ := hat.runs 19 1 []
        rw [decide_eq_true hsame']
        exact (reaches_yes hat).after (by simp) (hround.trans (hpass.trans hskip))
          (hkeeps.mono (by simp))
      · have htrue : Cond.lt.holds m1.flags = true := by
          rw [hflags, decide_eq_true_iff, toInt_ofNat_lt_iff (by omega) hn]
          omega
        have hjump : p.Reaches ⟨m1, k + 18⟩ ⟨m1, k + 11⟩ := hat.jumps hp 18 11 rfl (if_pos htrue)
        have hzero : m1.regs 0 = m.regs 0 := hkeeps.regs 0 (by decide)
        have htwo : m1.regs 2 = m.regs 2 := hkeeps.regs 2 (by decide)
        have hone : m1.regs 1 = m.regs 1 := hkeeps.regs 1 (by decide)
        rw [← hkeeps.memory, ← hzero, ← htwo] at hsame' ⊢
        have hrest := ih (m := m1) (i := i + 1) (by rw [hone, hlength]) (by omega)
          (by rw [hnext, hindex']) hsame' (by omega)
        exact hrest.after (by simp) (hround.trans hjump) (hkeeps.mono (by simp))
    · have hdiffer : ¬ SameBytes m.memory (m.regs 0) (m.regs 2) n := by
        intro hall
        rw [hindex] at heq
        exact heq (hall i hi)
      rw [decide_eq_false hdiffer]
      exact loop_differs hat hp heq

theorem equals_bytes (hlength : (m.regs 1).toNat < 2 ^ 63) :
    p.Answers [0, 4, 5, 6] ⟨m, k + 7⟩ (m.regs 30).toNat
      (decide (SameBytes m.memory (m.regs 0) (m.regs 2) (m.regs 1).toNat)) := by
  by_cases hzero : m.regs 1 = 0
  · have hjump : p.Reaches ⟨m, k + 7⟩ ⟨m, k + 20⟩ := hat.jumps hp 7 20 rfl (if_pos hzero)
    have hsame : SameBytes m.memory (m.regs 0) (m.regs 2) (m.regs 1).toNat := by
      intro j hj
      simp [hzero] at hj
    rw [decide_eq_true hsame]
    exact (reaches_yes hat).after (by simp) hjump (.refl m)
  · have hpositive : 0 < (m.regs 1).toNat := by
      rw [Nat.pos_iff_ne_zero]
      intro hnat
      exact hzero (BitVec.eq_of_toNat_eq hnat)
    have hpass : p.Reaches ⟨m, k + 7⟩ ⟨m, k + 8⟩ := hat.passes 7 rfl (if_neg hzero)
    have hindex : p.Reaches ⟨m, k + 8⟩ ⟨m.write (x 4) 0, k + 11⟩ := hat.runs 8 3 [.moveImm (x 4) 0]
    have hloop := equals_loop (m := m.write (x 4) 0) hat hp hlength (by simp) hpositive (by simp)
      fun j hj => absurd hj (Nat.not_lt_zero j)
    exact hloop.after (by simp) (hpass.trans hindex) (m.keeps_write (by simp) 0)

/-- **The routine** answers whether the lengths in `x1` and `x3` and the bytes at the addresses in
`x0` and `x2` agree. -/
theorem equals_answers (hlength : (m.regs 1).toNat < 2 ^ 63) :
    p.Answers [0, 4, 5, 6] ⟨m, k + 4⟩ (m.regs 30).toNat (decide (m.regs 1 = m.regs 3 ∧
      SameBytes m.memory (m.regs 0) (m.regs 2) (m.regs 1).toNat)) := by
  obtain ⟨m1, hstart, hkeeps, hflags⟩ := equals_sizes (m := m) hat
  have hregs : m1.regs = m.regs := funext fun n => hkeeps.regs n (by simp)
  by_cases hsize : m.regs 1 = m.regs 3
  · have hpass : p.Reaches ⟨m1, k + 6⟩ ⟨m1, k + 7⟩ :=
      hat.passes 6 rfl (if_neg (by simp [hflags, hsize]))
    have hbytes := equals_bytes (m := m1) hat hp (hregs ▸ hlength)
    rw [hregs, hkeeps.memory] at hbytes
    simp only [hsize, true_and] at hbytes ⊢
    exact hbytes.after (by simp) (hstart.trans hpass) (hkeeps.mono (by simp))
  · have hjump : p.Reaches ⟨m1, k + 6⟩ ⟨m1, k + 24⟩ :=
      hat.jumps hp 6 24 rfl (if_pos (by simp [hflags, hsize]))
    rw [decide_eq_false fun h => hsize h.1, ← hregs]
    exact (reaches_no hat).after (by simp) (hstart.trans hjump) (hkeeps.mono (by simp))

theorem call_equals (hcall : p.lines[j]? = some (.instr (.call "_string_equals")))
    (hj : j + 1 < 2 ^ 64) (hlength : (m.regs 1).toNat < 2 ^ 63) :
    p.Answers [0, 4, 5, 6, 30] ⟨m, j⟩ (j + 1) (decide (m.regs 1 = m.regs 3 ∧
      SameBytes m.memory (m.regs 0) (m.regs 2) (m.regs 1).toNat)) := by
  have henter := reaches_call (m := m) hcall (hat.placeOf? hp (i := 4) rfl)
  have hanswer := equals_answers (m := m.write (x 30) (.ofNat 64 (j + 1))) hat hp hlength
  have hback : ((m.write (x 30) (.ofNat 64 (j + 1))).regs 30).toNat = j + 1 := by
    rw [Machine.regs_write_x, if_pos rfl, BitVec.toNat_ofNat, Nat.mod_eq_of_lt hj]
  rw [hback] at hanswer
  exact hanswer.after (by simp) henter (m.keeps_write (by simp) _)

end

/-! ### Comparisons of texts -/

/-- Instructions leave the address and the length of a text in `x0` and `x1`, and touch nothing
else. -/
structure LeavesText (p : Program) (m : Machine) (is : List Instr) (a n : Word) : Prop where
  linear : Linear is
  address : (p.run is m).regs 0 = a
  length : (p.run is m).regs 1 = n
  keeps : m.Keeps [0, 1] (p.run is m)

section

variable {p : Program} {k : Nat} {m : Machine}

theorem page_add_offset (a mask : Word) : (a &&& ~~~mask) + (a &&& mask) = a := by
  have hapart : (a &&& ~~~mask) &&& (a &&& mask) = 0#64 := by
    ext i hi
    cases hbit : mask[i] <;> simp [hbit]
  rw [BitVec.add_eq_or_of_and_eq_zero _ _ hapart]
  ext i hi
  cases hbit : mask[i] <;> simp [hbit]

theorem leavesText_literal (label count) :
    LeavesText p m (addressOf (x 0) label ++ [.moveImm (x 1) count]) (p.symbols label)
      (.ofNat 64 count) where
  linear := by simp [Linear, addressOf, flow]
  address := by
    refine Eq.trans ?_ (page_add_offset (p.symbols label) 0xfff)
    simp [addressOf, Instr.effect, Machine.read]
  length := by simp [addressOf, effect]
  keeps := by
    refine ⟨fun n hn => ?_, rfl, rfl⟩
    obtain ⟨hzero, hone⟩ : n ≠ 0 ∧ n ≠ 1 := by simpa using hn
    simp [addressOf, effect, hzero, hone]

theorem leavesText_field (offset) :
    LeavesText p m [.load (x 0) (x 19) offset, .load (x 1) (x 19) (offset + 8)]
      (.ofNat 64 (m.memory.load (m.regs 19 + .ofNat 64 offset) 8))
      (.ofNat 64 (m.memory.load (m.regs 19 + .ofNat 64 (offset + 8)) 8)) where
  linear := by simp [Linear, flow]
  address := by simp [Instr.effect, Machine.read, Reg.bytes]
  length := by simp [Instr.effect, Machine.read, Reg.bytes]
  keeps := by
    refine ⟨fun n hn => ?_, rfl, rfl⟩
    obtain ⟨hzero, hone⟩ : n ≠ 0 ∧ n ≠ 1 := by simpa using hn
    simp [effect, hzero, hone]

theorem run_keepLeft_text (p : Program) (m) :
    (p.run (keepLeft .text) m).regs 20 = m.regs 0 ∧ (p.run (keepLeft .text) m).regs 21 = m.regs 1 ∧
      m.Keeps [20, 21] (p.run (keepLeft .text) m) := by
  refine ⟨?_, ?_, ⟨fun n hn => ?_, rfl, rfl⟩⟩
  · simp [keepLeft, Instr.effect, Machine.read]
  · simp [keepLeft, Instr.effect, Machine.read]
  · simp_all [keepLeft, effect]

/-- What a comparison of texts does behind its operands: the left one is kept in `x20` and `x21`,
the right one is in `x0` and `x1`. All signs but that for difference ask for equality. -/
theorem compareOperands_texts (hp : (labels p.lines).Nodup) (hequals : p.At j equalsRoutine)
    (hat : p.At k (code (compareOperands op .text .text))) (hk : k + 5 < 2 ^ 64)
    (hlength : (m.regs 21).toNat < 2 ^ 63) :
    p.Answers [0, 1, 2, 3, 4, 5, 6, 30] ⟨m, k⟩ (k + (code (compareOperands op .text .text)).length)
      (decide (m.regs 21 = m.regs 1 ∧
        SameBytes m.memory (m.regs 20) (m.regs 0) (m.regs 21).toNat) != decide (op = .ne)) := by
  have hmoves := hat.runs (m := m) 0 4
    [.move (x 2) (x 0), .move (x 3) (x 1), .move (x 0) (x 20), .move (x 1) (x 21)]
  generalize hm1 : p.run _ m = m1 at hmoves
  obtain ⟨hzero, hone, htwo, hthree⟩ : m1.regs 0 = m.regs 20 ∧ m1.regs 1 = m.regs 21 ∧
      m1.regs 2 = m.regs 0 ∧ m1.regs 3 = m.regs 1 := by
    rw [← hm1]
    simp [Instr.effect, Machine.read]
  have hkeeps : m.Keeps [0, 1, 2, 3, 4, 5, 6, 30] m1 := by
    rw [← hm1]
    refine ⟨fun n hn => ?_, rfl, rfl⟩
    simp only [mem_cons, not_or] at hn
    simp [effect, hn]
  obtain ⟨m2, hcall, hvalue, hkeeps'⟩ := call_equals (m := m1) hequals hp (hat.line (i := 4) rfl)
    hk (hone ▸ hlength)
  rw [hzero, hone, htwo, hthree, hkeeps.memory] at hvalue
  have hkeeps2 := hkeeps.trans (hkeeps'.mono (by simp))
  generalize decide (m.regs 21 = m.regs 1 ∧
    SameBytes m.memory (m.regs 20) (m.regs 0) (m.regs 21).toNat) = same at hvalue ⊢
  by_cases hne : op = .ne
  · subst hne
    have hflip : p.Reaches ⟨m2, k + 5⟩ ⟨m2.write (w 0) (m2.read (w 0) ^^^ 1), k + 6⟩ :=
      hat.passes 5 rfl rfl
    refine ⟨_, hmoves.trans (hcall.trans hflip), ?_,
      hkeeps2.trans (m2.keeps_write_low (by simp) _)⟩
    simp only [Machine.regs_write_w, Machine.read, hvalue]
    cases same <;> decide
  · have hcode : compareOperands op .text .text = [.move (x 2) (x 0), .move (x 3) (x 1),
        .move (x 0) (x 20), .move (x 1) (x 21), .call "_string_equals"] := by
      simp [compareOperands, hne]
    rw [hcode]
    refine ⟨m2, hmoves.trans hcall, ?_, hkeeps2⟩
    simp [hvalue, hne]

/-- **Comparing texts** whose addresses and lengths are left by instructions without branches. -/
theorem compare_texts (hp : (labels p.lines).Nodup) (hsize : p.lines.length < 2 ^ 64)
    (hequals : p.At j equalsRoutine)
    (hat : p.At k (code left ++ code (keepLeft .text) ++ code right ++
      code (compareOperands op .text .text))) (hleft : LeavesText p m left a n)
    (hright : ∀ m', m.Keeps [0, 1, 20, 21] m' → LeavesText p m' right b n')
    (hn : n.toNat < 2 ^ 63) :
    p.Answers [0, 1, 2, 3, 4, 5, 6, 20, 21, 30] ⟨m, k⟩ (k + (code left ++ code (keepLeft .text) ++
        code right ++ code (compareOperands op .text .text)).length)
      (decide (n = n' ∧ SameBytes m.memory a b n.toNat) != decide (op = .ne)) := by
  simp only [at_append, List.length_append, ← Nat.add_assoc] at hat ⊢
  obtain ⟨⟨⟨hat1, hat2⟩, hat3⟩, hat4⟩ := hat
  obtain ⟨hlinear, haddress, hlength, hkeeps1⟩ := hleft
  have hfirst := reaches_code (m := m) hat1 hlinear
  generalize p.run left m = m1 at hfirst haddress hlength hkeeps1
  have hkeep := reaches_code (m := m1) hat2 (by simp [keepLeft, flow])
  obtain ⟨htwenty, htwentyOne, hkeeps2⟩ := run_keepLeft_text p m1
  generalize p.run (keepLeft .text) m1 = m2 at hkeep htwenty htwentyOne hkeeps2
  have hkeeps12 : m.Keeps [0, 1, 20, 21] m2 :=
    (hkeeps1.mono (by simp)).trans (hkeeps2.mono (by simp))
  obtain ⟨hlinear', haddress', hlength', hkeeps3⟩ := hright m2 hkeeps12
  have hsecond := reaches_code (m := m2) hat3 hlinear'
  generalize p.run right m2 = m3 at hsecond haddress' hlength' hkeeps3
  have hleft' : m3.regs 20 = a ∧ m3.regs 21 = n := by grind [hkeeps3.regs]
  obtain ⟨hplace, -⟩ := List.getElem?_eq_some_iff.mp (hat4.line (i := 4) rfl)
  have hcompare := compareOperands_texts (m := m3) hp hequals hat4 (by omega) (hleft'.2 ▸ hn)
  rw [hleft'.1, hleft'.2, haddress', hlength', hkeeps3.memory, hkeeps12.memory] at hcompare
  exact hcompare.after (by simp) (hfirst.trans (hkeep.trans hsecond))
    ((hkeeps12.mono (by simp)).trans (hkeeps3.mono (by simp)))

end

/-! ### Lengths of texts -/

theorem length_le_utf8Len (cs) : cs.length ≤ utf8Len cs := by
  induction cs with
  | nil => exact Nat.le_refl 0
  | cons c cs ih =>
    have hpos := c.utf8Size_pos
    rw [utf8Len_cons, length_cons]
    omega

theorem isAscii_iff_utf8Size : isAscii c = true ↔ c.utf8Size = 1 := by
  rw [Char.utf8Size_eq_one_iff, isAscii, decide_eq_true_iff]
  exact Nat.lt_succ_iff

theorem length_eq_utf8Len_iff (cs) : cs.length = utf8Len cs ↔ cs.all isAscii = true := by
  induction cs with
  | nil => simp
  | cons c cs ih =>
    have hle := length_le_utf8Len cs
    have hpos := c.utf8Size_pos
    rw [utf8Len_cons, length_cons, all_cons, Bool.and_eq_true_iff, ← ih,
      isAscii_iff_utf8Size]
    omega

theorem length_eq_utf8ByteSize_iff (s : String) :
    s.length = s.utf8ByteSize ↔ s.toList.all isAscii = true := by
  rw [← utf8Len_toList]
  exact length_eq_utf8Len_iff s.toList

theorem length_le_utf8ByteSize (s : String) : s.length ≤ s.utf8ByteSize := by
  rw [← utf8Len_toList]
  exact length_le_utf8Len s.toList

/-! ### Literals and fields -/

def Machine.HoldsText (m : Machine) (a : Word) (s : String) : Prop :=
  ∀ i < s.utf8ByteSize, m.memory (a + .ofNat 64 i) = (s.toByteArray.data[i]?.getD 0).toBitVec

instance (m : Machine) (a : Word) (s : String) : Decidable (m.HoldsText a s) :=
  inferInstanceAs (Decidable (∀ i < s.utf8ByteSize, _))

theorem Machine.HoldsText.sameBytes {m : Machine} {a b s}
    (ha : m.HoldsText a s) (hb : m.HoldsText b s) {count} (hle : count ≤ s.utf8ByteSize) :
    SameBytes m.memory a b count := by
  intro i hi
  rw [ha i (by omega), hb i (by omega)]

/-- A program with the routine for equality and a machine where the label of a literal has the
address of a text, and where the record at `x19` has the length word of a packed field and the
address of the same text. -/
structure TextsReady (p : Program) (m : Machine) (label : String) (packed : Packed) (f : Field)
    (s : String) : Prop where
  labels : (labels p.lines).Nodup
  size : p.lines.length < 2 ^ 64
  routine : ∃ j, p.At j equalsRoutine
  literal : m.HoldsText (p.symbols label) s
  text : m.HoldsText (.ofNat 64 (m.memory.load (m.regs 19 + .ofNat 64 f.offset) 8)) s
  length : m.memory.load (m.regs 19 + .ofNat 64 (f.offset + 8)) 8 = packed.image.word (f.offset + 8)

/-- A record without integers that are too large can be packed, and a field with a text has the
number of bytes of its encoding behind the number of its entry. -/
theorem exists_pack_length (hadmits : ∀ f ∈ (shape columns).fields, f.Admits (f.valueIn record))
    (hfits : ∀ f ∈ (shape columns).fields, ∀ n, f.valueIn record = .int n → (Datum.number n).Fits) :
    ∃ packed, pack (shape columns) record = .ok packed ∧
      ∀ f ∈ (shape columns).fields, ∀ s, f.valueIn record = .str s →
        packed.image.word (f.offset + 8) = s.utf8ByteSize % 2 ^ 64 := by
  have hlaid := shape_laid columns
  have hslot : ∀ f ∈ (shape columns).fields, f.slot ∈ (shape columns).slots :=
    fun f hf => mem_map_of_mem hf
  obtain ⟨packed, hpack, hfilled⟩ := Packed.filled_replicate.run
    (fun f hf => hlaid.sized f.slot (hslot f hf))
    (fun f hf => (hlaid.below f.slot (hslot f hf)).trans (le_align _))
    (pairwise_map.mp hlaid.apart) hadmits hfits
  refine ⟨packed, hpack, fun f hf s hs => ?_⟩
  have hholds := hfilled.holds f hf
  rw [hs] at hholds
  cases hholds with
  | str _ _ _ hlength => exact hlength

section

variable {p : Program} {m : Machine} {label : String} {packed : Packed} {f : Field} {s : String}

theorem TextsReady.leavesText (h : TextsReady p m label packed f s)
    (hkeeps : m.Keeps [0, 1, 20, 21] m') : LeavesText p m' [.load (x 0) (x 19) f.offset,
      .load (x 1) (x 19) (f.offset + 8)]
      (.ofNat 64 (m.memory.load (m.regs 19 + .ofNat 64 f.offset) 8))
      (.ofNat 64 (packed.image.word (f.offset + 8))) := by
  have hfield := leavesText_field (p := p) (m := m') f.offset
  rw [hkeeps.memory, hkeeps.regs 19 (by decide), h.length] at hfield
  exact hfield

theorem answer_eq {mem} {a b n n' : Word} {count}
    (hlengths : n = n' ↔ s.toList.all isAscii = true) (hsame : SameBytes mem a b count) :
    (decide (n = n' ∧ SameBytes mem a b count) != decide (Relation.eq = .ne)) =
      s.toList.all isAscii := by
  rw [decide_eq_false (by decide : ¬ Relation.eq = .ne), Bool.bne_false, Bool.eq_iff_iff,
    decide_eq_true_iff, and_iff_left hsame]
  exact hlengths

end

/-- **Lengths of texts.** A literal is given the number of its characters, in its code and its data,
and a packed field the number of its bytes. The two agree exactly when all characters are in the
ASCII range, and so a comparison of a literal with a field that has the same text answers whether
they are. -/
theorem literal_equals_field_iff {columns : List (String × Datatype)} {record : Record}
    (hadmits : ∀ f ∈ (shape columns).fields, f.Admits (f.valueIn record))
    (hfits : ∀ f ∈ (shape columns).fields, ∀ n, f.valueIn record = .int n → (Datum.number n).Fits)
    {f : Field} (hf : f ∈ (shape columns).fields) {s : String} (hs : f.valueIn record = .str s)
    (hsize : s.utf8ByteSize < 2 ^ 63) (function label : String) (issued : Issued) :
    ∃ packed literal, pack (shape columns) record = .ok packed ∧
      packed.image.word (f.offset + 8) = s.utf8ByteSize ∧
      Gives (select function (.text s label)) issued (code literal) issued ∧
      (∀ p m, (run p literal m).regs 1 = .ofNat 64 s.length) ∧
      (literalLines (label, s)).drop 4 =
        [.label (label ++ "_len"), .directive (".quad " ++ toString s.length)] ∧
      (s.length = packed.image.word (f.offset + 8) ↔ s.toList.all isAscii = true) ∧
      ∀ t ∈ [Tree.compare .eq (.text s label) (.loadText f.offset f.name),
          .compare .eq (.loadText f.offset f.name) (.text s label)],
        ∃ lines, Gives (select function t) issued lines issued ∧
          ∀ p k m, Program.At p k lines → TextsReady p m label packed f s →
            p.Answers [0, 1, 2, 3, 4, 5, 6, 20, 21, 30] ⟨m, k⟩ (k + lines.length)
              (s.toList.all isAscii) := by
  obtain ⟨packed, hpack, hwords⟩ := exists_pack_length hadmits hfits
  have hword : packed.image.word (f.offset + 8) = s.utf8ByteSize := by
    rw [hwords f hf s hs, Nat.mod_eq_of_lt (by omega)]
  have hle := length_le_utf8ByteSize s
  have hlengths : BitVec.ofNat 64 s.length = BitVec.ofNat 64 s.utf8ByteSize ↔
      s.toList.all isAscii = true := by
    rw [← length_eq_utf8ByteSize_iff, ← BitVec.toNat_inj, BitVec.toNat_ofNat, BitVec.toNat_ofNat,
      Nat.mod_eq_of_lt (by omega), Nat.mod_eq_of_lt (by omega)]
  have htoNat : ∀ n : Nat, n ≤ s.utf8ByteSize → (BitVec.ofNat 64 n).toNat = n := fun n hn => by
    rw [BitVec.toNat_ofNat, Nat.mod_eq_of_lt (by omega)]
  refine ⟨packed, addressOf (x 0) label ++ [moveImm (x 1) s.length], hpack, hword, rfl,
    fun p m => (leavesText_literal label s.length).length, rfl,
    hword ▸ length_eq_utf8ByteSize_iff s, ?_⟩
  rw [forall_mem_cons, forall_mem_singleton]
  constructor
  · refine ⟨_, rfl, fun p k m hat h => ?_⟩
    obtain ⟨j, hequals⟩ := h.routine
    have hanswer := compare_texts h.labels h.size hequals hat
      (leavesText_literal label s.length) (fun m' hkeeps => h.leavesText hkeeps)
      (by rw [htoNat _ hle]; omega)
    have hsame := h.literal.sameBytes h.text ((htoNat _ hle).trans_le hle)
    rwa [hword, answer_eq hlengths hsame] at hanswer
  · refine ⟨_, rfl, fun p k m hat h => ?_⟩
    obtain ⟨j, hequals⟩ := h.routine
    have hanswer := compare_texts h.labels h.size hequals hat
      (h.leavesText (.refl m)) (fun m' _ => leavesText_literal label s.length)
      (by rw [hword, htoNat _ le_rfl]; exact hsize)
    have hsame := h.text.sameBytes h.literal (htoNat _ le_rfl).le
    rwa [hword, answer_eq (eq_comm.trans hlengths) hsame] at hanswer

def accentProgram : Program where
  lines := code (addressOf (x 0) "str_0" ++ [.moveImm (x 1) 1] ++ keepLeft .text ++
    [.load (x 0) (x 19) 0, .load (x 1) (x 19) 8] ++ compareOperands .eq .text .text) ++
      equalsRoutine
  symbols _ := 0x1000

/-- The encoding of the text lies at `0x1000`, and a record with that address and two bytes as
length at `0x2000`. -/
def accentMachine : Machine where
  regs _ := 0x2000
  sp := 0
  flags := .ofSub 0#64 0#64
  memory a := if a = 0x1000 then 0xc3 else if a = 0x1001 then 0xa9 else if a = 0x2001 then 0x10
    else if a = 0x2008 then 2 else 0

theorem fields_accent : (shape [("Name", .text)]).fields = [⟨"name", .text, 0, 16, "name"⟩] := by
  decide +kernel

/-- The literal `"é"` is not equal to a field that holds `é`. -/
theorem literal_equals_field_iff_accent :
    ∃ packed, pack (shape [("Name", .text)]) [("name", .str "é")] = .ok packed ∧
      packed.image.word 8 = 2 ∧
      TextsReady accentProgram accentMachine "str_0" packed ⟨"name", .text, 0, 16, "name"⟩ "é" ∧
      ∃ m', accentProgram.Reaches ⟨accentMachine, 0⟩ ⟨m', 12⟩ ∧ m'.regs 0 = 0 := by
  have hvalue : Field.valueIn ⟨"name", .text, 0, 16, "name"⟩ [("name", .str "é")] = .str "é" := by
    cbv
  have hadmits : ∀ f ∈ (shape [("Name", .text)]).fields,
      f.Admits (f.valueIn [("name", .str "é")]) := by
    rw [fields_accent, forall_mem_singleton, hvalue]
    refine ⟨rfl, fun c hc => ?_⟩
    obtain rfl : c = 'é' := by simpa using hc
    decide
  have hfits : ∀ f ∈ (shape [("Name", .text)]).fields, ∀ n,
      f.valueIn [("name", .str "é")] = .int n → (Datum.number n).Fits := by
    rw [fields_accent, forall_mem_singleton, hvalue]
    intro n hn
    cases hn
  obtain ⟨packed, literal, hpack, hword, -, -, -, -, hcompare⟩ := literal_equals_field_iff hadmits
    hfits (fields_accent ▸ mem_singleton_self _) hvalue (by decide) "f" "str_0" {}
  have hsize : "é".utf8ByteSize = 2 := by decide
  have hready : TextsReady accentProgram accentMachine "str_0" packed
      ⟨"name", .text, 0, 16, "name"⟩ "é" :=
    { labels := by decide
      size := by decide
      routine := ⟨12, [], rfl⟩
      literal := by decide
      text := by decide
      length := by
        rw [hword, hsize]
        decide }
  obtain ⟨lines, hlines, hruns⟩ := hcompare _ (.head _)
  cases hlines
  obtain ⟨m', hreach, hanswer, -⟩ := hruns accentProgram 0 accentMachine ⟨equalsRoutine, rfl⟩ hready
  exact ⟨packed, hpack, hword.trans hsize, hready, m', hreach, hanswer⟩

end Rulebook.Native
