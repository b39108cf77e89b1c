/-
The texts of a record, and integer constants in a register.

Two fields that hold texts are compared by one routine, whatever the sign between them is, and the
routine tells equality only.
-/

import Rulebook.Proofs.Formula.Printing
import Rulebook.Proofs.Native.Equality

namespace Rulebook.Native

open Formula Reg

/-! ### Order of texts -/

/-- The bytes of a text lie in memory from an address on. -/
def Memory.Holds (mem : Memory) (a : Word) (s : List Byte) : Prop :=
  ∀ i < s.length, mem (a + .ofNat 64 i) = s.getD i 0

instance (mem : Memory) (a : Word) (s : List Byte) : Decidable (mem.Holds a s) :=
  inferInstanceAs (Decidable (∀ i < s.length, _))

theorem Memory.Holds.sameBytes_iff (ha : mem.Holds a s) (hb : mem.Holds b t) :
    s.length = t.length ∧ SameBytes mem a b s.length ↔ s = t := by
  constructor
  · rintro ⟨hlength, hsame⟩
    refine List.ext_getElem hlength fun i hi hi' => ?_
    have hbyte := hsame i hi
    rw [ha i hi, hb i hi'] at hbyte
    simpa [hi, hi'] using hbyte
  · rintro rfl
    refine ⟨rfl, fun i hi => ?_⟩
    rw [ha i hi, hb i hi]

/-- Two texts compared in the lexicographic order of their bytes. -/
def textRelates? (s t : List Byte) : Relation → Option Bool
  | .eq => some (decide (s = t))
  | .ne => some (decide (s ≠ t))
  | .lt => some (decide (s < t))
  | .le => some (decide (s ≤ t))
  | .gt => some (decide (t < s))
  | .ge => some (decide (t ≤ s))
  | .other _ => none

/-- Equality stands for a comparison exactly when it is one for equality, or one that holds with the
texts exchanged. -/
theorem equality_relates_iff (h : textRelates? s t op = some truth) :
    (decide (s = t) != decide (op = .ne)) = truth ↔
      op = .eq ∨ op = .ne ∨ textRelates? t s op = some true := by
  have hirrefl : ¬ s < s := List.lt_irrefl s
  have htotal : ¬ s < t → ¬ t < s → s = t := fun hst hts => List.le_antisymm hts hst
  have hasymm : s < t → ¬ t < s := List.lt_asymm
  cases op <;> cases h <;> simp only [textRelates?, ← List.not_lt] <;> grind

/-- A program with the routine for equality, and a machine whose record at `x19` has the addresses
and the lengths of two texts at two offsets. -/
structure TextFields (p : Program) (m : Machine) (offset offset' : Nat) (s t : List Byte) : Prop where
  labels : (labels p.lines).Nodup
  size : p.lines.length < 2 ^ 64
  routine : ∃ j, p.At j equalsRoutine
  left : m.memory.Holds (.ofNat 64 (m.memory.load (m.regs 19 + .ofNat 64 offset) 8)) s
  leftLength : m.memory.load (m.regs 19 + .ofNat 64 (offset + 8)) 8 = s.length
  leftShort : s.length < 2 ^ 63
  right : m.memory.Holds (.ofNat 64 (m.memory.load (m.regs 19 + .ofNat 64 offset') 8)) t
  rightLength : m.memory.load (m.regs 19 + .ofNat 64 (offset' + 8)) 8 = t.length
  rightShort : t.length < 2 ^ 63

/-- **Comparing two fields** asks for equality whatever the sign is. So the answer is right exactly
for the signs of equality and difference, and otherwise when the comparison holds with its sides
exchanged: `"a" < "b"` is denied and `"b" < "a"` is too. -/
theorem compare_text_fields_iff (op : Relation) (offset offset' : Nat)
    (field field' function : String) (issued : Issued) :
    ∃ lines, Gives (select function (.compare op (.loadText offset field)
        (.loadText offset' field'))) issued lines issued ∧
      ∀ p k m s t, Program.At p k lines → TextFields p m offset offset' s t →
        ∃ answer, p.Answers [0, 1, 2, 3, 4, 5, 6, 20, 21, 30] ⟨m, k⟩ (k + lines.length) answer ∧
          (answer = true ↔ if op = .ne then s ≠ t else s = t) ∧
          ∀ truth, textRelates? s t op = some truth →
            (answer = truth ↔ op = .eq ∨ op = .ne ∨ textRelates? t s op = some true) := by
  refine ⟨_, rfl, fun p k m s t hat h => ?_⟩
  obtain ⟨j, hequals⟩ := h.routine
  have htoNat : ∀ {r : List Byte}, r.length < 2 ^ 63 → (BitVec.ofNat 64 r.length).toNat = r.length :=
    fun hr => by rw [BitVec.toNat_ofNat, Nat.mod_eq_of_lt (by omega)]
  have hright : ∀ m', m.Keeps [0, 1, 20, 21] m' → LeavesText p m' [.load (x 0) (x 19) offset',
      .load (x 1) (x 19) (offset' + 8)]
      (.ofNat 64 (m.memory.load (m.regs 19 + .ofNat 64 offset') 8)) (.ofNat 64 t.length) := by
    intro m' hkeeps
    have hfield := leavesText_field (p := p) (m := m') offset'
    rwa [hkeeps.memory, hkeeps.regs 19 (by decide), h.rightLength] at hfield
  have hleft := leavesText_field (p := p) (m := m) offset
  rw [h.leftLength] at hleft
  have hanswer := compare_texts h.labels h.size hequals hat hleft hright
    ((htoNat h.leftShort).trans_lt h.leftShort)
  have hlengths : BitVec.ofNat 64 s.length = BitVec.ofNat 64 t.length ↔ s.length = t.length := by
    rw [← BitVec.toNat_inj, htoNat h.leftShort, htoNat h.rightShort]
  simp only [htoNat h.leftShort, hlengths, h.left.sameBytes_iff h.right] at hanswer
  refine ⟨_, hanswer, ?_, fun truth => equality_relates_iff⟩
  by_cases hne : op = .ne <;> simp [hne]

def precedesProgram : Program where
  lines := code ([.load (x 0) (x 19) 0, .load (x 1) (x 19) 8] ++ keepLeft .text ++
    [.load (x 0) (x 19) 16, .load (x 1) (x 19) 24] ++ compareOperands .lt .text .text) ++
      equalsRoutine
  symbols _ := 0

def precedesMachine : Machine where
  regs _ := 0x2000
  sp := 0
  flags := .ofSub 0#64 0#64
  memory a := if a = 0x1000 then 0x61 else if a = 0x1001 then 0x62 else if a = 0x2001 then 0x10
    else if a = 0x2010 then 1 else if a = 0x2011 then 0x10 else if a = 0x2008 then 1
    else if a = 0x2018 then 1 else 0

/-- Of two fields that hold `a` and `b`, the code denies that the first comes before the second. -/
theorem compare_text_fields_iff_precedes :
    TextFields precedesProgram precedesMachine 0 16 [0x61] [0x62] ∧
      textRelates? [0x61] [0x62] .lt = some true ∧
      ∃ m', precedesProgram.Reaches ⟨precedesMachine, 0⟩ ⟨m', 11⟩ ∧ m'.regs 0 = 0 := by
  have hfields : TextFields precedesProgram precedesMachine 0 16 [0x61] [0x62] :=
    { labels := by decide
      size := by decide
      routine := ⟨11, [], rfl⟩
      left := by decide
      leftLength := by decide
      leftShort := by decide
      right := by decide
      rightLength := by decide
      rightShort := by decide }
  obtain ⟨lines, hlines, hruns⟩ := compare_text_fields_iff .lt 0 16 "a" "b" "f" {}
  cases hlines
  obtain ⟨answer, ⟨m', hreach, hvalue, -⟩, hanswer, -⟩ := hruns precedesProgram 0 precedesMachine
    _ _ ⟨equalsRoutine, rfl⟩ hfields
  obtain rfl : answer = false := by simpa using hanswer
  exact ⟨hfields, rfl, m', hreach, hvalue⟩

/-! ### Literals in formulas -/

theorem isTooLong_of_fits (hlo : -2 ^ 63 ≤ v) (hhi : v < 2 ^ 63) : Numeral.isTooLong v = false := by
  have hdigits : 19 ≤ Numeral.maxDigits := by decide
  unfold Numeral.isTooLong
  generalize Numeral.maxDigits = digits at hdigits ⊢
  have hpow : Nat.pow 10 19 ≤ Nat.pow 10 digits := Nat.pow_le_pow_right (by decide) hdigits
  have hvalue : Nat.pow 10 19 = 10000000000000000000 := rfl
  exact decide_eq_false (by omega)

theorem parse_numeral (h : Numeral.isTooLong v = false) :
    Formula.parse ("=" ++ toString v) = .ok (.int v) := by
  have hprintable : (Expr.int v).Printable := by
    intro e he
    obtain rfl : e = .int v := by simpa [Expr.subterms] using he
    exact h
  refine parse_of_scans ?_
  have hbody : body ("=" ++ toString v).toList = (Expr.int v).chars .blank := by
    rw [String.toList_append]
    rfl
  rw [hbody]
  exact hprintable.readBack .blank [] notAhead_nil

/-! ### Negative numbers -/

theorem constant_of_neg (hv : v < 0) : constant v = [.moveImm (x 0) (v % 65536).toNat] := by
  have hhalf : halfWord v 0 = (v % 65536).toNat := by
    unfold halfWord
    congr 2
    exact Int.ediv_one v
  unfold constant
  rw [if_neg (by simp; omega), if_neg (by omega), if_neg (by omega), hhalf]
  rfl

/-- **The sign is lost**: of a negative number the lowest half word is put into the register. -/
theorem run_constant_of_neg (p : Program) (m) (hv : v < 0) :
    p.run (constant v) m = m.write (x 0) (BitVec.ofInt 64 (v % 65536)) := by
  have hnonneg : 0 ≤ v % 65536 := Int.emod_nonneg v (by decide)
  have hword : BitVec.ofNat 64 (v % 65536).toNat = BitVec.ofInt 64 (v % 65536) := by
    rw [← BitVec.ofInt_natCast, Int.toNat_of_nonneg hnonneg]
  rw [constant_of_neg hv, Program.run_cons, Program.run_nil, Instr.effect, hword]

theorem word_lowHalf_ne (hlo : -2 ^ 63 ≤ v) (hv : v < 0) :
    BitVec.ofInt 64 (v % 65536) ≠ BitVec.ofInt 64 v := by
  intro heq
  have hlow := congrArg BitVec.toNat heq
  rw [BitVec.toNat_ofInt, BitVec.toNat_ofInt] at hlow
  omega

/-! ### The code of an integer literal -/

theorem run_constant_eq (p : Program) (m) (hhi : v < 2 ^ 63) : p.run (constant v) m =
      m.write (x 0) (BitVec.ofInt 64 (if 0 ≤ v then v else v % 65536)) := by
  by_cases hv : 0 ≤ v
  · obtain ⟨n, rfl⟩ := Int.eq_ofNat_of_zero_le hv
    exact run_constant p m (by omega)
  · rw [if_neg hv]
    exact run_constant_of_neg p m (by omega)

/-- **Integer constants.** Every integer of 64 bits with sign is the value of a formula. Wherever
the code of its literal stands, it runs to the line after it and changes no other register. It
leaves the integer in `x0` exactly when the integer is not negative; of a negative one it leaves the
lowest sixteen bits. -/
theorem constant_represents_iff {v : Int} (hlo : -2 ^ 63 ≤ v) (hhi : v < 2 ^ 63)
    (layout : List Slot) (labelling : Labelling) (name : String) (issued : Issued) :
    Formula.parse ("=" ++ toString v) = .ok (.int v) ∧
    ∃ t lines, (lower layout (.int v)).run labelling = (.ok t, labelling) ∧
      Gives (select name t) issued lines issued ∧
      ∀ (p : Program) (k : Nat) (m : Machine), p.At k lines →
        ∃ m', p.Reaches ⟨m, k⟩ ⟨m', k + lines.length⟩ ∧ m.Keeps [0] m' ∧
          m'.regs 0 = BitVec.ofInt 64 (if 0 ≤ v then v else v % 65536) ∧
          (m'.regs 0 = BitVec.ofInt 64 v ↔ 0 ≤ v) := by
  refine ⟨parse_numeral (isTooLong_of_fits hlo hhi), .int v, code (constant v), ?_, ?_, ?_⟩
  · rw [lower]
    rfl
  · rfl
  intro p k m hat
  have hreach := Program.reaches_code (m := m) hat (linear_constant v)
  rw [run_constant_eq p m hhi] at hreach
  refine ⟨_, hreach, m.keeps_write (by simp) _, ?_, ?_⟩
  · rw [Machine.regs_write_x, if_pos rfl]
  · rw [Machine.regs_write_x, if_pos rfl]
    constructor
    · intro heq
      by_contra hv
      rw [if_neg hv] at heq
      exact word_lowHalf_ne hlo (by omega) heq
    · intro hv
      rw [if_pos hv]

/-- The literal of the formula `=-5` leaves 65531 in the register. -/
theorem constant_represents_iff_minusFive :
    (-2 ^ 63 ≤ (-5 : Int) ∧ (-5 : Int) < 2 ^ 63) ∧ Formula.parse "=-5" = .ok (.int (-5)) ∧
    ∃ lines, Gives (select "eval_f" (.int (-5))) {} lines {} ∧
      lines = [.instr (.moveImm (x 0) 65531)] ∧
      ∀ (p : Program) (k : Nat) (m : Machine), p.At k lines →
        ∃ m', p.Reaches ⟨m, k⟩ ⟨m', k + lines.length⟩ ∧ m'.regs 0 = 65531 ∧
          m'.regs 0 ≠ BitVec.ofInt 64 (-5) := by
  obtain ⟨hparse, t, lines, hlower, hgives, hruns⟩ := constant_represents_iff (v := -5) (by decide)
    (by decide) [] (.start []) "eval_f" {}
  rw [lower] at hlower
  cases hlower
  rw [select, gives_pure] at hgives
  obtain ⟨rfl, -⟩ := hgives
  refine ⟨by decide, hparse, code (constant (-5)), ?_, rfl, ?_⟩
  · rfl
  intro p k m hat
  obtain ⟨m', hreach, -, hvalue, hiff⟩ := hruns p k m hat
  refine ⟨m', hreach, hvalue, ?_⟩
  intro heq
  exact absurd (hiff.mp heq) (by decide)

end Rulebook.Native
