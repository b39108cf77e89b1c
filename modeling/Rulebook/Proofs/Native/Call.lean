/-
Functions and their callers.
-/

import Rulebook.Proofs.Native.Simulation

namespace Rulebook.Native

open List Formula Reg Program

/-! ### Frames -/

/-- Stores words below an address: of each slot, the distance and the register to save. -/
def storeWords (top : Word) (regs : Nat → Word) (slots : List (Nat × Nat)) (mem : Memory) :
    Memory :=
  slots.foldl (fun mem s => mem.store (top - .ofNat 64 s.1) 8 (regs s.2).toNat) mem

theorem word_disjoint (top : Word) (hd : 8 ∣ d) (hd' : 8 ∣ d') (hne : d ≠ d')
    (hlt : d < 2 ^ 32) (hlt' : d' < 2 ^ 32) :
    ∀ i < 8, 8 ≤ (top - .ofNat 64 d + .ofNat 64 i - (top - .ofNat 64 d')).toNat := by
  intro i hi
  have hdiff : top - .ofNat 64 d + .ofNat 64 i - (top - .ofNat 64 d') =
      BitVec.ofNat 64 d' - BitVec.ofNat 64 d + BitVec.ofNat 64 i := by ring
  rw [hdiff, BitVec.toNat_add, BitVec.toNat_sub, BitVec.toNat_ofNat, BitVec.toNat_ofNat,
    BitVec.toNat_ofNat]
  omega

section

variable {top : Word} {regs : Nat → Word} {slots : List (Nat × Nat)} {mem : Memory}

theorem load_storeWords_of_notMem (hslots : ∀ s ∈ slots, 8 ∣ s.1 ∧ s.1 < 2 ^ 32)
    (hd : 8 ∣ d) (hlt : d < 2 ^ 32) (hmem : d ∉ slots.map Prod.fst) :
    (storeWords top regs slots mem).load (top - .ofNat 64 d) 8 =
      mem.load (top - .ofNat 64 d) 8 := by
  induction slots generalizing mem with
  | nil => rfl
  | cons s slots ih =>
    rw [map_cons, mem_cons, not_or] at hmem
    obtain ⟨hs, hs'⟩ := hslots s (.head _)
    change (storeWords top regs slots _).load _ 8 = _
    rw [ih (fun s' hs' => hslots s' (mem_cons_of_mem s hs')) hmem.2]
    exact Memory.load_store_of_disjoint (word_disjoint top hd hs hmem.1 hlt hs')

/-- **Saved words** are found again. -/
theorem load_storeWords (hslots : ∀ s ∈ slots, 8 ∣ s.1 ∧ s.1 < 2 ^ 32)
    (hnodup : (slots.map Prod.fst).Nodup) :
    ∀ s ∈ slots, (storeWords top regs slots mem).load (top - .ofNat 64 s.1) 8 =
      (regs s.2).toNat := by
  induction slots generalizing mem with
  | nil => simp
  | cons s slots ih =>
    obtain ⟨hnew, hnodup⟩ := nodup_cons.mp hnodup
    have hrest := fun s' hs' => hslots s' (mem_cons_of_mem s hs')
    intro s' hs'
    rcases mem_cons.mp hs' with rfl | hs'
    · obtain ⟨hd, hlt⟩ := hslots s' (.head _)
      change (storeWords top regs slots _).load _ 8 = _
      rw [load_storeWords_of_notMem hrest hd hlt hnew, Memory.load_store (by decide)]
      exact Nat.mod_eq_of_lt (regs s'.2).isLt
    · exact ih hrest hnodup s' hs'

def frameSize : Nat := 320

/-- An address that is not in the frame of a function called with this stack pointer. -/
def OutsideFrame (sp a : Word) : Prop := frameSize ≤ (a - (sp - .ofNat 64 frameSize)).toNat

theorem storeWords_of_le (hslots : ∀ s ∈ slots, 8 ≤ s.1 ∧ s.1 ≤ size)
    (ha : size ≤ (a - (top - .ofNat 64 size)).toNat) : storeWords top regs slots mem a = mem a := by
  induction slots generalizing mem with
  | nil => rfl
  | cons s slots ih =>
    obtain ⟨hlo, hhi⟩ := hslots s (.head _)
    change storeWords top regs slots _ a = _
    rw [ih fun s' hs' => hslots s' (mem_cons_of_mem s hs')]
    refine Memory.store_of_le ?_
    simp only [BitVec.toNat_sub, BitVec.toNat_ofNat] at ha ⊢
    omega

end

def savedSlots : List (Nat × Nat) :=
  [(16, 29), (8, 30), (32, 19), (24, 20), (48, 21), (40, 22), (64, 23), (56, 24)]

theorem word_sub_sub (a b c : Word) : a - b - c = a - (b + c) := by ring

theorem word_sub_add (a b c : Word) : a - b + c = a - (b - c) := by ring

theorem linear_entryCode : Linear entryCode := by
  simp [Linear, entryCode, Instr.flow]

theorem run_entryCode (p : Program) (m) : (p.run entryCode m).regs 19 = m.regs 0 ∧
      (∀ n, n ∉ savedSlots.map Prod.snd → (p.run entryCode m).regs n = m.regs n) ∧
      (p.run entryCode m).sp = m.sp - 320 ∧
      (p.run entryCode m).memory = storeWords m.sp m.regs savedSlots m.memory := by
  refine ⟨?_, fun n hn => ?_, ?_, ?_⟩
  · simp [entryCode, Instr.effect, Machine.read]
  · have hne : n ≠ 19 ∧ n ≠ 29 := by
      constructor <;> rintro rfl <;> exact hn (by decide)
    simp [entryCode, Instr.effect, hne]
  · simp [entryCode, Instr.effect, Machine.read, word_sub_sub]
  · simp [entryCode, Instr.effect, Machine.read, storeWords, savedSlots, word_sub_sub]

def restoreCode : List Instr :=
  [.addImm sp sp 256, .popPair (x 23) (x 24), .popPair (x 21) (x 22), .popPair (x 19) (x 20),
    .popPair (x 29) (x 30)]

theorem code_exitCode : code exitCode = code restoreCode ++ [.instr .ret] := rfl

theorem linear_restoreCode : Linear restoreCode := by
  simp [Linear, restoreCode, Instr.flow]

theorem run_restoreCode (p : Program) {regs : Nat → Word} (hsp : m.sp = top - 320)
    (hsaved : ∀ s ∈ savedSlots, m.memory.load (top - .ofNat 64 s.1) 8 = (regs s.2).toNat) :
    (p.run restoreCode m).sp = top ∧ (p.run restoreCode m).memory = m.memory ∧
      (∀ s ∈ savedSlots, (p.run restoreCode m).regs s.2 = regs s.2) ∧
      ∀ n, n ∉ savedSlots.map Prod.snd → (p.run restoreCode m).regs n = m.regs n := by
  -- Once the frame is given back, the stack pointer is at the pair that was saved last.
  obtain ⟨m1, hm1⟩ : ∃ m1, m1 = (Instr.addImm sp sp 256).effect p.symbols m := ⟨_, rfl⟩
  have hsp1 : m1.sp = top - 64 := by
    rw [hm1]
    change m.sp + 256#64 = top - 64
    rw [hsp, word_sub_add]
    rfl
  have hmemory1 : m1.memory = m.memory := by rw [hm1]; rfl
  have hregs1 : m1.regs = m.regs := by rw [hm1]; rfl
  have hslot : ∀ s ∈ savedSlots,
      BitVec.ofNat 64 (m.memory.load (top - .ofNat 64 s.1) 8) = regs s.2 := by
    intro s hs
    rw [hsaved s hs, BitVec.ofNat_toNat, BitVec.setWidth_eq]
  simp only [restoreCode, run_cons, run_nil, ← hm1, sp_popPair, memory_popPair,
    regs_popPair, hsp1, hmemory1, hregs1, word_sub_add]
  refine ⟨by simp, trivial, by simpa [savedSlots] using hslot, fun n hn => ?_⟩
  simp only [savedSlots, map_cons, mem_cons, not_or] at hn
  simp [hn]

/-! ### Calls -/

/-- **What a caller finds** when a function it called in one state returns in another: the value in
`x0`, and all else as it was, up to flags and the frame of the function. -/
structure Machine.Returned (m m' : Machine) (v : Datum) : Prop where
  value : m'.regs 0 = v.word
  regs : ∀ n, n ≠ 0 → m'.regs n = m.regs n
  sp : m'.sp = m.sp
  memory : ∀ a, OutsideFrame m.sp a → m'.memory a = m.memory a

section

variable {r : Image} {v : Datum} {m : Machine}

theorem storeWords_savedSlots (ha : OutsideFrame m.sp a) :
    storeWords m.sp m.regs savedSlots m.memory a = m.memory a :=
  storeWords_of_le (by decide) ha

theorem sees_entryCode (p : Program) (hm : m.Holds r (m.regs 0))
    (hout : ∀ i < r.size, OutsideFrame m.sp (m.regs 0 + .ofNat 64 i)) :
    (p.run entryCode m).Sees r := by
  obtain ⟨hrecord, -, -, hmemory⟩ := run_entryCode p m
  intro i hi
  rw [hmemory, hrecord, storeWords_savedSlots (hout i hi), hm i hi]

theorem returned_restoreCode (p : Program)
    (hkeeps : (p.run entryCode m).Keeps [0, 20] m') (hvalue : m'.regs 0 = v.word) :
    m.Returned (p.run restoreCode m') v := by
  obtain ⟨-, hentry, hsp, hmemory⟩ := run_entryCode p m
  have hsaved : ∀ s ∈ savedSlots, m'.memory.load (m.sp - .ofNat 64 s.1) 8 = (m.regs s.2).toNat := by
    rw [hkeeps.memory, hmemory]
    exact load_storeWords (by decide) (by decide)
  obtain ⟨hsp', hmemory', hrestored, hother⟩ := run_restoreCode p (hkeeps.sp.trans hsp) hsaved
  refine ⟨?_, fun n hn => ?_, hsp', fun a ha => ?_⟩
  · rw [hother 0 (by decide), hvalue]
  · by_cases hslot : n ∈ savedSlots.map Prod.snd
    · obtain ⟨s, hs, rfl⟩ := mem_map.mp hslot
      exact hrestored s hs
    · have hne : n ≠ 20 := by
        rintro rfl
        exact hslot (by decide)
      rw [hother n hslot, hkeeps.regs n (by simp [hn, hne]), hentry n hslot]
  · rw [hmemory', hkeeps.memory, hmemory, storeWords_savedSlots ha]

theorem Runs.reaches_ret {body} (h : Runs r [0, 20] body v) {p : Program}
    (hp : (labels p.lines).Nodup) {k}
    (hat : p.At k (code entryCode ++ body ++ code exitCode)) (hm : m.Holds r (m.regs 0))
    (hout : ∀ i < r.size, OutsideFrame m.sp (m.regs 0 + .ofNat 64 i)) :
    ∃ m' k', p.Reaches ⟨m, k⟩ ⟨m', k'⟩ ∧ p.lines[k']? = some (.instr .ret) ∧ m.Returned m' v := by
  rw [append_assoc, code_exitCode] at hat
  obtain ⟨hatEntry, hrest⟩ := at_append.mp hat
  obtain ⟨hatBody, hrest⟩ := at_append.mp hrest
  obtain ⟨hatRestore, hatRet⟩ := at_append.mp hrest
  have hentry := reaches_code (m := m) hatEntry linear_entryCode
  obtain ⟨m1, hbody, hvalue, hkeeps⟩ := h p hp _ hatBody _ (sees_entryCode p hm hout)
  have hrestore := reaches_code (m := m1) hatRestore linear_restoreCode
  refine ⟨p.run restoreCode m1, _, (hentry.trans hbody).trans hrestore,
    (at_cons.mp hatRet).1, returned_restoreCode p hkeeps hvalue⟩

end

/-- **The function of a tree returns its value.** Called with the address of a record that the tree
suits in `x0`, where its frame has no byte of the record, it comes to its return with the value of
the tree in `x0` and leaves the record, the other registers and all memory outside the frame as they
were. -/
theorem function_computes {r : Image} {d : Datatype} {t : Tree} (h : Suits r d t) (name : String)
    (s : Issued) :
    ∃ v, t.value r = some v ∧ v.type = d ∧ ∃ lines s', Gives (function name t) s lines s' ∧
      ∀ (symbols : String → Word) (m : Machine), m.Holds r (m.regs 0) →
        (∀ i < r.size, OutsideFrame m.sp (m.regs 0 + .ofNat 64 i)) →
        ∃ start k m', Program.placeOf? ⟨lines, symbols⟩ ("_" ++ name) = some start ∧
          Program.Reaches ⟨lines, symbols⟩ ⟨m, start⟩ ⟨m', k⟩ ∧
          lines[k]? = some (.instr .ret) ∧ m.Returned m' v ∧ m'.Holds r (m.regs 0) := by
  obtain ⟨v, hv, htype, -⟩ := h.exists_value
  obtain ⟨body, s', hbody, hruns⟩ := h.compiles name v hv s
  have hgives := gives_function.mpr ⟨body, hbody, rfl⟩
  refine ⟨v, hv, htype, _, s', hgives, fun symbols m hm hout => ?_⟩
  have hnodup := nodup_labels_function hgives
  generalize hlines : _ ++ [Line.blank] = lines at hnodup ⊢
  have hat : At ⟨lines, symbols⟩ 2
      (.label ("_" ++ name) :: (code entryCode ++ body ++ code exitCode)) := by
    refine ⟨[.blank], ?_⟩
    rw [← hlines]
    rfl
  obtain ⟨hlabel, hbodyAt⟩ := at_cons.mp hat
  have hstart := reaches_next (m := m) hlabel rfl
  obtain ⟨m', k, hreach, hret, hreturned⟩ := hruns.reaches_ret hnodup hbodyAt hm hout
  refine ⟨2, k, m', placeOf?_of_at hnodup hlabel, hstart.trans hreach, hret, hreturned,
    fun i hi => ?_⟩
  rw [hreturned.memory _ (hout i hi), hm i hi]

def gaugeImage : Image where
  size := 16
  byte i := if i = 0 then 1 else if i = 8 then 0xfd else if 8 < i then 0xff else 0

def gaugeTree : Tree :=
  .ite (.and [.loadBool 0 "counts", .compare .lt (.loadInt 8 "level") (.int 70000)])
    (.loadInt 8 "level") (.int 5)

def gaugeMachine : Machine where
  regs _ := 0x9000
  sp := 0x8000
  flags := ⟨false, false, false⟩
  memory a := gaugeImage.byte (a - 0x9000).toNat

theorem suits_gaugeTree : Suits gaugeImage .integer gaugeTree := by
  refine .ite (.and fun e he => ?_) (.loadInt (by decide)) (.int (by decide) (by decide))
  rw [mem_cons, mem_singleton] at he
  rcases he with rfl | rfl
  · exact .loadBool (by decide) (by decide)
  · exact .compare (by simp) (.loadInt (by decide)) (.int (by decide) (by decide)) trivial

theorem value_gaugeTree : gaugeTree.value gaugeImage = some (.number (-3)) := by
  decide +kernel

theorem function_computes_gaugeTree :
    Suits gaugeImage .integer gaugeTree ∧ gaugeMachine.Holds gaugeImage (gaugeMachine.regs 0) ∧
      (∀ i < gaugeImage.size, OutsideFrame gaugeMachine.sp (gaugeMachine.regs 0 + .ofNat 64 i)) ∧
      ∃ lines s', Gives (function "level" gaugeTree) {} lines s' ∧
        ∃ start k m', Program.placeOf? ⟨lines, fun _ => 0⟩ "_level" = some start ∧
          Program.Reaches ⟨lines, fun _ => 0⟩ ⟨gaugeMachine, start⟩ ⟨m', k⟩ ∧
          lines[k]? = some (.instr .ret) ∧ gaugeMachine.Returned m' (.number (-3)) ∧
          m'.Holds gaugeImage (gaugeMachine.regs 0) := by
  have hholds : gaugeMachine.Holds gaugeImage (gaugeMachine.regs 0) := by
    unfold Machine.Holds
    decide
  have hout : ∀ i < gaugeImage.size,
      OutsideFrame gaugeMachine.sp (gaugeMachine.regs 0 + .ofNat 64 i) := by
    unfold OutsideFrame
    decide
  obtain ⟨v, hv, -, lines, s', hgives, hcall⟩ := function_computes suits_gaugeTree "level" {}
  cases value_gaugeTree.symm.trans hv
  exact ⟨suits_gaugeTree, hholds, hout, lines, s', hgives, hcall _ _ hholds hout⟩

end Rulebook.Native
