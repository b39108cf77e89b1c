/-
What the code of a tree writes.

Registers and places on the stack are fixed, so what is overwritten depends on the nodes of the
tree.
-/

import Rulebook.Proofs.Native.Call

namespace Rulebook.Native

open List Formula Reg Instr Native.Tree

/-! ### Spared registers -/

/-- An instruction does not write a register, whole or half. -/
def Instr.Spares (n : Nat) (i : Instr) : Prop := x n ∉ i.writes ∧ w n ∉ i.writes

section

variable {i : Instr} {n : Nat} (symbols : String → Word) (m : Machine)

theorem Machine.regs_write_of_ne (hx : x n ≠ r) (hw : w n ≠ r) (v) :
    (m.write r v).regs n = m.regs n := by
  cases r with
  | x k =>
    have hne : n ≠ k := by simpa using hx
    rw [regs_write_x, if_neg hne]
  | w k =>
    have hne : n ≠ k := by simpa using hw
    rw [regs_write_w, if_neg hne]
  | sp => rfl

theorem Machine.sp_write_of_ne (h : Reg.sp ≠ r) (v) : (m.write r v).sp = m.sp := by
  cases r with
  | sp => exact absurd rfl h
  | _ => rfl

/-- **Spared registers keep their contents.** -/
theorem Instr.Spares.regs_effect (h : i.Spares n) : (i.effect symbols m).regs n = m.regs n := by
  obtain ⟨hx, hw⟩ := h
  cases i <;>
    simp only [writes, mem_cons, not_or] at hx hw <;>
    simp [effect, Machine.regs_write_of_ne, hx, hw]

theorem Instr.sp_effect (h : sp ∉ i.writes) : (i.effect symbols m).sp = m.sp := by
  cases i <;> simp_all [writes, effect, Machine.sp_write_of_ne]

end

/-! ### Quiet instructions -/

theorem Instr.spares_of_quiet {i : Instr} (h : i.quiet) (hn : n ∉ workRegs) : i.Spares n := by
  obtain ⟨hall, -⟩ := Bool.and_eq_true_iff.mp h
  rw [all_eq_true] at hall
  constructor
  · intro hmem
    exact hn (contains_iff_mem.mp (hall _ hmem))
  · intro hmem
    exact hn (contains_iff_mem.mp (hall _ hmem))

theorem Instr.sp_notMem_writes {i : Instr} (h : i.quiet) : sp ∉ i.writes := by
  obtain ⟨hall, -⟩ := Bool.and_eq_true_iff.mp h
  rw [all_eq_true] at hall
  intro hmem
  exact absurd (hall _ hmem) (by simp [Reg.isWork])

section

variable {function : String} {t : Tree} {s s' : Issued} {ls : List Line} {Q : Instr → Prop}

/-- **The code of a tree** has a property of quiet instructions throughout exactly when what each
node keeps has it. -/
theorem throughout_select_iff (hQ : ∀ i : Instr, i.quiet → Q i)
    (h : Gives (select function t) s ls s') :
    Throughout Q ls ↔ ∀ u ∈ t.nodes, ∀ i ∈ u.kept, Q i := by
  rw [(coded_select h).throughout Q hQ, forall_mem_flatMap]

end

/-! ### Runs through code -/

/-- One step in which a called routine runs as a whole. It comes back behind the call, and `callee`
says what it may have done. -/
inductive Program.Passes (p : Program) (callee : Machine → Machine → Prop) : Config → Config → Prop
  | step {c c' : Config} {line : Line} : p.lines[c.place]? = some line →
      (∀ l, line.instr? ≠ some (.call l)) → p.step c = some c' → p.Passes callee c c'
  | call {m m' : Machine} {k : Nat} {line : Line} {l : String} : p.lines[k]? = some line →
      line.instr? = some (.call l) → callee m m' → p.Passes callee ⟨m, k⟩ ⟨m', k + 1⟩

/-- A run through lines that stand in a program from a place on. -/
def Program.Inside (p : Program) (callee : Machine → Machine → Prop) (k : Nat) (ls : List Line) :
    Config → Config → Prop :=
  Relation.ReflTransGen fun c c' =>
    k ≤ c.place ∧ c.place < k + ls.length ∧ p.Passes callee c c'

section

variable {p : Program} {callee : Machine → Machine → Prop} {k : Nat} {ls : List Line}
  {c c' : Config}

theorem Instr.eq_call_of_flow {i : Instr} (h : i.flow m = .call l) : i = .call l := by
  cases i with
  | call l' =>
    cases h
    rfl
  | branchIf cond l' =>
    simp only [flow] at h
    split at h <;> cases h
  | branchZero r l' =>
    simp only [flow] at h
    split at h <;> cases h
  | branchNonzero r l' =>
    simp only [flow] at h
    split at h <;> cases h
  | _ => cases h

theorem Program.machine_step (hline : p.lines[c.place]? = some line)
    (hcall : ∀ l, line.instr? ≠ some (.call l)) (h : p.step c = some c') :
    c'.machine = (line.instr?.elim c.machine fun i => i.effect p.symbols c.machine) := by
  unfold Program.step at h
  rw [hline, Option.bind_eq_bind, Option.bind_some] at h
  cases hinstr : line.instr? with
  | none =>
    rw [hinstr] at h
    cases h
    rfl
  | some i =>
    rw [hinstr] at h
    dsimp only at h
    cases hflow : i.flow c.machine with
    | next =>
      rw [hflow] at h
      cases h
      rfl
    | jump l =>
      rw [hflow] at h
      obtain ⟨place, -, rfl⟩ := Option.map_eq_some_iff.mp h
      rfl
    | call l => exact absurd (eq_call_of_flow hflow ▸ hinstr) (hcall l)
    | back =>
      rw [hflow] at h
      cases h
      rfl

theorem mem_instrs_of_at (hat : p.At k ls) (hlo : k ≤ c.place) (hhi : c.place < k + ls.length)
    (hline : p.lines[c.place]? = some line) (hi : line.instr? = some i) : i ∈ instrs ls := by
  obtain ⟨rest, hrest⟩ := hat
  have hplace : p.lines[c.place]? = (p.lines.drop k)[c.place - k]? := by
    rw [getElem?_drop, Nat.add_sub_cancel' hlo]
  rw [hplace, ← hrest, getElem?_append_left (by omega)] at hline
  exact mem_filterMap.mpr ⟨line, mem_of_getElem? hline, hi⟩

section

variable {α : Type} {f : Machine → α}

theorem Program.Passes.kept (h : p.Passes callee c c')
    (hcallee : ∀ m m', callee m m' → f m' = f m) (hat : p.At k ls)
    (hls : ∀ i ∈ instrs ls, ∀ m, f (i.effect p.symbols m) = f m) (hlo : k ≤ c.place)
    (hhi : c.place < k + ls.length) : f c'.machine = f c.machine := by
  cases h with
  | call hline hcall hm => exact hcallee _ _ hm
  | @step _ _ line hline hcall hstep =>
    rw [Program.machine_step hline hcall hstep]
    cases hinstr : line.instr? with
    | none => rfl
    | some i => exact hls i (mem_instrs_of_at hat hlo hhi hline hinstr) c.machine

/-- **The run.** Code keeps what each of its instructions and the routines it calls keep. -/
theorem Program.Inside.kept (h : p.Inside callee k ls c c')
    (hcallee : ∀ m m', callee m m' → f m' = f m) (hat : p.At k ls)
    (hls : ∀ i ∈ instrs ls, ∀ m, f (i.effect p.symbols m) = f m) : f c'.machine = f c.machine := by
  induction h with
  | refl => rfl
  | tail _ hpass ih =>
    obtain ⟨hlo, hhi, hpass⟩ := hpass
    exact (hpass.kept hcallee hat hls hlo hhi).trans ih

end

end

/-! ### Saved operands -/

variable {function : String} {t : Tree} {s s' : Issued} {ls : List Line}

/-- The registers in which the code of trees keeps operands and alternatives. -/
def keptRegs : List Nat := [20, 21]

def Tree.keepsValue : Tree → Bool
  | .compare _ _ _ | .ite _ _ _ => true
  | _ => false

theorem not_spares_kept {u : Tree} (h : u.keepsValue) : ∃ i ∈ u.kept, ¬ i.Spares 20 := by
  cases u with
  | compare op l r =>
    change ∃ i ∈ keepLeft l.type, ¬ i.Spares 20
    cases l.type <;> exact ⟨_, mem_cons_self, by simp [Spares, writes]⟩
  | ite c yes no => exact ⟨_, mem_cons_self, by simp [Spares, writes]⟩
  | _ => cases h

theorem spares_kept {u : Tree} (h : u.keepsValue = false) (n) : ∀ i ∈ u.kept, i.Spares n := by
  cases u with
  | concat parts =>
    intro i hi
    obtain ⟨j, -, hi⟩ := mem_flatMap.mp hi
    rcases mem_pair.mp hi with rfl | rfl <;> simp [Spares, writes]
  | compare op l r => cases h
  | ite c yes no => cases h
  | _ => simp [kept]

theorem spares_select_iff (h : Gives (select function t) s ls s') (text : Prop) :
    (∀ i ∈ instrs ls, i.Spares 20 ∧ (text → i.Spares 21)) ↔
      ∀ u ∈ t.nodes, u.keepsValue = false := by
  have hquiet : ∀ i : Instr, i.quiet → i.Spares 20 ∧ (text → i.Spares 21) := fun i hi =>
    ⟨spares_of_quiet hi (by decide), fun _ => spares_of_quiet hi (by decide)⟩
  refine (throughout_select_iff hquiet h).trans (forall₂_congr fun u _ => ?_)
  constructor
  · intro hkept
    by_contra hkeeps
    obtain ⟨i, hi, hwrites⟩ := not_spares_kept (Bool.not_eq_false _ ▸ hkeeps)
    exact hwrites (hkept i hi).1
  · intro hkeeps i hi
    exact ⟨spares_kept hkeeps 20 i hi, fun _ => spares_kept hkeeps 21 i hi⟩

/-- **Saved operands.** The left operand of a comparison is kept in `x20`, a text in `x20` and
`x21`, while the code of the right one runs. That code writes neither register exactly when no
comparison and no choice stands in it; then a run finds both as they were, if the routines it calls
restore them. -/
theorem left_operand_spared_iff {op : Relation} {l r : Tree}
    (hcode : Gives (select function (.compare op l r)) s ls s') :
    ∃ s₁ first second, Gives (select function l) s first s₁ ∧
      Gives (select function r) s₁ second s' ∧ ls = first ++ code (keepLeft l.type) ++ second ++
        code (compareOperands op l.type r.type) ∧
      ((∀ i ∈ instrs second, i.Spares 20 ∧ (l.type = .text → i.Spares 21)) ↔
        ∀ u ∈ r.nodes, u.keepsValue = false) ∧ ((∀ u ∈ r.nodes, u.keepsValue = false) →
        ∀ (p : Program) (callee : Machine → Machine → Prop) (k : Nat) (m m' : Machine),
          p.At k second → (∀ a b, callee a b → ∀ n ∈ keptRegs, b.regs n = a.regs n) →
          p.Inside callee k second ⟨m, k⟩ ⟨m', k + second.length⟩ →
          ∀ n ∈ keptRegs, m'.regs n = m.regs n) := by
  simp only [select, gives_bind, gives_pure] at hcode
  obtain ⟨first, s₁, hfirst, second, s₂, hsecond, rfl, rfl⟩ := hcode
  refine ⟨s₁, first, second, hfirst, hsecond, rfl, spares_select_iff hsecond _, ?_⟩
  intro hnodes p callee k m m' hat hcallee hrun n hn
  have hspares : ∀ i ∈ instrs second, i.Spares n := by
    intro i hi
    obtain ⟨hfirst, hsecond⟩ := (spares_select_iff hsecond True).mpr hnodes i hi
    have hn' : n = 20 ∨ n = 21 := by simpa [keptRegs] using hn
    rcases hn' with rfl | rfl
    · exact hfirst
    · exact hsecond trivial
  exact hrun.kept (f := fun a => a.regs n) (fun a b hab => hcallee a b hab n hn) hat
    fun i hi a => (hspares i hi).regs_effect p.symbols a

/-- In `{{IsOpen}} = ({{Level}} = 1)` the inner comparison overwrites the saved operand. -/
theorem left_operand_spared_iff_nested : ∃ t issued₁ second issued',
      (lower [⟨"is_open", .boolean, 0, 1⟩, ⟨"level", .integer, 8, 8⟩] (.binary .eq (.field "IsOpen")
        (.binary .eq (.field "Level") (.int 1)))).run (.start []) =
          (.ok (.compare .eq (.loadBool 0 "is_open") t), .start []) ∧
      Gives (select "f" t) issued₁ second issued' ∧
      ¬ ∀ i ∈ instrs second, i.Spares 20 ∧ (Datatype.boolean = .text → i.Spares 21) := by
  have hcode : Gives (select "f" (.compare .eq (.loadBool 0 "is_open")
      (.compare .eq (.loadInt 8 "level") (.int 1)))) {} _ _ := rfl
  obtain ⟨issued₁, first, second, -, hsecond, -, hiff, -⟩ := left_operand_spared_iff hcode
  refine ⟨_, issued₁, second, _, rfl, hsecond, fun hspares => ?_⟩
  exact absurd (hiff.mp hspares _ (.head _)) (by decide)

/-! ### Stack slots -/

/-- Where an instruction stores a word above the stack pointer, the offset has a property. -/
def Instr.StoresAt (P : Nat → Prop) (i : Instr) : Prop := ∀ r k, i = .store r sp k → P k

section

variable {P : Nat → Prop}

theorem throughout_storesAt :
    Throughout (StoresAt P) ls ↔ ∀ r k, .store r sp k ∈ instrs ls → P k := by
  constructor
  · intro h r k hmem
    exact h _ hmem r k rfl
  · rintro h i hi r k rfl
    exact h r k hi

theorem Instr.storesAt_of_quiet {i : Instr} (h : i.quiet) : i.StoresAt P := by
  rintro r k rfl
  cases h

theorem storesAt_keepPart_iff (index) :
    (∀ i ∈ keepPart index, i.StoresAt P) ↔ P (partSlot index) ∧ P (partSlot index + 8) := by
  unfold keepPart StoresAt
  simp

/-- **A node stores in slots** only where it joins parts, and then in the slot of each part. -/
theorem storesAt_kept_iff (u : Tree) : (∀ i ∈ u.kept, i.StoresAt P) ↔
    ∀ ts, u = .concat ts → ∀ j < ts.length, P (partSlot j) ∧ P (partSlot j + 8) := by
  cases u with
  | concat parts =>
    simp only [kept, keepParts, Nat.zero_add, forall_mem_flatMap, mem_range,
      storesAt_keepPart_iff, concat.injEq, forall_eq']
  | compare op l r =>
    simp only [kept]
    cases l.type <;> simp [keepLeft, StoresAt]
  | ite c yes no =>
    simp only [kept]
    cases yes.type <;> simp [keepBranch, StoresAt]
  | _ => simp [kept]

theorem storesAt_select_iff (h : Gives (select function t) s ls s') :
    Throughout (StoresAt P) ls ↔ ∀ ts, .concat ts ∈ t.nodes →
      ∀ j < ts.length, P (partSlot j) ∧ P (partSlot j + 8) := by
  rw [throughout_select_iff (fun i => storesAt_of_quiet) h]
  simp only [storesAt_kept_iff]
  constructor
  · intro hall ts hts
    exact hall _ hts ts rfl
  · rintro hall u hu ts rfl
    exact hall ts hu

end

theorem slots_in_frame_iff (n) :
    (∀ j < n, partSlot j + 8 ≤ 256 ∧ partSlot j + 8 + 8 ≤ 256) ↔ n ≤ 15 := by
  unfold partSlot
  constructor
  · intro h
    by_contra hn
    have hlast := h 15 (by omega)
    omega
  · intro hn j hj
    omega

/-- A word at an offset has no byte in the slot of a part. -/
def ApartFrom (index k : Nat) : Prop := k + 8 ≤ partSlot index ∨ partSlot index + 16 ≤ k

theorem slots_apart_iff (index n) :
    (∀ j < n, ApartFrom index (partSlot j) ∧ ApartFrom index (partSlot j + 8)) ↔ n ≤ index := by
  unfold ApartFrom partSlot
  constructor
  · intro h
    by_contra hn
    have hsame := h index (by omega)
    omega
  · intro hn j hj
    omega

/-- The code of one part of a concatenation: its value, the value as a text, and the slot. -/
def PartCode (function : String) (index : Nat) (t : Tree) (chunk : List Line) : Prop :=
  ∃ s1 s2 s3 value text, Gives (select function t) s1 value s2 ∧
    Gives (partToText t.type) s2 text s3 ∧ chunk = value ++ text ++ code (keepPart index)

theorem exists_partCode (h : Gives (selectParts function index ts) s ls s') :
    ∃ chunks : List (List Line), ls = chunks.flatten ∧ chunks.length = ts.length ∧
      ∀ j t chunk, ts[j]? = some t → chunks[j]? = some chunk →
        PartCode function (index + j) t chunk := by
  induction ts generalizing index s s' ls with
  | nil =>
    obtain ⟨rfl, -⟩ := h
    exact ⟨[], rfl, rfl, by simp⟩
  | cons t ts ih =>
    simp only [selectParts, gives_bind] at h
    obtain ⟨value, s1, hvalue, text, s2, htext, rest, s3, hrest, rfl, -⟩ := h
    obtain ⟨chunks, rfl, hlength, hchunks⟩ := ih hrest
    refine ⟨(value ++ text ++ code (keepPart index)) :: chunks, rfl, by simp [hlength], ?_⟩
    intro j t' chunk ht hchunk
    cases j with
    | zero =>
      cases ht
      cases hchunk
      exact ⟨s, s1, s2, value, text, hvalue, htext, rfl⟩
    | succ j => grind

/-- The code of a part keeps away from the slot of an earlier one exactly when no concatenation in
it has a part with the index of that slot. -/
theorem PartCode.apart_iff (h : PartCode function j t ls) (hlt : index < j) :
    (∀ r k, .store r sp k ∈ instrs ls → ApartFrom index k) ↔
      ∀ ts, .concat ts ∈ t.nodes → ts.length ≤ index := by
  obtain ⟨s1, s2, s3, value, text, hvalue, htext, rfl⟩ := h
  have htext' : Throughout (StoresAt (ApartFrom index)) text :=
    (((issues_partToText t.type s2).of_gives htext).throughout _ fun i => storesAt_of_quiet).mpr
      (by simp)
  have hkeep : ∀ i ∈ keepPart j, i.StoresAt (ApartFrom index) := by
    rw [storesAt_keepPart_iff]
    unfold ApartFrom partSlot
    omega
  rw [← throughout_storesAt, throughout_append, throughout_append, throughout_code,
    and_iff_left hkeep, and_iff_left htext', storesAt_select_iff hvalue]
  simp [slots_apart_iff]

/-- An instruction moves no frame, and stores nothing but words in the frame. -/
structure Instr.Framed (i : Instr) : Prop where
  sp_notMem : sp ∉ i.writes
  spares : i.Spares 29
  stores : (∃ r k, i = .store r sp k) ∨ ∀ symbols m, (i.effect symbols m).memory = m.memory

theorem Instr.framed_of_quiet {i : Instr} (h : i.quiet) : i.Framed where
  sp_notMem := sp_notMem_writes h
  spares := spares_of_quiet h (by decide)
  stores := by
    right
    intro symbols m
    cases i <;> simp_all [quiet, effect]

theorem Tree.framed_kept (u : Tree) : ∀ i ∈ u.kept, i.Framed := by
  have hmove : ∀ d ∈ [x 20, w 20, x 21], ∀ b, (move d b).Framed := by
    intro d hd b
    refine ⟨?_, ?_, .inr fun _ _ => Machine.memory_write _ _ _⟩
    · rintro hmem
      cases mem_singleton.mp hmem
      exact absurd hd (by decide)
    · constructor <;>
        · intro hmem
          cases mem_singleton.mp hmem
          exact absurd hd (by decide)
  cases u with
  | compare op l r =>
    change ∀ i ∈ keepLeft l.type, i.Framed
    cases l.type <;> simp [keepLeft, hmove]
  | ite c yes no =>
    change ∀ i ∈ keepBranch yes.type, i.Framed
    cases yes.type <;> simp [keepBranch, hmove]
  | concat parts =>
    intro i hi
    obtain ⟨j, -, hi⟩ := mem_flatMap.mp hi
    rcases mem_pair.mp hi with rfl | rfl <;>
      exact ⟨by simp [writes], by simp [Spares, writes], .inl ⟨_, _, rfl⟩⟩
  | _ => simp [kept]

theorem framed_select (h : Gives (select function t) s ls s') : ∀ i ∈ instrs ls, i.Framed :=
  (throughout_select_iff (fun _ => framed_of_quiet) h).mpr fun u _ => u.framed_kept

theorem frame_entryCode (p : Program) (m) :
    (p.run entryCode m).regs 29 = (p.run entryCode m).sp + 304 := by
  obtain ⟨-, -, hsp, -⟩ := run_entryCode p m
  have hfp : (p.run entryCode m).regs 29 = m.sp - 16 := by
    simp [entryCode, effect, Machine.read]
  rw [hsp, word_sub_add]
  rfl

/-- **The frame stays**: no code of a tree moves it. -/
theorem Program.Inside.frame {p : Program}
    (hcode : Gives (select function t) s ls s') (hat : p.At k ls)
    (hcallee : ∀ m m', callee m m' → m'.regs 29 = m.regs 29 ∧ m'.sp = m.sp)
    (h : p.Inside callee k ls c c') :
    c'.machine.regs 29 = c.machine.regs 29 ∧ c'.machine.sp = c.machine.sp := by
  have hframed := framed_select hcode
  constructor
  · refine h.kept (f := fun m => m.regs 29) (fun m m' hm => (hcallee m m' hm).1) hat ?_
    intro i hi m
    exact (hframed i hi).spares.regs_effect p.symbols m
  · refine h.kept (f := Machine.sp) (fun m m' hm => (hcallee m m' hm).2) hat ?_
    intro i hi m
    exact sp_effect p.symbols m (hframed i hi).sp_notMem

theorem slots_apart_digits_iff {sp fp : Word} (hfp : fp = sp + 304) (n) :
    (∀ j < n, ∀ b < 16, ∀ d < 20,
      sp + .ofNat 64 (partSlot j + b) ≠ fp - 200 + .ofNat 64 d) ↔ n ≤ 5 := by
  have hdigits : fp - 200 = sp + .ofNat 64 104 := by
    rw [hfp, add_sub_assoc]
    rfl
  rw [hdigits]
  unfold partSlot
  constructor
  · intro h
    by_contra hn
    -- the second word of the sixth slot begins with the digits
    refine h 5 (by omega) 8 (by decide) 0 (by decide) ?_
    simp
  · intro hn j hj b hb d hd heq
    have hnat := congrArg BitVec.toNat heq
    simp only [BitVec.toNat_add, BitVec.toNat_ofNat] at hnat
    omega

/-- **Slots of a concatenation.** The parts of a concatenation are stored in slots, all that is
stored is, and then the slots are loaded and joined. They stay within their 256 bytes exactly when
no concatenation has more than 15 parts; the slot of a part survives the code of a later part
exactly when no concatenation in that one takes it again; and the slots are apart from the digits of
an integer exactly when there are at most five. -/
theorem concat_slots_iff {parts : List Tree}
    (hcode : Gives (select function (.concat parts)) s ls s') :
    ∃ chunks : List (List Line), chunks.length = parts.length ∧
      (∀ j part chunk, parts[j]? = some part → chunks[j]? = some chunk →
        PartCode function j part chunk) ∧
      ls = chunks.flatten ++ code (joinParts function parts.length) ∧
      (∀ i ∈ instrs ls, (∃ r k, i = .store r sp k) ∨
        ∀ symbols m, (i.effect symbols m).memory = m.memory) ∧
      ((∀ r k, .store r sp k ∈ instrs ls → k + 8 ≤ 256) ↔
        ∀ ts, .concat ts ∈ (Tree.concat parts).nodes → ts.length ≤ 15) ∧
      (∀ i j part chunk, i < j → parts[j]? = some part → chunks[j]? = some chunk →
        ((∀ r k, .store r sp k ∈ instrs chunk → ApartFrom i k) ↔
          ∀ ts, .concat ts ∈ part.nodes → ts.length ≤ i)) ∧
      (∀ (t : Tree) (p : Program) (callee : Machine → Machine → Prop) (k : Nat) (body : List Line)
        (start stop : Issued), Gives (select function t) start body stop → p.At k body →
        (∀ a b, callee a b → b.regs 29 = a.regs 29 ∧ b.sp = a.sp) →
        ∀ m c, p.Inside callee k body ⟨p.run entryCode m, k⟩ c →
          ((∀ i < parts.length, ∀ b < 16, ∀ d < 20, c.machine.sp + .ofNat 64 (partSlot i + b) ≠
              c.machine.regs 29 - 200 + .ofNat 64 d) ↔ parts.length ≤ 5)) := by
  have hframed := framed_select hcode
  have hstores : (∀ r k, .store r sp k ∈ instrs ls → k + 8 ≤ 256) ↔
      ∀ ts, .concat ts ∈ (Tree.concat parts).nodes → ts.length ≤ 15 := by
    rw [← throughout_storesAt, storesAt_select_iff hcode]
    simp only [slots_in_frame_iff]
  simp only [select, gives_bind] at hcode
  obtain ⟨_, s₁, -, body, s₂, hbody, hcode⟩ := hcode
  split at hcode
  · simp only [gives_bind, not_gives_throw, false_and, exists_false] at hcode
  · obtain ⟨rfl, -⟩ := gives_pure.mp hcode
    obtain ⟨chunks, rfl, hlength, hchunks⟩ := exists_partCode hbody
    simp only [Nat.zero_add] at hchunks
    refine ⟨chunks, hlength, hchunks, rfl, fun i hi => (hframed i hi).stores, hstores, ?_, ?_⟩
    · intro i j part chunk hij hpart hchunk
      exact (hchunks j part chunk hpart hchunk).apart_iff hij
    · intro t p callee k body start stop hbody hat hcallee m c hrun
      obtain ⟨hfp, hsp⟩ := hrun.frame hbody hat hcallee
      rw [slots_apart_digits_iff]
      rw [hfp, hsp]
      exact frame_entryCode p m

/-- In `{{A}} & ({{B}} & {{C}})` the second part overwrites the slot of the first. -/
theorem concat_slots_iff_nested : ∃ inner chunk,
      (lower [⟨"a", .text, 0, 16⟩, ⟨"b", .text, 16, 16⟩, ⟨"c", .text, 32, 16⟩]
        (.concat [.field "A", .concat [.field "B", .field "C"]])).run (.start []) =
          (.ok (.concat [.loadText 0 "a", inner]), .start []) ∧ PartCode "f" 1 inner chunk ∧
      ¬ ∀ r k, .store r sp k ∈ instrs chunk → ApartFrom 0 k := by
  have hcode : Gives (select "f" (.concat [.loadText 0 "a",
      .concat [.loadText 16 "b", .loadText 32 "c"]])) {} _ _ := rfl
  obtain ⟨chunks, hlength, hchunks, -, -, -, hslots, -⟩ := concat_slots_iff hcode
  obtain ⟨chunk, hchunk⟩ : ∃ chunk, chunks[1]? = some chunk :=
    ⟨_, getElem?_eq_getElem (by simp [hlength])⟩
  refine ⟨_, chunk, rfl, hchunks 1 _ chunk rfl hchunk, fun hapart => ?_⟩
  have hle := (hslots 0 1 _ chunk (by decide) rfl hchunk).mp hapart _ (.head _)
  exact absurd hle (by decide)

end Rulebook.Native
