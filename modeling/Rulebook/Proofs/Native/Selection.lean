/-
Code selection and the labels it gives out.

Labels carry numbers that go up through a compilation, so the code of one tree has no label in
common with the code of another.
-/

import Rulebook.Native.Select
import Rulebook.Proofs.Native.Machine
import Rulebook.Proofs.Numeral

open List

namespace Rulebook.Native

open Text Numeral Instr

variable {s s' : Issued} {lines : List Line}

/-! ### Outcomes of a selection -/

/-- A selection returns `a` and leaves `s'` issued where `s` was. -/
def Gives {α : Type} (x : Select α) (s : Issued) (a : α) (s' : Issued) : Prop :=
  x.run s = (.ok a, s')

section

variable {α β : Type} {s s' : Issued}

theorem gives_pure {a b : α} : Gives (pure a) s b s' ↔ a = b ∧ s = s' := by
  constructor
  · intro h
    cases h
    exact ⟨rfl, rfl⟩
  · rintro ⟨rfl, rfl⟩
    rfl

theorem gives_bind {f : α → Select β} :
    Gives (x >>= f) s b s' ↔ ∃ a s1, Gives x s a s1 ∧ Gives (f a) s1 b s' := by
  have hbind : ∀ out s1, x.run s = (out, s1) →
      (x >>= f).run s = (ExceptT.bindCont f out).run s1 := by
    intro out s1 h
    change (x.run >>= ExceptT.bindCont f).run s = (ExceptT.bindCont f out).run s1
    rw [StateT.run_bind, StateT.run, h]
    rfl
  constructor
  · intro h
    cases hx : x.run s with
    | mk out s1 =>
      rw [Gives, hbind out s1 hx] at h
      cases out with
      | ok a => exact ⟨a, s1, hx, h⟩
      | error e => cases h
  · rintro ⟨a, s1, hx, h⟩
    rw [Gives, hbind (.ok a) s1 hx]
    exact h

theorem not_gives_throw {a : α} : ¬ Gives (throw e) s a s' := by
  intro h
  cases h

def labelText (stem : String) (n : Nat) : String := stem ++ "_" ++ toString n

theorem gives_newLabel : Gives (newLabel stem) s l s' ↔
      l = labelText stem (s.labels + 1) ∧ s' = { s with labels := s.labels + 1 } := by
  constructor
  · rintro h
    cases h
    exact ⟨rfl, rfl⟩
  · rintro ⟨rfl, rfl⟩
    rfl

end

/-! ### Labels -/

def labelStems : List String :=
  ["and_false", "and_end", "or_true", "or_end", "if_else", "if_end", "bool_true", "bool_end"]

theorem takeWhile_labelText (stem n) :
    (labelText stem n).toList.reverse.takeWhile (· ≠ '_') = (digitChars n).reverse := by
  have hdigits : ∀ c ∈ (digitChars n).reverse, (decide (c ≠ '_')) = true := by
    intro c hc
    have hdigit := digitChars_isDigit (mem_reverse.mp hc)
    exact decide_eq_true fun heq => absurd (heq ▸ hdigit) (by decide)
  have hlabel : (labelText stem n).toList.reverse =
      (digitChars n).reverse ++ '_' :: stem.toList.reverse := by
    simp [labelText]
  rw [hlabel, takeWhile_append_of_pos hdigits]
  simp

/-- **Numbers tell labels apart.** -/
theorem labelText_inj (h : labelText stem n = labelText stem' n') : n = n' := by
  have hdigits : (digitChars n).reverse = (digitChars n').reverse := by
    rw [← takeWhile_labelText stem n, h, takeWhile_labelText]
  rw [← ofDigits_digitChars n, reverse_inj.mp hdigits, ofDigits_digitChars]

theorem labelText_ne_function (h : stem ∈ labelStems) (n name) :
    labelText stem n ≠ "_" ++ name := by
  intro heq
  have hlist := congrArg (fun s => s.toList.head?) heq
  simp only [labelText] at hlist
  simp only [labelStems, mem_cons, not_mem_nil, or_false] at h
  rcases h with rfl | rfl | rfl | rfl | rfl | rfl | rfl | rfl <;> simp at hlist

@[simp]
theorem labels_nil : labels [] = [] := rfl

@[simp]
theorem labels_append (ls ls') : labels (ls ++ ls') = labels ls ++ labels ls' :=
  filterMap_append

@[simp]
theorem labels_label_cons (l ls) : labels (.label l :: ls) = l :: labels ls := rfl

@[simp]
theorem labels_directive_cons (text ls) : labels (.directive text :: ls) = labels ls := rfl

@[simp]
theorem labels_blank_cons (ls) : labels (.blank :: ls) = labels ls := rfl

@[simp]
theorem labels_code (is) : labels (code is) = [] := by
  simp [labels, code, Line.label?]

structure Numbered (a b : Nat) (ls : List String) : Prop where
  le : a ≤ b
  nodup : ls.Nodup
  range : ∀ l ∈ ls, ∃ stem n, stem ∈ labelStems ∧ l = labelText stem n ∧ a < n ∧ n ≤ b

namespace Numbered

variable {a b c : Nat} {ls ls' : List String}

theorem nil (a) : Numbered a a [] := ⟨le_rfl, nodup_nil, by simp⟩

theorem single (h : stem ∈ labelStems) (a) : Numbered a (a + 1) [labelText stem (a + 1)] :=
  ⟨by omega, by simp, fun l hl => ⟨stem, a + 1, h, by simpa using hl, by omega, le_rfl⟩⟩

theorem append (h : Numbered a b ls) (h' : Numbered b c ls') : Numbered a c (ls ++ ls') where
  le := h.le.trans h'.le
  nodup := by
    refine nodup_append.mpr ⟨h.nodup, h'.nodup, fun l hl l' hl' heq => ?_⟩
    obtain ⟨stem, n, -, rfl, -, hn⟩ := h.range l hl
    obtain ⟨stem', n', -, rfl, hn', -⟩ := h'.range l' hl'
    have := labelText_inj heq
    omega
  range l hl := by
    rcases mem_append.mp hl with hl | hl
    · obtain ⟨stem, n, hstem, hlabel, hlo, hhi⟩ := h.range l hl
      exact ⟨stem, n, hstem, hlabel, hlo, hhi.trans h'.le⟩
    · obtain ⟨stem, n, hstem, hlabel, hlo, hhi⟩ := h'.range l hl
      exact ⟨stem, n, hstem, hlabel, h.le.trans_lt hlo, hhi⟩

theorem perm (h : Numbered a b ls) (hperm : ls.Perm ls') : Numbered a b ls' where
  le := h.le
  nodup := hperm.nodup_iff.mp h.nodup
  range l hl := h.range l (hperm.mem_iff.mpr hl)

theorem around (h : Numbered (a + 1 + 1) b ls) (stem stem') (hstem : stem ∈ labelStems)
    (hstem' : stem' ∈ labelStems)
    (hperm : ls'.Perm (labelText stem (a + 1) :: labelText stem' (a + 1 + 1) :: ls)) :
    Numbered a b ls' :=
  (((single hstem a).append (single hstem' (a + 1))).append h).perm hperm.symm

end Numbered

/-! ### Forward branches -/

/-- The label that an instruction branches to. A call is no branch: it comes back. -/
def Instr.target? : Instr → Option String
  | branch l | branchIf _ l | branchZero _ l | branchNonzero _ l => some l
  | _ => none

def Forward (outer : List String) : List Line → Prop
  | [] => True
  | line :: rest =>
    (∀ l, line.instr?.bind target? = some l → l ∈ labels rest ++ outer) ∧
      Forward outer rest

section

variable {rest : List Line}

variable {outer : List String}

@[simp]
theorem forward_nil : Forward outer [] := trivial

@[simp]
theorem forward_label_cons : Forward outer (.label l :: rest) ↔ Forward outer rest := by
  simp [Forward, Line.instr?]

@[simp]
theorem forward_directive_cons {text} :
    Forward outer (.directive text :: rest) ↔ Forward outer rest := by
  simp [Forward, Line.instr?]

theorem forward_instr_cons : Forward outer (.instr i :: rest) ↔
      (∀ l, i.target? = some l → l ∈ labels rest ++ outer) ∧ Forward outer rest := Iff.rfl

/-- **Code in a row.** The first part may branch to the labels of the second. -/
@[simp]
theorem forward_append :
    Forward outer (ls ++ ls') ↔ Forward (labels ls' ++ outer) ls ∧ Forward outer ls' := by
  induction ls with
  | nil => simp
  | cons line rest ih =>
    rw [cons_append, Forward, Forward, ih, labels_append, append_assoc, and_assoc]

theorem Forward.mono (h : Forward outer ls) (hsub : outer ⊆ outer') : Forward outer' ls := by
  induction ls with
  | nil => trivial
  | cons line rest ih =>
    refine ⟨?_, ih h.2⟩
    intro l hl
    rcases mem_append.mp (h.1 l hl) with hmem | hmem
    · exact mem_append_left _ hmem
    · exact mem_append_right _ (hsub hmem)

def Straight (is : List Instr) : Prop := ∀ i ∈ is, i.target? = none

theorem forward_code (h : Straight is) : Forward outer (code is) := by
  induction is with
  | nil => trivial
  | cons i is ih =>
    refine ⟨?_, ih fun j hj => h j (.tail _ hj)⟩
    intro l hl
    have hnone : i.target? = none := h i (.head _)
    exact absurd (hnone.symm.trans hl) (by simp)

theorem forward_code_singleton : Forward outer (code [i]) ↔ ∀ l, i.target? = some l → l ∈ outer :=
  ⟨fun h => h.1, fun h => ⟨h, trivial⟩⟩

end

theorem straight_keepLeft (d) : Straight (keepLeft d) := by
  cases d <;> simp [Straight, keepLeft, target?]

theorem straight_keepBranch (d) : Straight (keepBranch d) := by
  cases d <;> simp [Straight, keepBranch, target?]

theorem straight_takeBranch (d) : Straight (takeBranch d) := by
  cases d <;> simp [Straight, takeBranch, target?]

/-! ### What instructions write -/

open Native.Tree
open Reg (x w sp)

def instrs (ls : List Line) : List Instr := ls.filterMap Line.instr?

def Instr.writes : Instr → List Reg
  | pushPair _ _ => [sp]
  | popPair a b => [a, b, sp]
  | storeByteStep _ base => [base]
  | move d _ | moveImm d _ | moveChar d _ | moveKeep d _ _ | addImm d _ _ | addChar d _ _
  | addReg d _ _ | subImm d _ _ | subReg d _ _ | negate d _ | divide d _ _ | multiplySub d _ _ _
  | flip d _ | page d _ | pageOffset d _ _ | load d _ _ | loadByte d _ _ | loadByteAt d _ _
  | loadByteHere d _ | setIf d _ => [d]
  | store _ _ _ | storeByteAt _ _ _ | storeByteHere _ _ | compare _ _ | compareImm _ _ | branch _
  | branchIf _ _ | branchZero _ _ | branchNonzero _ _ | call _ | ret => []

def workRegs : List Nat := [0, 1, 2, 3, 4, 22]

def Reg.isWork : Reg → Bool
  | x n | w n => workRegs.contains n
  | sp => false

def Instr.quiet (i : Instr) : Bool :=
  i.writes.all Reg.isWork &&
    match i with
    | pushPair _ _ | store _ _ _ | storeByteAt _ _ _ | storeByteHere _ _ | storeByteStep _ _ =>
      false
    | _ => true

def Instr.calm (i : Instr) : Bool := i.target?.isNone && i.quiet

theorem calm_constant (n) : (constant n).all calm := by
  unfold constant
  split
  · rfl
  · split <;> split <;> rfl

theorem calm_compareOperands (op d d') : (compareOperands op d d').all calm := by
  cases d <;> cases d' <;> cases op <;> rfl

theorem calm_joinParts (function count) : (joinParts function count).all calm := by
  unfold joinParts
  rw [all_append, all_flatMap]
  refine Bool.and_eq_true_iff.mpr ⟨rfl, all_eq_true.mpr fun k _ => rfl⟩

/-! ### Nodes -/

mutual

def Tree.nodes : Tree → List Tree
  | .not e => .not e :: e.nodes
  | .and es => .and es :: nodesOf es
  | .or es => .or es :: nodesOf es
  | .concat es => .concat es :: nodesOf es
  | .compare op l r => .compare op l r :: (l.nodes ++ r.nodes)
  | .ite c yes no => .ite c yes no :: (c.nodes ++ (yes.nodes ++ no.nodes))
  | t => [t]

def nodesOf : List Tree → List Tree
  | [] => []
  | t :: ts => t.nodes ++ nodesOf ts

end

def keepParts (index count : Nat) : List Instr :=
  (List.range count).flatMap fun j => keepPart (index + j)

/-- What a node keeps for later: operands and alternatives in registers, parts on the stack. -/
def Tree.kept : Tree → List Instr
  | .compare _ l _ => keepLeft l.type
  | .ite _ yes _ => keepBranch yes.type
  | .concat parts => keepParts 0 parts.length
  | _ => []

def Throughout (Q : Instr → Prop) (ls : List Line) : Prop := ∀ i ∈ instrs ls, Q i

section

variable {Q : Instr → Prop}

@[simp]
theorem throughout_nil : Throughout Q [] := by
  intro i hi
  cases hi

@[simp]
theorem throughout_append : Throughout Q (ls ++ ls') ↔ Throughout Q ls ∧ Throughout Q ls' := by
  unfold Throughout instrs
  rw [filterMap_append, forall_mem_append]

@[simp]
theorem throughout_label_cons : Throughout Q (.label l :: ls) ↔ Throughout Q ls := Iff.rfl

theorem throughout_code (is) : Throughout Q (code is) ↔ ∀ i ∈ is, Q i := by
  have hinstrs : instrs (code is) = is := by
    unfold instrs code
    rw [filterMap_map]
    exact filterMap_some
  rw [Throughout, hinstrs]

theorem throughout_quiet (hQ : ∀ i : Instr, i.quiet → Q i) (is)
    (h : is.all quiet) : Throughout Q (code is) := by
  rw [throughout_code]
  exact fun i hi => hQ i (all_eq_true.mp h i hi)

end

/-! ### The code of trees -/

/-- Code for which labels were issued: it has them, each once, it branches forward, to labels of
its own or to given ones, and but for what it keeps all of it is quiet. -/
structure Coded (s s' : Issued) (outer : List String) (kept : List Instr) (ls : List Line) :
    Prop where
  numbered : Numbered s.labels s'.labels (labels ls)
  forward : Forward outer ls
  throughout : ∀ Q : Instr → Prop, (∀ i : Instr, i.quiet → Q i) →
    (Throughout Q ls ↔ ∀ i ∈ kept, Q i)

namespace Coded

variable {s s1 s2 : Issued} {outer : List String} {kept kept' : List Instr} {ls ls' : List Line}

theorem nil : Coded s s outer [] [] := ⟨.nil _, trivial, by simp⟩

theorem keep (h : Straight is) : Coded s s outer is (code is) :=
  ⟨by simpa using Numbered.nil _, forward_code h, fun _ _ => throughout_code is⟩

theorem calm (h : is.all Instr.calm) : Coded s s outer [] (code is) := by
  simp only [Instr.calm, all_eq_true, Bool.and_eq_true, Option.isNone_iff_eq_none] at h
  refine ⟨by simpa using Numbered.nil _, forward_code fun i hi => (h i hi).1, fun Q hQ => ?_⟩
  simpa [throughout_code] using fun i hi => hQ i (h i hi).2

theorem append (h : Coded s s1 outer kept ls) (h' : Coded s1 s2 outer kept' ls') :
    Coded s s2 outer (kept ++ kept') (ls ++ ls') where
  numbered := labels_append ls ls' ▸ h.numbered.append h'.numbered
  forward := forward_append.mpr ⟨h.forward.mono (subset_append_right _ _), h'.forward⟩
  throughout Q hQ := by
    rw [throughout_append, h.throughout Q hQ, h'.throughout Q hQ, forall_mem_append]

theorem of_mem (h : Coded s s1 outer kept ls) (hkept : ∀ i, i ∈ kept ↔ i ∈ kept') :
    Coded s s1 outer kept' ls :=
  { h with throughout := fun Q hQ => by simp only [h.throughout Q hQ, hkept] }

theorem within (h : Coded s s1 [] kept ls) : Coded s s1 outer kept ls :=
  { h with forward := h.forward.mono (nil_subset _) }

theorem tested (hstem : stem ∈ labelStems) (hstem' : stem' ∈ labelStems) (v v')
    (h : Coded { s with labels := s.labels + 1 + 1 } s1 [labelText stem (s.labels + 1)] kept ls) :
    Coded s s1 [] kept (ls ++ code [.moveImm (.w 0) v,
      .branch (labelText stem' (s.labels + 1 + 1))] ++ [.label (labelText stem (s.labels + 1))] ++
      code [.moveImm (.w 0) v'] ++ [.label (labelText stem' (s.labels + 1 + 1))]) where
  numbered := by
    refine h.numbered.around stem stem' hstem hstem' ?_
    simp only [labels_append, append_assoc]
    exact perm_append_comm
  forward := by
    simp only [append_assoc, forward_append]
    refine ⟨h.forward.mono (by simp), ?_⟩
    simp [code, forward_instr_cons, target?, labels, Line.label?]
  throughout Q hQ := by
    have hset : ∀ v, Throughout Q (code [.moveImm (.w 0) v]) := fun v => throughout_quiet hQ _ rfl
    have hstop := throughout_quiet hQ
      [.moveImm (.w 0) v, .branch (labelText stem' (s.labels + 1 + 1))] rfl
    simp [h.throughout Q hQ, hset, hstop]

end Coded

/-- A selection takes back no labels, whether it fails or not, and what it returns has a
property. -/
def Issues {α : Type} (s : Issued) (x : Select α) (Q : α → Issued → Prop) : Prop :=
  match x.run s with
  | (.ok a, s') => s.labels ≤ s'.labels ∧ Q a s'
  | (.error _, s') => s.labels ≤ s'.labels

section

variable {α β : Type} {s s' : Issued} {x : Select α} {Q : α → Issued → Prop}
  {R : β → Issued → Prop} {f : α → Select β}

theorem issues_pure (h : Q a s) : Issues s (pure a) Q := ⟨le_rfl, h⟩

theorem issues_throw : Issues s (throw e) Q := le_refl s.labels

theorem Issues.le (h : Issues s x Q) : s.labels ≤ (x.run s).2.labels := by
  unfold Issues at h
  split at h
  case h_1 heq => simpa [heq] using h.1
  case h_2 heq => simpa [heq] using h

theorem Issues.of_gives (h : Issues s x Q) (hx : Gives x s a s') : Q a s' := by
  rw [Issues, hx] at h
  exact h.2

theorem Issues.bind (h : Issues s x Q) (hf : ∀ a s1, Q a s1 → Issues s1 (f a) R) :
    Issues s (x >>= f) R := by
  have hbind : (x >>= f).run s = (ExceptT.bindCont f (x.run s).1).run (x.run s).2 := rfl
  rw [Issues, hbind]
  rw [Issues] at h
  generalize x.run s = r at h ⊢
  obtain ⟨e | a, s1⟩ := r
  · exact h
  · have hrest := hf _ _ h.2
    rw [Issues] at hrest
    change match (f a).run s1 with
      | (.ok a, s') => s.labels ≤ s'.labels ∧ R a s'
      | (.error _, s') => s.labels ≤ s'.labels
    split at hrest
    · exact ⟨h.1.trans hrest.1, hrest.2⟩
    · exact h.1.trans hrest

theorem issues_newLabel {f : String → Select β}
    (h : Issues { s with labels := s.labels + 1 } (f (labelText stem (s.labels + 1))) R) :
    Issues s (newLabel stem >>= f) R :=
  Issues.bind (Q := fun l s' => l = _ ∧ s' = _) ⟨Nat.le_succ _, rfl, rfl⟩
    fun _ _ hl => by rw [hl.1, hl.2]; exact h

theorem issues_reserveBuffer {function} {f : Unit → Select β}
    (h : ∀ s', s'.labels = s.labels → Issues s' (f ()) R) :
    Issues s (reserveBuffer function >>= f) R := by
  have hsame : ((reserveBuffer function).run s).2.labels = s.labels := by
    change (if function ∈ s.buffers then s else _).labels = _
    split <;> rfl
  exact Issues.bind (Q := fun _ s' => s'.labels = s.labels) ⟨hsame.ge, hsame⟩ fun _ => h

end

theorem issues_partToText (d s) : Issues s (partToText d) fun ls s' => Coded s s' [] [] ls := by
  cases d with
  | boolean =>
    refine issues_newLabel (issues_newLabel (issues_pure ?_))
    refine ⟨(Numbered.nil _).around "bool_true" "bool_end" (by decide) (by decide) (by simp), ?_, ?_⟩
    · simp [code, addressOf, forward_instr_cons, target?, labels, Line.label?]
    · intro Q hQ
      simp only [throughout_append, throughout_label_cons, throughout_nil, and_true]
      simpa using ⟨throughout_quiet hQ _ rfl, throughout_quiet hQ _ rfl⟩
  | integer => exact issues_pure (.calm rfl)
  | text => exact issues_pure .nil

theorem issues_looseConstant (v s) :
    Issues s (looseConstant v) fun ls s' => Coded s s' [] [] ls := by
  unfold looseConstant
  dsimp only
  split
  · exact issues_pure ⟨.nil _, by simp, by simp [Throughout, instrs, Line.instr?]⟩
  · exact issues_throw

mutual

/-- **The code of a tree** has the labels issued for it, branches forward to them only, and keeps
what its nodes keep. -/
theorem select_issues (function) : ∀ t s, Issues s (select function t)
    fun ls s' => Coded s s' [] (t.nodes.flatMap Tree.kept) ls
  | .bool _, s | .text _ _, s | .loadBool _ _, s | .loadInt _ _, s | .loadText _ _, s => by
    simp only [select, nodes]
    exact issues_pure (.calm rfl)
  | .int n, s => by
    simp only [select, nodes]
    exact issues_pure (.calm (calm_constant n))
  | .misfit type v, s => by
    simp only [select, nodes]
    cases type with
    | boolean => exact issues_pure (.calm rfl)
    | integer | text => exact issues_looseConstant v s
  | .not e, s => by
    simp only [select, nodes]
    refine (select_issues function e s).bind fun body s1 h => issues_pure ?_
    have hflip : Coded s1 s1 [] [] (code [.flip (.w 0) (.w 0)]) := .calm rfl
    simpa [kept] using h.append hflip
  | .and es, s => by
    simp only [select, nodes]
    refine issues_newLabel (issues_newLabel ((selectEach_issues function rfl es _).bind
      fun body s1 h => issues_pure ?_))
    exact .tested (by decide) (by decide) 1 0 h
  | .or es, s => by
    simp only [select, nodes]
    refine issues_newLabel (issues_newLabel ((selectEach_issues function rfl es _).bind
      fun body s1 h => issues_pure ?_))
    exact .tested (by decide) (by decide) 0 1 h
  | .compare op l r, s => by
    simp only [select, nodes]
    refine (select_issues function l s).bind fun left s1 hleft =>
      (select_issues function r s1).bind fun right s2 hright => issues_pure ?_
    have hall := ((hleft.append (.keep (straight_keepLeft l.type))).append hright).append
      (.calm (calm_compareOperands op l.type r.type))
    refine hall.of_mem fun i => ?_
    simp only [flatMap_cons, flatMap_append, kept, mem_append, not_mem_nil, or_false]
    tauto
  | .ite c yes no, s => by
    simp only [select, nodes]
    refine issues_newLabel (issues_newLabel ((select_issues function c _).bind fun cond s3 hcond =>
      (select_issues function yes s3).bind fun first s4 hfirst =>
      (select_issues function no s4).bind fun second s5 hsecond => issues_pure ?_))
    refine ⟨?_, ?_, fun Q hQ => ?_⟩
    · refine ((hcond.append hfirst).append hsecond).numbered.around "if_else" "if_end" (by decide)
        (by decide) ?_
      refine perm_iff_count.mpr fun l => ?_
      simp [count_append, count_cons]
      omega
    · simp only [append_assoc, forward_append, forward_code_singleton, forward_label_cons,
        forward_nil, true_and]
      refine ⟨hcond.within.forward, ?_, hfirst.within.forward, forward_code (straight_keepBranch _),
        ?_, hsecond.within.forward, forward_code (straight_keepBranch _),
        forward_code (straight_takeBranch _)⟩
      · simp [target?]
      · simp [target?]
    · have htake : (takeBranch yes.type).all quiet := by cases yes.type <;> rfl
      simp only [flatMap_cons, flatMap_append, kept, forall_mem_append, throughout_append,
        throughout_label_cons, throughout_nil, hcond.throughout Q hQ, hfirst.throughout Q hQ,
        hsecond.throughout Q hQ, throughout_code (keepBranch _), throughout_quiet hQ _ htake,
        throughout_quiet hQ [.branchZero _ _] rfl, throughout_quiet hQ [.branch _] rfl]
      tauto
  | .concat parts, s => by
    simp only [select, nodes]
    refine issues_reserveBuffer fun s1 hs1 =>
      (selectParts_issues function 0 parts s1).bind fun body s2 h => ?_
    split
    · exact issues_throw.bind (Q := fun _ _ => False) fun _ _ hfalse => hfalse.elim
    · have hall := h.append (.calm (calm_joinParts function parts.length))
      rw [append_nil] at hall
      refine issues_pure (Coded.of_mem { hall with numbered := hs1 ▸ hall.numbered } fun i => ?_)
      simp [kept, or_comm]

theorem selectEach_issues (function) {test} (htest : test.quiet) : ∀ ts s,
    Issues s (selectEach function test ts)
      fun ls s' => Coded s s' test.target?.toList ((nodesOf ts).flatMap Tree.kept) ls
  | [], s => by
    simp only [selectEach, nodesOf]
    exact issues_pure .nil
  | t :: ts, s => by
    simp only [selectEach, nodesOf]
    refine (select_issues function t s).bind fun first s1 hfirst =>
      (selectEach_issues function htest ts s1).bind fun rest s2 hrest => issues_pure ?_
    have hcode : Coded s1 s1 test.target?.toList [] (code [test]) :=
      ⟨by simpa using Numbered.nil _, forward_code_singleton.mpr (by simp), fun Q hQ => by
        simpa using throughout_quiet hQ [test] (by simpa using htest)⟩
    simpa using (hfirst.within.append hcode).append hrest

theorem selectParts_issues (function) : ∀ index ts s, Issues s (selectParts function index ts)
    fun ls s' => Coded s s' [] ((nodesOf ts).flatMap Tree.kept ++ keepParts index ts.length) ls
  | index, [], s => by
    simp only [selectParts, nodesOf]
    exact issues_pure .nil
  | index, t :: ts, s => by
    simp only [selectParts, nodesOf]
    refine (select_issues function t s).bind fun value s1 hvalue =>
      (issues_partToText t.type s1).bind fun text s2 htext =>
      (selectParts_issues function (index + 1) ts s2).bind fun rest s3 hrest => issues_pure ?_
    have hkeep : keepParts index (ts.length + 1) =
        keepPart index ++ keepParts (index + 1) ts.length := by
      simp [keepParts, range_succ_eq_map, flatMap_map, Nat.add_comm, Nat.add_left_comm]
    have hstraight : Straight (keepPart index) := by simp [Straight, keepPart, target?]
    refine (((hvalue.append htext).append (.keep hstraight)).append hrest).of_mem fun i => ?_
    simp only [length_cons, hkeep, flatMap_append, mem_append, not_mem_nil, or_false]
    tauto

end

theorem coded_select {function t} (h : Gives (select function t) s lines s') :
    Coded s s' [] (t.nodes.flatMap Tree.kept) lines :=
  (select_issues function t s).of_gives h

/-! ### Functions -/

theorem gives_function :
    Gives (function name t) s lines s' ↔ ∃ body, Gives (select name t) s body s' ∧
      lines = [.directive (".globl _" ++ name), .directive ".p2align 2", .label ("_" ++ name)] ++
        code entryCode ++ body ++ code exitCode ++ [.blank] := by
  simp only [function, gives_bind, gives_pure]
  constructor
  · rintro ⟨body, s1, hbody, rfl, rfl⟩
    exact ⟨body, hbody, rfl⟩
  · rintro ⟨body, hbody, rfl⟩
    exact ⟨body, s', hbody, rfl, rfl⟩

/-- **A function gives no label twice.** -/
theorem nodup_labels_function {name t} (h : Gives (function name t) s lines s') :
    (labels lines).Nodup := by
  obtain ⟨body, hbody, rfl⟩ := gives_function.mp h
  have hnumbered := (coded_select hbody).numbered
  have hlabels : labels ([.directive (".globl _" ++ name), .directive ".p2align 2",
      .label ("_" ++ name)] ++ code entryCode ++ body ++ code exitCode ++ [.blank]) =
      ("_" ++ name) :: labels body := by
    simp
  rw [hlabels]
  refine nodup_cons.mpr ⟨fun hmem => ?_, hnumbered.nodup⟩
  obtain ⟨stem, n, hstem, heq, -⟩ := hnumbered.range _ hmem
  exact labelText_ne_function hstem n name heq.symm

end Rulebook.Native
