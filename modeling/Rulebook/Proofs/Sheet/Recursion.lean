/-
The recursion of formula text.

Spacing the ampersands can make a piece longer than the text it was cut from, but blanks aside every
piece is shorter, so the recursion ends before the bound on its depth is reached.
-/

import Rulebook.Proofs.Outcome
import Rulebook.Proofs.Text
import Rulebook.Sheet.Eval

namespace Rulebook.Sheet

open List Text Relation

/-! ### Pieces of a text -/

theorem trimChars_isInfix (cs) : trimChars cs <:+: cs := by
  have hend : trimChars cs <+: cs.dropWhile isBlank :=
    reverse_suffix.mp (by
      rw [trimChars, trimBy, dropEnd, reverse_reverse]
      exact dropWhile_suffix isBlank)
  exact hend.isInfix.trans (dropWhile_suffix isBlank).isInfix

theorem insideParens_isInfix (cs) : insideParens cs <:+: cs := by
  refine IsInfix.trans ?_ (trimChars_isInfix cs)
  rw [insideParens]
  split
  case h_2 => exact infix_refl _
  case h_1 =>
    split
    case h_1 n _ =>
      exact ((drop_suffix 1 _).isInfix).trans ( take_prefix n _).isInfix
    case h_2 =>
      split
      · exact ( dropLast_prefix _).isInfix.trans (drop_suffix 1 _).isInfix
      · exact infix_refl _

theorem prefix_of_findChars (h : findChars piece cs = some i) : piece <+: cs.drop i := by
  fun_induction findChars piece cs generalizing i with
  | case1 hempty => simp_all
  | case2 => cases h
  | case3 c rest hprefix =>
    cases h
    exact isPrefixOf_iff_prefix.mp hprefix
  | case4 c rest _ ih =>
    obtain ⟨j, hj, rfl⟩ := Option.map_eq_some_iff.mp h
    exact ih hj

theorem eq_of_cutFirst (h : cutFirst sign cs = some (l, r)) : cs = l ++ (sign ++ r) := by
  obtain ⟨i, hi, heq⟩ := Option.map_eq_some_iff.mp h
  obtain ⟨rfl, rfl⟩ := Prod.mk.inj heq
  obtain ⟨behind, hbehind⟩ := prefix_of_findChars hi
  rw [← drop_drop, ← hbehind, drop_left, hbehind, take_append_drop]

/-! ### Where a text is cut -/

def isOdd (pre : List Char) : Bool := pre.count '"' % 2 = 1

/-- The characters outside double quotes. -/
def unquoted : Bool → List Char → List Char
  | _, [] => []
  | inString, c :: cs =>
    if c = '"' then unquoted (!inString) cs
    else if inString then unquoted inString cs else c :: unquoted inString cs

def depthAfter (pre : List Char) : Int :=
  (unquoted false pre).count '(' - (unquoted false pre).count ')'

/-- What follows `pre` stands outside quotes and parentheses. -/
def Exposed (pre : List Char) : Prop := isOdd pre = false ∧ depthAfter pre = 0

/-- An operator has no signs that are counted. -/
def IsOperator (op : List Char) : Prop := op ≠ [] ∧ '"' ∉ op ∧ '(' ∉ op ∧ ')' ∉ op

instance (op : List Char) : Decidable (IsOperator op) := inferInstanceAs (Decidable (_ ∧ _))

/-- The positions of the operators between parts. -/
def cutsOf (op : List Char) : List (List Char) → List Nat
  | p :: q :: parts => p.length :: (cutsOf op (q :: parts)).map (p.length + op.length + ·)
  | _ => []

/-- The leftmost exposed operators that do not overlap. -/
def AreCuts (op pre cs : List Char) (cuts : List Nat) : Prop :=
  ∀ i, i ∈ cuts ↔ (op <+: cs.drop i ∧ Exposed (pre ++ cs.take i)) ∧
    ∀ j ∈ cuts, j < i → j + op.length ≤ i

def withoutBlankEnd (parts : List (List Char)) : List (List Char) :=
  if parts.getLast? = some [] then parts.dropLast else parts

/-- The result of cutting a text behind `pre` of which `part` is already taken. -/
def IsCut (op pre part cs : List Char) (result : List (List Char)) : Prop :=
  ∃ parts cuts, parts ≠ [] ∧ result = withoutBlankEnd parts ∧
    joinChars op parts = part.reverse ++ cs ∧ cutsOf op parts = cuts.map (part.length + ·) ∧
    AreCuts op pre cs cuts

section

variable {op pre part p cs : List Char} {cuts : List Nat} {result parts : List (List Char)}
  {c : Char}

theorem unquoted_append (b : Bool) (xs ys : List Char) :
    unquoted b (xs ++ ys) = unquoted b xs ++ unquoted (b ^^ isOdd xs) ys := by
  induction xs generalizing b with
  | nil => simp [unquoted, isOdd]
  | cons c xs ih =>
    have hodd : isOdd (c :: xs) = if c = '"' then !isOdd xs else isOdd xs := by grind [isOdd]
    rw [cons_append, unquoted, unquoted, hodd]
    split
    · simp [ih]
    · split <;> simp_all

theorem isOdd_append : isOdd (pre ++ [c]) = if c = '"' then !isOdd pre else isOdd pre := by
  grind [isOdd]

theorem depthAfter_append : depthAfter (pre ++ [c]) = depthAfter pre +
    if isOdd pre then 0 else if c = '(' then 1 else if c = ')' then -1 else 0 := by
  rw [depthAfter, depthAfter, unquoted_append, Bool.false_xor]
  grind [unquoted]

theorem state_append (hop : '"' ∉ op ∧ '(' ∉ op ∧ ')' ∉ op) (pre) :
    isOdd (pre ++ op) = isOdd pre ∧ depthAfter (pre ++ op) = depthAfter pre := by
  induction op generalizing pre with
  | nil => simp
  | cons c op ih =>
    simp only [mem_cons, not_or] at hop
    have ih := ih ⟨hop.1.2, hop.2.1.2, hop.2.2.2⟩ (pre ++ [c])
    rw [append_assoc, singleton_append, isOdd_append, depthAfter_append] at ih
    grind

theorem isCut_nil (hne : op ≠ []) :
    IsCut op pre part [] (if part.isEmpty then [] else [part.reverse]) := by
  refine ⟨[part.reverse], [], by simp, ?_, by simp [joinChars], rfl, ?_⟩
  · cases part <;> simp [withoutBlankEnd]
  · simp [AreCuts, hne]

theorem IsCut.keep (h : IsCut op (pre ++ [c]) (c :: part) cs result)
    (hno : ¬ (op <+: c :: cs ∧ Exposed pre)) : IsCut op pre part (c :: cs) result := by
  obtain ⟨parts, cuts, hparts, hresult, hjoin, hcuts, h⟩ := h
  refine ⟨parts, cuts.map (· + 1), hparts, hresult, by simpa using hjoin, ?_, ?_⟩
  · simp [hcuts, Function.comp_def, Nat.add_right_comm, Nat.add_assoc]
  · rintro (_ | i)
    · simpa using hno
    · simpa [Nat.succ_add] using h i

theorem IsCut.cut (hne : op ≠ []) (hpre : Exposed pre) (h : IsCut op (pre ++ op) [] cs result) :
    IsCut op pre part (op ++ cs) (part.reverse :: result) := by
  obtain ⟨parts, cuts, hparts, rfl, hjoin, hcuts, h⟩ := h
  obtain ⟨p, parts, rfl⟩ := exists_cons_of_ne_nil hparts
  refine ⟨part.reverse :: p :: parts, 0 :: cuts.map (op.length + ·), by simp, ?_, ?_, ?_, ?_⟩
  · grind [withoutBlankEnd]
  · simp [joinChars_cons, hjoin]
  · simp [cutsOf, hcuts, Function.comp_def, Nat.add_assoc]
  · intro i
    have hlen := length_pos_of_ne_nil hne
    rcases Nat.lt_or_ge i op.length with hi | hi
    · rcases i with _ | i
      · simp [hpre]
      · simp
        omega
    · obtain ⟨k, rfl⟩ := Nat.exists_eq_add_of_le hi
      rw [take_length_add_append, drop_length_add_append, ← append_assoc]
      simp [hne, h k, Nat.add_comm op.length]

theorem isCut_splitGo (hop : IsOperator op) (skip inString depth part cs)
    (hquotes : inString = isOdd pre) (hdepth : depth = depthAfter pre) :
    IsCut op pre part (cs.drop skip) (splitGo op skip inString depth part cs) := by
  obtain ⟨hne, hop⟩ := hop
  have hfirst {c rest} (h : op <+: c :: rest) : c ≠ '"' ∧ c ≠ '(' ∧ c ≠ ')' := by
    obtain ⟨o, os, rfl⟩ := exists_cons_of_ne_nil hne
    obtain rfl := (cons_prefix_cons.mp h).1
    grind
  fun_induction splitGo op skip inString depth part cs generalizing pre with
  | case1 skip inString depth part hempty | case2 skip inString depth part hempty =>
    simpa [hempty] using @isCut_nil op pre part hne
  | case3 skip inString depth part c rest ih => exact ih hquotes hdepth
  | case8 inString depth part c rest _ _ _ _ hcut ih =>
    obtain ⟨o, os, rfl⟩ := exists_cons_of_ne_nil hne
    rw [Bool.and_eq_true, isPrefixOf_iff_prefix, beq_iff_eq] at hcut
    obtain ⟨hzero, behind, hbehind⟩ := hcut
    obtain ⟨rfl, rfl⟩ := cons.inj hbehind
    have hstate := state_append hop pre
    rw [drop_zero, ← hbehind]
    refine IsCut.cut hne ⟨?_, ?_⟩ ?_
    · grind
    · grind
    · simpa using @ih (pre ++ o :: os) (by grind) (by grind)
  | case4 | case5 | case6 | case7 | case9 =>
    rename_i ih
    refine IsCut.keep (ih ?_ ?_) ?_
    all_goals clear ih; grind [isOdd_append, depthAfter_append, Exposed]

theorem isCut_splitTop (hop : IsOperator op) (cs) : IsCut op [] [] cs (splitTop op cs) :=
  isCut_splitGo hop 0 false 0 [] cs (show false = isOdd [] from rfl) rfl

/-- **Where a text is cut.** Parts with the operator between them are the text, and their joints
are the leftmost operators outside quotes and parentheses that do not overlap; an empty last part
is left out. -/
theorem splitTop_cuts (hop : IsOperator op) (cs : List Char) :
    ∃ parts, parts ≠ [] ∧ joinChars op parts = cs ∧
      splitTop op cs = (if parts.getLast? = some [] then parts.dropLast else parts) ∧
      ∀ i, i ∈ cutsOf op parts ↔ op <+: cs.drop i ∧ Even ((cs.take i).count '"') ∧
        (unquoted false (cs.take i)).count '(' = (unquoted false (cs.take i)).count ')' ∧
        ∀ j ∈ cutsOf op parts, j < i → j + op.length ≤ i := by
  obtain ⟨parts, cuts, hparts, hresult, hjoin, hcuts, h⟩ := isCut_splitTop hop cs
  simp only [length_nil, Nat.zero_add, map_id'] at hcuts
  refine ⟨parts, hparts, hjoin, hresult, fun i => ?_⟩
  rw [hcuts, h i]
  simp [Exposed, isOdd, depthAfter, Nat.even_iff, sub_eq_zero, and_assoc]

theorem splitTop_cuts_ampersands :
    IsOperator [','] ∧ IsOperator " & ".toList ∧
    ∃ parts, parts ≠ [] ∧ joinChars " & ".toList parts = "\"a & b\" & f(c & d) & & ".toList ∧
      splitTop " & ".toList "\"a & b\" & f(c & d) & & ".toList =
        (if parts.getLast? = some [] then parts.dropLast else parts) := by
  have hop : IsOperator " & ".toList := by decide
  obtain ⟨parts, hparts, hjoin, hsplit, -⟩ := splitTop_cuts hop "\"a & b\" & f(c & d) & & ".toList
  exact ⟨by decide, hop, parts, hparts, hjoin, hsplit⟩

theorem join_withoutBlankEnd : joinChars op (withoutBlankEnd parts) <+: joinChars op parts := by
  induction parts with
  | nil => exact prefix_refl _
  | cons p parts ih =>
    by_cases hparts : parts = []
    · subst hparts
      cases p <;> simp [withoutBlankEnd, joinChars]
    · have hcons : withoutBlankEnd (p :: parts) = p :: withoutBlankEnd parts := by
        obtain ⟨q, parts, rfl⟩ := exists_cons_of_ne_nil hparts
        grind [withoutBlankEnd]
      rw [hcons, joinChars_cons hparts]
      by_cases hrest : withoutBlankEnd parts = []
      · simp [hrest, joinChars]
      · rw [joinChars_cons hrest]
        exact (prefix_append_right_inj _).mpr ih

theorem prefix_join_splitTop (hop : IsOperator op) : joinChars op (splitTop op cs) <+: cs := by
  obtain ⟨parts, -, -, hresult, hjoin, -⟩ := isCut_splitTop hop cs
  rw [hresult]
  exact join_withoutBlankEnd.trans (hjoin ▸ prefix_refl _)

theorem infix_joinChars (hp : p ∈ parts) : p <:+: joinChars op parts := by
  induction parts with
  | nil => cases hp
  | cons q parts ih =>
    by_cases hparts : parts = []
    · subst hparts
      rw [mem_singleton.mp hp]
      exact infix_refl q
    · rw [joinChars_cons hparts, append_assoc]
      rcases mem_cons.mp hp with rfl | hp
      · exact (prefix_append _ _).isInfix
      · exact (ih hp).trans ((suffix_append _ _).trans (suffix_append _ _)).isInfix

theorem infix_of_mem_splitTop (hop : IsOperator op) (h : p ∈ splitTop op cs) : p <:+: cs :=
  (infix_joinChars h).trans (prefix_join_splitTop hop).isInfix

end

/-! ### Ink -/

/-- The number of characters that are no blanks. -/
def ink (cs : List Char) : Nat := cs.countP (· ≠ ' ')

section

variable {op p cs ds : List Char} {parts : List (List Char)}

theorem ink_cons (c cs) : ink (c :: cs) = ink cs + if c = ' ' then 0 else 1 := by
  simp [ink, countP_cons]

theorem ink_append : ink (cs ++ ds) = ink cs + ink ds := countP_append

theorem ink_mono (h : cs <:+: ds) : ink cs ≤ ink ds := h.sublist.countP_le

theorem ink_spaceAmpersandsGo (inString skipping last cs) :
    ink (spaceAmpersandsGo inString skipping last cs) = ink cs := by
  fun_induction spaceAmpersandsGo inString skipping last cs with
  | case1 => rfl
  | case2 inString skipping last c rest h ih => simp_all [ink_cons]
  | case3 | case5 => simp_all [ink_cons]
  | case4 inString skipping last c rest _ _ hamp lead ih =>
    obtain ⟨rfl, -⟩ : c = '&' ∧ inString = false := by simpa using hamp
    have hlead : ink lead = 0 := by
      simp only [lead]
      split <;> rfl
    simp [ink_append, hlead, ink_cons, ih]

theorem ink_part (hp : p ∈ parts) (hparts : 1 < parts.length) :
    ink p + ink op ≤ ink (joinChars op parts) := by
  induction parts with
  | nil => cases hp
  | cons q parts ih =>
    rw [joinChars_cons (by rintro rfl; simp at hparts), ink_append, ink_append]
    rcases mem_cons.mp hp with rfl | hp
    · omega
    · have hle := ink_mono (@infix_joinChars op p parts hp)
      omega

theorem ink_drop_lt (hname : name ∈ ["AND", "NOT", "IF"]) (h : isCall name cs) :
    ink (cs.drop name.length) < ink cs := by
  have hblank : upperChar ' ' = [' '] := by decide +kernel
  simp only [mem_cons, not_mem_nil, or_false] at hname
  cases cs with
  | nil => simp [isCall, upperChars] at h
  | cons c rest =>
    have hc : c ≠ ' ' := by
      rintro rfl
      rcases hname with rfl | rfl | rfl <;> simp [isCall, upperChars, hblank] at h
    have hlength : name.length = name.length - 1 + 1 := by
      rcases hname with rfl | rfl | rfl <;> rfl
    rw [hlength, drop_succ_cons, ink_cons, if_neg hc]
    exact Nat.lt_succ_of_le (ink_mono (drop_suffix _ rest).isInfix)

end

/-! ### Texts evaluated in turn -/

/-- A text as it is looked at: without outer blanks and with spaced ampersands. -/
def prepared (text : List Char) : List Char := spaceAmpersands (trimChars text)

def truthWords : List String := ["TRUE", "TRUE()", "FALSE", "FALSE()"]

/-- A text that is no concatenation. -/
def Single (cs : List Char) : Prop := ¬ 1 < (splitTop " & ".toList cs).length

/-- A text that is no literal, no truth value, no reference and no number. -/
structure Compound (d : Dialect) (cs : List Char) : Prop where
  literal : literal? cs = none
  word : String.ofList (upperChars cs) ∉ truthWords
  reference : d.reference? cs = none
  number : number? cs = none

/-- A compound text that is no concatenation and no call: signs are looked for in it. -/
structure Searched (d : Dialect) (cs : List Char) : Prop extends Compound d cs where
  single : Single cs
  call : ∀ name ∈ ["AND", "NOT", "IF"], isCall name cs = false

/-- The pieces of a text that can be evaluated when the text is. -/
inductive Calls (d : Dialect) (text : List Char) : List Char → Prop where
  | part {p : List Char} : ¬ Single (prepared text) →
      p ∈ splitTop " & ".toList (prepared text) → Calls d text p
  | argument {name : String} {p : List Char} : name ∈ ["AND", "IF"] →
      isCall name (prepared text) → p ∈ arguments name (prepared text) → Calls d text p
  | negated : isCall "NOT" (prepared text) → Calls d text (insideParens ((prepared text).drop 3))
  | side {sign l r p : List Char} : Searched d (prepared text) →
      sign ∈ ['='] :: signs.map Prod.fst → cutFirst sign (prepared text) = some (l, r) →
      p ∈ [l, r] → Calls d text p

section

variable {d : Dialect} {text p : List Char}

theorem Calls.isInfix (h : Calls d text p) : p <:+: prepared text := by
  have hinside : ∀ n, insideParens ((prepared text).drop n) <:+: prepared text := fun n =>
    (insideParens_isInfix _).trans (drop_suffix n _).isInfix
  cases h with
  | part _ hp => exact infix_of_mem_splitTop (by decide) hp
  | argument _ _ hp => exact (infix_of_mem_splitTop (by decide) hp).trans (hinside _)
  | negated => exact hinside 3
  | side _ _ hcut hp =>
    rw [eq_of_cutFirst hcut]
    rcases mem_pair.mp hp with rfl | rfl
    · exact (prefix_append _ _).isInfix
    · exact ((suffix_append _ _).trans (suffix_append _ _)).isInfix

/-- **Every piece has less ink** than the text. -/
theorem Calls.ink_lt (h : Calls d text p) : ink p < ink text := by
  have hprepared : ink (prepared text) ≤ ink text := by
    rw [prepared, spaceAmpersands, ink_spaceAmpersandsGo]
    exact ink_mono (trimChars_isInfix text)
  refine lt_of_lt_of_le ?_ hprepared
  cases h with
  | part hparts hp =>
    have hop : ink " & ".toList = 1 := by decide
    have hjoin := ink_mono
      (@prefix_join_splitTop " & ".toList (prepared text) (by decide)).isInfix
    have hpart := @ink_part " & ".toList p _ hp (not_not.mp hparts)
    omega
  | argument hname hcall hp =>
    refine lt_of_le_of_lt (ink_mono ?_) (ink_drop_lt (by simp at hname ⊢; tauto) hcall)
    exact (infix_of_mem_splitTop (by decide) hp).trans (insideParens_isInfix _)
  | negated hcall =>
    exact (ink_mono (insideParens_isInfix _)).trans_lt (ink_drop_lt (by simp) hcall)
  | side _ hsign hcut hp =>
    have hpos : ∀ sign ∈ ['='] :: signs.map Prod.fst, 0 < ink sign := by decide
    have hink := hpos _ hsign
    rw [eq_of_cutFirst hcut, ink_append, ink_append]
    rcases mem_pair.mp hp with rfl | rfl <;> omega

end

theorem kind_of_order (h : Value.order op a b = .error fault) : fault.kind = .type := by
  revert h
  refine Value.order.induct (fun a b => Value.order op a b = .error fault → fault.kind = .type)
    (fun as bs => Value.orderItems op as bs = .error fault → fault.kind = .type)
    ?_ ?_ ?_ ?_ ?_ ?_ ?_ a b
  · intro xs ys ih
    rwa [Value.order]
  · intro a b hne
    rw [Value.order.eq_2 op a b hne]
    fun_cases Value.orderAtom op a b <;> rintro ⟨⟩
    rfl
  all_goals simp_all [Value.orderItems]

/-! ### What evaluation keeps -/

section

variable {m m' : Type → Type} [Monad m] [Monad m']

/-- A relation between computations that is kept from step to step. -/
structure Carries (R : ∀ α : Type, m α → m' α → Prop) : Prop where
  pure {α : Type} (a : α) : R _ (pure a) (pure a)
  bind {α β : Type} {x : m α} {x' : m' α} {f : α → m β} {f' : α → m' β} :
    R _ x x' → (∀ a, R _ (f a) (f' a)) → R _ (x >>= f) (x' >>= f')

variable {R : ∀ α : Type, m α → m' α → Prop} (hR : Carries R) {ev : List Char → m Value}
  {ev' : List Char → m' Value} {ts : List (List Char)} {cs : List Char} {policy : Comparisons}
include hR

section

variable (h : ∀ t ∈ ts, R _ (ev t) (ev' t))
include h

theorem Carries.allTrue : R _ (allTrue ev ts) (allTrue ev' ts) := by
  induction ts with
  | nil => exact hR.pure true
  | cons t ts ih =>
    refine hR.bind (h t mem_cons_self) fun v => ?_
    split
    · exact ih fun u hu => h u (mem_cons_of_mem t hu)
    · exact hR.pure false

theorem Carries.joinParts (silent : Value → Bool) :
    R _ (joinParts silent ev ts) (joinParts silent ev' ts) := by
  induction ts with
  | nil => exact hR.pure ""
  | cons t ts ih =>
    exact hR.bind (h t mem_cons_self) fun v =>
      hR.bind (ih fun u hu => h u (mem_cons_of_mem t hu)) fun rest => hR.pure _

theorem Carries.chooseText (noElse : Value) :
    R _ (chooseText noElse ev ts) (chooseText noElse ev' ts) := by
  rcases ts with _ | ⟨cond, _ | ⟨yes, rest⟩⟩
  · exact hR.pure _
  · exact hR.pure _
  · refine hR.bind (h cond (by simp)) fun c => hR.bind (h yes (by simp)) fun y => ?_
    cases rest with
    | nil => exact hR.bind (hR.pure noElse) fun n => hR.pure _
    | cons no rest => exact hR.bind (h no (by simp)) fun n => hR.pure _

end

theorem Carries.equationText
    (h : ∀ l r, cutFirst ['='] cs = some (l, r) → R _ (ev l) (ev' l) ∧ R _ (ev r) (ev' r)) :
    R _ (equationText ev cs) (equationText ev' cs) := by
  rw [Sheet.equationText, Sheet.equationText]
  split
  case h_1 => exact hR.pure _
  case h_2 l r hcut =>
    obtain ⟨hl, hr⟩ := h l r hcut
    exact hR.bind hl fun a => hR.bind hr fun b => hR.pure _

variable [MonadExceptOf Fault m] [MonadExceptOf Fault m']
  (hstop : policy ≠ .lenient → ∀ fault : Fault, fault.kind ≠ .depth →
    R _ (throw fault : m Value) (throw fault))
include hstop

theorem Carries.compareText {otherwise : Unit → m Value} {otherwise' : Unit → m' Value}
    {tried : List (List Char × OrderOp)} (hotherwise : R _ (otherwise ()) (otherwise' ()))
    (h : ∀ sign ∈ tried.map Prod.fst, ∀ l r, cutFirst sign cs = some (l, r) →
      R _ (ev l) (ev' l) ∧ R _ (ev r) (ev' r)) : R _ (compareText policy ev otherwise cs tried)
      (compareText policy ev' otherwise' cs tried) := by
  induction tried with
  | nil => exact hotherwise
  | cons sign more ih =>
    have hmore := ih fun s hs => h s (mem_cons_of_mem _ hs)
    rw [Sheet.compareText, Sheet.compareText]
    split
    case h_1 => exact hmore
    case h_2 l r hcut =>
      obtain ⟨hl, hr⟩ := h sign.1 mem_cons_self l r hcut
      refine hR.bind hl fun a => hR.bind hr fun b => ?_
      split
      · split
        · exact hR.pure _
        · exact hmore
      · split
        case h_1 => exact hR.pure _
        case h_2 fault hfault =>
          split
          · exact hR.pure _
          · next hpolicy => exact hstop hpolicy fault (by rw [kind_of_order hfault]; decide)

omit hR hstop in
theorem compareText_of_forall (h : ∀ sign ∈ tried, cutFirst sign.1 cs = none) :
    compareText policy ev otherwise cs tried = otherwise () := by
  induction tried with
  | nil => rfl
  | cons sign tried ih =>
    rw [Sheet.compareText, h sign mem_cons_self]
    exact ih fun s hs => h s (mem_cons_of_mem _ hs)

end

/-- No sign of order is found in a text when signs are looked for in it. -/
def SignFree (d : Dialect) (text : List Char) : Prop :=
  Searched d (prepared text) → ∀ sign ∈ signs, cutFirst sign.1 (prepared text) = none

section

variable {m m' : Type → Type} [Monad m] [Monad m'] [MonadExceptOf Fault m] [MonadExceptOf Fault m']
  {R : ∀ α : Type, m α → m' α → Prop} (hR : Carries R) {d : Dialect} {p : Comparisons}
  {f : List Char → m Value} {g : List Char → m' Value} {text : List Char} {n n' : Nat}
  (hstop : d.comparisons ≠ .lenient → ∀ fault : Fault, fault.kind ≠ .depth →
    R _ (throw fault : m Value) (throw fault))
include hR hstop

/-- **One step**: what holds of the pieces holds of the text, also between dialects that differ in
their comparisons, where there is nothing to compare. -/
theorem Carries.eval_succ
    (hlookup : ∀ name, d.reference? (prepared text) = some name → R _ (f name) (g name))
    (hp : d.comparisons = p ∨ SignFree d text) (h : ∀ t, Calls d text t →
      R _ (eval d f n t) (eval { d with comparisons := p } g n' t)) : R _ (eval d f (n + 1) text)
      (eval { d with comparisons := p } g (n' + 1) text) := by
  rw [Sheet.eval, Sheet.eval]
  simp only []
  rw [← prepared]
  split
  case isTrue hparts =>
    exact hR.bind (hR.joinParts (fun p hp => h p (.part (not_not.mpr hparts) hp)) _) fun _ => hR.pure _
  case isFalse hparts =>
  split
  case h_1 => exact hR.pure _
  case h_2 hliteral =>
  split
  case isTrue => exact hR.pure _
  case isFalse htrue =>
  split
  case isTrue => exact hR.pure _
  case isFalse hfalse =>
  split
  case h_1 name hname => exact hlookup name hname
  case h_2 hreference =>
  split
  case h_1 => exact hR.pure _
  case h_2 hnumber =>
  split
  case isTrue hcall =>
    exact hR.bind (hR.allTrue fun p hp => h p (.argument (by simp) hcall hp)) fun _ => hR.pure _
  case isFalse hand =>
  split
  case isTrue hcall => exact hR.bind (h _ (.negated hcall)) fun _ => hR.pure _
  case isFalse hnot =>
  split
  case isTrue hcall => exact hR.chooseText (fun p hp => h p (.argument (by simp) hcall hp)) _
  case isFalse hif =>
    have hsearched : Searched d (prepared text) :=
      ⟨⟨hliteral, by simp_all [truthWords], hreference, hnumber⟩, hparts, by simp [hand, hnot, hif]⟩
    have hsides : ∀ sign ∈ ['='] :: signs.map Prod.fst, ∀ l r,
        cutFirst sign (prepared text) = some (l, r) → _ ∧ _ := fun sign hsign l r hcut =>
      And.intro (h l (.side hsearched hsign hcut (by simp)))
        (h r (.side hsearched hsign hcut (by simp)))
    have hequation := hR.equationText (hsides ['='] mem_cons_self)
    rcases hp with rfl | hp
    · split
      · exact hequation
      · exact hR.compareText hstop hequation fun sign hsign => hsides sign (mem_cons_of_mem _ hsign)
    · rw [compareText_of_forall (hp hsearched), compareText_of_forall (hp hsearched), ite_self,
        ite_self]
      exact hequation

/-- **Whole evaluations**: what holds of the fields that can be read holds of the text, whatever
the bounds on the depth are. -/
theorem Carries.eval
    (hlookup : ∀ t name, ReflTransGen (Calls d) text t → d.reference? (prepared t) = some name →
      R _ (f name) (g name))
    (hp : d.comparisons = p ∨ ∀ t, ReflTransGen (Calls d) text t → SignFree d t)
    (hn : ink text < n) (hn' : ink text < n') :
    R _ (eval d f n text) (eval { d with comparisons := p } g n' text) := by
  induction n generalizing text n' with
  | zero => cases hn
  | succ n ih =>
    obtain ⟨n', rfl⟩ := Nat.exists_eq_add_one_of_ne_zero (Nat.ne_zero_of_lt hn')
    refine hR.eval_succ hstop (hlookup text · .refl) (hp.imp_right (· text .refl)) fun t ht => ?_
    have hink := ht.ink_lt
    exact ih (fun u name hu => hlookup u name (.head ht hu))
      (hp.imp_right fun hall u hu => hall u (.head ht hu)) (by omega) (by omega)

theorem Carries.evalFormula {formula : String}
    (hlookup : ∀ t name, ReflTransGen (Calls d) (formula.toList.drop 1) t →
      d.reference? (prepared t) = some name → R _ (f name) (g name)) (hp : d.comparisons = p ∨
      ∀ t, ReflTransGen (Calls d) (formula.toList.drop 1) t → SignFree d t) :
    R _ (evalFormula d f formula) (evalFormula { d with comparisons := p } g formula) := by
  rw [Sheet.evalFormula, Sheet.evalFormula]
  split
  case h_2 => exact hR.pure _
  case h_1 rest hrest =>
    rw [hrest] at hlookup hp
    have hink : ink rest < rest.length + 1 := Nat.lt_succ_of_le countP_le_length
    exact hR.eval hstop hlookup hp hink hink

end

theorem carries_eq [Monad m] : Carries fun α (x y : m α) => x = y where
  pure _ := rfl
  bind hx hf := by rw [hx, funext hf]

/-! ### The bound on the depth -/

def evalRow (row : Record) : Nat → List Char → Except Fault Value :=
  eval exportDialect fun name => pure (row.get (.ofList name))

theorem carries_kind : Carries fun α (x _ : Except Fault α) =>
    ∀ fault, x = .error fault → fault.kind ≠ .depth where
  pure _ _ h := by cases h
  bind {_ _ x _ _ _} hx hf fault h := by
    cases x with
    | error f =>
      cases h
      exact hx _ rfl
    | ok a => exact hf a fault h

/-- **The recursion ends**: no formula can be cut up forever, no evaluation stops at the bound on
its depth, and every larger bound gives the same. -/
theorem evalOn_export_ends (row : Record) (formula : String) :
    WellFounded (fun p text => Calls exportDialect text p) ∧
    (∀ fault, evalOn exportDialect row (.str formula) = .error fault → fault.kind ≠ .depth) ∧
    ∀ text more, formula.toList = '=' :: text →
      evalRow row (text.length + 1 + more) text = evalOn exportDialect row (.str formula) := by
  refine ⟨Subrelation.wf Calls.ink_lt (measure ink).wf, ?_, fun text more htext => ?_⟩
  · refine carries_kind.evalFormula (fun _ fault hkind _ h => ?_) (fun t name _ _ fault h => ?_)
      (.inl rfl) (g := fun name => pure (row.get (.ofList name)))
    · cases h
      exact hkind
    · cases h
  · have hink : ink text < text.length + 1 := Nat.lt_succ_of_le countP_le_length
    rw [evalOn, evalContent, evalFormula, htext]
    exact carries_eq.eval (fun _ _ _ => rfl) (fun _ _ _ _ => rfl) (.inl rfl) (by omega) hink

/-! ### Steps of the evaluation -/

/-- The value of a text that is no literal, truth word, reference or number. -/
def compound (d : Dialect) (ev : List Char → Except Fault Value) (cs : List Char) :
    Except Fault Value :=
  if isCall "AND" cs then (allTrue ev (arguments "AND" cs)).map .bool
  else if isCall "NOT" cs then (ev (insideParens (cs.drop 3))).map fun v =>
    if v.isNull then .null else .bool (!v.truthy)
  else if isCall "IF" cs then chooseText d.noElse ev (arguments "IF" cs)
  else if d.comparisons = .absent then equationText ev cs
  else compareText d.comparisons ev (fun _ => equationText ev cs) cs signs

section

variable {d : Dialect} {row : Record} {lookup : List Char → Except Fault Value} {n : Nat}
  {text cs : List Char} (hcs : prepared text = cs) (hsingle : Single cs)
include hcs hsingle

theorem eval_unworded (hliteral : literal? cs = none)
    (hword : String.ofList (upperChars cs) ∉ truthWords) : eval d lookup (n + 1) text =
      ((d.reference? cs).map lookup).getD (((number? cs).map .ok).getD (compound d (eval d lookup n) cs)) := by
  simp only [truthWords, mem_cons, not_or] at hword
  obtain ⟨htrue, htrue', hfalse, hfalse', -⟩ := hword
  rw [eval, ← prepared, hcs]
  simp only [show ¬ 1 < (splitTop " & ".toList cs).length from hsingle, hliteral, if_false, htrue, htrue', hfalse, hfalse', decide_false,
    Bool.or_self, Bool.false_eq_true]
  cases d.reference? cs with
  | some name => rfl
  | none =>
    cases number? cs with
    | some v => rfl
    | none =>
      rfl

theorem eval_compound (h : Compound d cs) :
    eval d lookup (n + 1) text = compound d (eval d lookup n) cs := by
  rw [eval_unworded hcs hsingle h.literal h.word, h.reference, h.number]
  rfl

end

section

variable {d : Dialect} {row : Record} {n : Nat} {text cs l r : List Char} {a b : Value}
  {op : OrderOp} {holds : Bool}

theorem eval_of_searched {lookup : List Char → Except Fault Value}
    (h : Searched d (prepared text)) : eval d lookup (n + 1) text =
      if d.comparisons = .absent then equationText (eval d lookup n) (prepared text)
      else compareText d.comparisons (eval d lookup n)
        (fun _ => equationText (eval d lookup n) (prepared text)) (prepared text) signs := by
  rw [eval_compound rfl h.single h.toCompound, compound, h.call "AND" (by simp), h.call "NOT" (by simp),
    h.call "IF" (by simp)]
  rfl

theorem compareText_of_found
    {otherwise : Unit → Except Fault Value} (ha : a.isNull = false) (hb : b.isNull = false)
    (horder : Value.order op a b = .ok holds)
    (hfront : ∀ p ∈ front, ∀ l r, cutFirst p.1 cs = some (l, r) →
      p.2 = op ∧ ev l = .ok a ∧ ev r = .ok b)
    (hcut : cutFirst sign cs = some (l, r)) (hl : ev l = .ok a) (hr : ev r = .ok b) :
    compareText .strict ev otherwise cs (front ++ (sign, op) :: back) = .ok (.bool holds) := by
  induction front with
  | nil => simp [compareText, hcut, hl, hr, ha, hb, horder, pure, Except.pure]
  | cons p front ih =>
    obtain ⟨sign', op'⟩ := p
    obtain ⟨hp, hfront⟩ := forall_mem_cons.mp hfront
    rw [cons_append, compareText]
    cases hcut' : cutFirst sign' cs with
    | none => exact ih hfront
    | some q =>
      obtain ⟨rfl, hl', hr'⟩ := hp q.1 q.2 hcut'
      simp [hl', hr', ha, hb, horder, pure, Except.pure]

/-! ### Dialects without comparisons -/

/-- The sign of order that is tried first of those that stand in a text, with what is around it. -/
def firstSign (cs : List Char) : Option (OrderOp × List Char × List Char) :=
  signs.findSome? fun sign => (cutFirst sign.1 cs).map (sign.2, ·)

/-- A text that compares two values, and the truth of the comparison. -/
structure Compares (row : Record) (n : Nat) (text : List Char) (truth : Bool) : Prop where
  searched : Searched exportDialect (prepared text)
  values : ∃ op l r a b, firstSign (prepared text) = some (op, l, r) ∧ evalRow row n l = .ok a ∧
    evalRow row n r = .ok b ∧ a.isNull = false ∧ b.isNull = false ∧ Value.order op a b = .ok truth

theorem Compares.evalRow_eq (h : Compares row n text truth) :
    evalRow row (n + 1) text = .ok (.bool truth) := by
  obtain ⟨op, l, r, a, b, hsign, hl, hr, ha, hb, horder⟩ := h.values
  obtain ⟨front, sign, back, hsigns, hcut, hfront⟩ := findSome?_eq_some_iff.mp hsign
  obtain ⟨_, hcut, ⟨⟩⟩ := Option.map_eq_some_iff.mp hcut
  rw [evalRow, eval_of_searched h.searched, hsigns]
  refine compareText_of_found ha hb horder (fun p hp l r hcut => ?_) hcut hl hr
  simpa [hcut] using hfront p hp

/-- **A dialect without comparisons** gives the values of the other one where no text with a sign of
order is reached. A comparison has its truth value in the one dialect and, without an equals sign in
it, no value in the other. -/
theorem evalOn_preview_eq_export {formula : String} {text : List Char}
    (hformula : formula.toList = '=' :: text) (row : Record) :
    ((∀ t, ReflTransGen (Calls exportDialect) text t → SignFree exportDialect t) →
      evalOn previewDialect row (.str formula) = evalOn exportDialect row (.str formula)) ∧
    ∀ truth, Compares row text.length text truth → cutFirst ['='] (prepared text) = none →
      evalOn exportDialect row (.str formula) = .ok (.bool truth) ∧
      evalOn previewDialect row (.str formula) = .ok .null := by
  constructor
  · intro h
    rw [show text = formula.toList.drop 1 by rw [hformula]; rfl] at h
    exact (carries_eq.evalFormula (d := exportDialect) (p := .absent) (fun _ _ _ => rfl)
      (fun _ _ _ _ => rfl) (.inr h)).symm
  · intro truth h hequal
    rw [evalOn, evalContent, evalOn, evalContent, evalFormula, evalFormula, hformula]
    refine ⟨h.evalRow_eq, ?_⟩
    have hsearched : Searched previewDialect (prepared text) :=
      { h.searched with }
    simp only []
    rw [eval_of_searched hsearched, if_pos (show previewDialect.comparisons = .absent from rfl),
      equationText, hequal]
    rfl

theorem evalOn_preview_eq_export_greater :
    evalOn exportDialect [("A", .int 2)] (.str "=\x7b\x7bA\x7d\x7d > 1") = .ok (.bool true) ∧
    evalOn previewDialect [("A", .int 2)] (.str "=\x7b\x7bA\x7d\x7d > 1") = .ok .null := by
  refine (evalOn_preview_eq_export rfl _).2 true ⟨?_, ?_⟩ (by decide +kernel)
  · exact ⟨⟨by decide +kernel, by decide +kernel, by decide +kernel, by decide +kernel⟩,
      by unfold Single; decide +kernel, by decide +kernel⟩
  · exact ⟨.gt, "\x7b\x7bA\x7d\x7d".toList, ['1'], .int 2, .int 1, by decide +kernel, rfl, rfl,
      rfl, rfl, rfl⟩

end

/-!
### The fields that formula text reads

A field can be read only if its name stands between double braces somewhere in the text.
-/

/-! ### Spacing the ampersands -/

section

variable {w cs : List Char} {inString skipping : Bool} {last : Option Char}

theorem prefix_of_prefix_spaceAmpersandsGo (hblank : ' ' ∉ w) (hamp : '&' ∉ w)
    (h : w <+: spaceAmpersandsGo inString false last cs) : w <+: cs := by
  induction cs generalizing w inString last with
  | nil => exact h
  | cons c rest ih =>
    cases w with
    | nil => exact nil_prefix
    | cons a w =>
      have hkept : ∀ {inString last}, a :: w <+: c :: spaceAmpersandsGo inString false last rest →
          a :: w <+: c :: rest := by
        intro inString last h
        rw [cons_prefix_cons] at h ⊢
        exact ⟨h.1, ih (not_mem_of_not_mem_cons hblank) (not_mem_of_not_mem_cons hamp) h.2⟩
      rw [spaceAmpersandsGo] at h
      simp only [Bool.false_and, Bool.false_eq_true, if_false] at h
      split at h
      · exact hkept h
      · grind

/-- **Spacing makes nothing new**: what is free of blanks and ampersands and stands in the spaced
text stood in the text. -/
theorem infix_of_infix_spaceAmpersandsGo (hblank : ' ' ∉ w) (hamp : '&' ∉ w)
    (h : w <:+: spaceAmpersandsGo inString skipping last cs) : w <:+: cs := by
  by_cases hw : w = []
  · rw [hw]
    exact nil_infix
  -- an inserted character cannot open the piece
  have hpast : ∀ {c : Char} {rest : List Char}, c ∉ w → w <:+: c :: rest → w <:+: rest := by
    intro c rest hc h
    rcases infix_cons_iff.mp h with h | h
    · obtain ⟨a, v, rfl⟩ := exists_cons_of_ne_nil hw
      rw [cons_prefix_cons] at h
      exact absurd (h.1 ▸ mem_cons_self) hc
    · exact h
  induction cs generalizing inString skipping last with
  | nil => exact h
  | cons c rest ih =>
    have hkept : ∀ {inString last}, w <:+: c :: spaceAmpersandsGo inString false last rest →
        w <:+: c :: rest := by
      intro inString last h
      rcases infix_cons_iff.mp h with h | h
      · obtain ⟨a, v, rfl⟩ := exists_cons_of_ne_nil hw
        rw [cons_prefix_cons] at h
        refine (cons_prefix_cons.mpr ⟨h.1, ?_⟩).isInfix
        exact prefix_of_prefix_spaceAmpersandsGo (not_mem_of_not_mem_cons hblank)
          (not_mem_of_not_mem_cons hamp) h.2
      · exact (ih h).trans (suffix_cons c rest).isInfix
    rw [spaceAmpersandsGo] at h
    split at h
    · exact (ih h).trans (suffix_cons c rest).isInfix
    · split at h
      · exact hkept h
      · split at h
        case isFalse => exact hkept h
        case isTrue =>
          refine IsInfix.trans ?_ (suffix_cons c rest).isInfix
          split at h
          · exact ih (hpast hblank (hpast hamp h))
          · exact ih (hpast hblank (hpast hamp (hpast hblank h)))

theorem infix_of_infix_spaceAmpersands (hblank : ' ' ∉ w) (hamp : '&' ∉ w)
    (h : w <:+: spaceAmpersands cs) : w <:+: cs :=
  infix_of_infix_spaceAmpersandsGo hblank hamp h

end

/-! ### Mentioned fields -/

def reference (name : List Char) : List Char := ['\x7b', '\x7b'] ++ name ++ ['\x7d', '\x7d']

/-- A text mentions a field when a reference to it stands somewhere in the text. -/
def Mentions (text name : List Char) : Prop :=
  (∀ c ∈ name, isWord c) ∧ reference name <:+: text

section

variable {cs : List Char}

variable {text part name : List Char}

theorem Mentions.of_infix (h : Mentions part name) (hpart : part <:+: text) : Mentions text name :=
  ⟨h.1, h.2.trans hpart⟩

theorem notMem_reference (hname : ∀ c ∈ name, isWord c) (hword : isWord c = false)
    (hbraces : c ≠ '\x7b' ∧ c ≠ '\x7d') : c ∉ reference name := by
  rw [reference]
  intro hmem
  simp only [mem_append, mem_cons, not_mem_nil, or_false, hbraces.1, hbraces.2, false_or] at hmem
  exact Bool.false_ne_true (hword.symm.trans (hname c hmem))

theorem Mentions.of_spaceAmpersands (h : Mentions (spaceAmpersands text) name) :
    Mentions text name := by
  refine ⟨h.1, infix_of_infix_spaceAmpersands ?_ ?_ h.2⟩
  · exact notMem_reference h.1 (by decide +kernel) (by decide)
  · exact notMem_reference h.1 (by decide +kernel) (by decide)

theorem Mentions.of_prepared (h : Mentions (prepared text) name) : Mentions text name :=
  h.of_spaceAmpersands.of_infix (trimChars_isInfix text)

theorem fieldReference?_eq_some_iff : fieldReference? cs = some name ↔
    name ≠ [] ∧ (∀ c ∈ name, isWord c) ∧ cs = reference name := by
  have hstop : ∀ c ∈ (['\x7d', '\x7d'] : List Char).head?, isWord c = false := by
    rintro c ⟨⟩
    decide +kernel
  rw [fieldReference?]
  constructor
  · intro h
    split at h
    case h_1 => cases h
    case h_2 rest hrest =>
      simp only [] at h
      split at h
      case isFalse => cases h
      case isTrue hname =>
        rw [Bool.and_eq_true, beq_iff_eq] at hname
        obtain rfl := Option.some.inj h
        refine ⟨by simpa using hname.1, fun c hc => mem_takeWhile_imp hc, ?_⟩
        rw [after?_eq_some_iff.mp hrest, reference, append_assoc, ← hname.2,
          takeWhile_append_dropWhile]
  · rintro ⟨hne, hword, rfl⟩
    have hrest : after? ['\x7b', '\x7b'] (reference name) = some (name ++ ['\x7d', '\x7d']) :=
      after?_eq_some_iff.mpr (by simp [reference])
    rw [hrest]
    simp only []
    rw [takeWhile_append_of_stop hword hstop, dropWhile_append_of_stop hword hstop]
    simp [hne]

theorem mentions_of_fieldReference? (h : fieldReference? cs = some name) : Mentions cs name := by
  obtain ⟨-, hword, rfl⟩ := fieldReference?_eq_some_iff.mp h
  exact ⟨hword, infix_refl _⟩

end

def mentioned (text : List Char) : List (List Char) :=
  text.tails.filterMap fun cs => (after? ['\x7b', '\x7b'] cs).map (takeWhile isWord)

theorem Mentions.mem_mentioned (h : Mentions text name) : name ∈ mentioned text := by
  obtain ⟨hword, before, behind, rfl⟩ := h
  have hstop : ∀ c ∈ (['\x7d', '\x7d'] ++ behind : List Char).head?, isWord c = false := by
    rintro c ⟨⟩
    decide +kernel
  refine mem_filterMap.mpr ⟨reference name ++ behind, ?_, ?_⟩
  · simp
  · have hrest : after? ['\x7b', '\x7b'] (reference name ++ behind) =
        some (name ++ (['\x7d', '\x7d'] ++ behind)) :=
      after?_eq_some_iff.mpr (by simp [reference])
    rw [hrest, Option.map_some, takeWhile_append_of_stop hword hstop]

/-! ### Evaluation -/

theorem Mentions.of_calls (h : Mentions part name)
    (hcalls : ReflTransGen (Calls d) text part) : Mentions text name := by
  induction hcalls with
  | refl => exact h
  | tail _ hcall ih => exact ih (h.of_infix hcall.isInfix).of_prepared

/-- **Evaluation reads what the text mentions**: where two ways to look fields up agree on the
fields that a text mentions, the text has the same value. -/
theorem evalFormula_congr [Monad m] [MonadExceptOf Fault m]
    (hd : d.reference? = fieldReference?) {lookup lookup' : List Char → m Value}
    (h : ∀ name, Mentions formula.toList name → lookup name = lookup' name) :
    evalFormula d lookup formula = evalFormula d lookup' formula := by
  refine carries_eq.evalFormula (fun _ _ _ => rfl) (fun t name ht hname => h name ?_) (.inl rfl)
  rw [hd] at hname
  have hmentions := (mentions_of_fieldReference? hname).of_prepared.of_calls ht
  exact hmentions.of_infix (drop_suffix 1 _).isInfix

end Rulebook.Sheet
