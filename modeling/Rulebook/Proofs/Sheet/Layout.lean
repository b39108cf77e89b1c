/-
Formula text as a row of words, one for each token, with white space between them.
-/

import Rulebook.Proofs.Formula.Grammar
import Rulebook.Proofs.Formula.Lexing
import Rulebook.Proofs.Sheet.Recursion

namespace Rulebook.Sheet

open List Option Formula
open Text

variable {cs rest trail : List Char} {i : Item} {c : Char} {ts : List Token} {items : List Item}
  {f : Item → Option Item → List Char}

/-! ### Words -/

def Spells : Lexeme → List Char → Prop
  | .string s, w => w = '"' :: (s.toList ++ ['"']) ∧ ('\\' ∉ s.toList → '"' ∉ s.toList)
  | .number n, w =>
    w ≠ [] ∧ (∀ c ∈ w, isDigit c ∨ c = '-') ∧ Numeral.readInteger (.ofList w) = .ok n
  | .fieldRef name, w => w = reference name.toList
  | .name word, w => w ≠ [] ∧ (∀ c ∈ w, isWord c) ∧ word = .ofList (upperChars w)
  | .lparen, w => w = ['(']
  | .rparen, w => w = [')']
  | .comma, w => w = [',']
  | .ampersand, w => w = ['&']
  | .relation op, w => w = op.symbol.toList ∧ ∀ s, op ≠ .other s
  | .eof, _ => False

theorem stringLength_eq_some (h : stringLength cs = some n) :
    cs.take (n + 1) = cs.take n ++ ['"'] ∧ ('\\' ∉ cs.take n → '"' ∉ cs.take n) := by
  fun_induction stringLength cs generalizing n with
  | case1 => cases h
  | case2 rest =>
    obtain rfl := Option.some.inj h
    simp
  | case3 => cases h
  | case4 c rest ih =>
    obtain ⟨m, hm, rfl⟩ := map_eq_some_iff.mp h
    simp [(ih hm).1]
  | case5 c rest hquote hslash1 hslash ih =>
    obtain ⟨m, hm, rfl⟩ := map_eq_some_iff.mp h
    have hc : c ≠ '"' := fun hc => hquote hc
    obtain ⟨htake, hkeeps⟩ := ih hm
    refine ⟨by simp [htake], fun hmem => ?_⟩
    simp only [take_succ_cons, mem_cons, not_or] at hmem ⊢
    exact ⟨hc.symm, hkeeps hmem.2⟩

theorem take_length_takeWhile (p) (cs : List Char) :
    cs.take (cs.takeWhile p).length = cs.takeWhile p :=
  (prefix_iff_eq_take.mp ( takeWhile_prefix p)).symm

theorem isWord_of_startsName (h : isLetter c || c = '_') : isWord c := by
  unfold isWord isAlphanumeric
  simp only [Bool.or_eq_true, decide_eq_true_eq, beq_iff_eq] at h ⊢
  exact h.imp .inl id

/-- **Reading a word.** What the lexer takes for a lexeme spells it. -/
theorem spells_of_lexemeAt
    (h : lexemeAt pos c rest = .ok (l, n)) : Spells l (c :: rest.take n) := by
  revert h
  fun_cases lexemeAt pos c rest with
  | case1 | case3 | case6 | case18 => rintro ⟨⟩
  | case2 hquote m hm =>
    rintro ⟨⟩
    obtain ⟨htake, hkeeps⟩ := stringLength_eq_some hm
    rw [htake, hquote, Spells, String.toList_ofList]
    exact ⟨rfl, hkeeps⟩
  | case4 _ hopen m hm =>
    rintro ⟨⟩
    simp only [Bool.and_eq_true, decide_eq_true_eq] at hopen
    obtain ⟨rfl, hopen⟩ := hopen
    obtain ⟨rest', rfl⟩ := head?_eq_some_iff.mp hopen
    obtain ⟨behind, hbehind⟩ := prefix_of_findChars hm
    rw [drop_succ_cons, drop_zero] at hbehind
    rw [Spells, String.toList_ofList, take_succ_cons, take_add, ← hbehind]
    rfl
  | case5 _ _ hdigit run n' hread =>
    rintro ⟨⟩
    rw [take_length_takeWhile]
    refine ⟨by simp, fun d hd => ?_, hread⟩
    rcases mem_cons.mp hd with rfl | hd
    · grind
    · exact .inl (mem_takeWhile_imp hd)
  | case7 _ _ _ hc hhead | case8 _ _ _ hc _ hhead | case10 _ _ _ _ hc hhead =>
    rintro ⟨⟩
    obtain ⟨rest', rfl⟩ := head?_eq_some_iff.mp hhead
    exact ⟨by rw [hc]; rfl, by rintro _ ⟨⟩⟩
  | case9 _ _ _ hc | case11 _ _ _ _ hc | case12 _ _ _ _ _ hc =>
    rintro ⟨⟩
    exact ⟨by rw [hc]; rfl, by rintro _ ⟨⟩⟩
  | case13 _ _ _ _ _ _ hc | case14 _ _ _ _ _ _ _ hc | case15 _ _ _ _ _ _ _ _ hc
  | case16 _ _ _ _ _ _ _ _ _ hc =>
    rintro ⟨⟩
    rw [hc]
    rfl
  | case17 _ _ _ _ _ _ _ _ _ _ hname run =>
    rintro ⟨⟩
    rw [take_length_takeWhile]
    refine ⟨by simp, fun d hd => ?_, rfl⟩
    rcases mem_cons.mp hd with rfl | hd
    · exact isWord_of_startsName hname
    · exact mem_takeWhile_imp (p := isWord) hd

theorem le_length_of_lexemeAt (h : lexemeAt pos c rest = .ok (l, n)) : n ≤ rest.length := by
  revert h
  fun_cases lexemeAt pos c rest with
  | case2 hquote m hm =>
    rintro ⟨⟩
    have hlength := congrArg length (stringLength_eq_some hm).1
    simp at hlength
    omega
  | case4 _ hopen m hm =>
    rintro ⟨⟩
    obtain ⟨behind, hbehind⟩ := prefix_of_findChars hm
    have hlength := congrArg length hbehind
    simp at hlength
    omega
  | case5 | case17 =>
    rintro ⟨⟩
    exact ( takeWhile_prefix _).length_le
  | _ => cases rest <;> simp_all <;> omega

/-! ### Rows of words -/

structure Item where
  token : Token
  word : List Char
  gap : List Char

def Item.lexeme (i : Item) : Lexeme := i.token.lexeme

def render (items : List Item) : List Char := items.flatMap fun i => i.word ++ i.gap

@[simp] theorem render_nil : render [] = [] := rfl

@[simp] theorem render_cons (i items) :
    render (i :: items) = i.word ++ (i.gap ++ render items) := by
  simp [render]

@[simp] theorem render_append (xs ys) : render (xs ++ ys) = render xs ++ render ys := by
  simp [render]

structure Item.Written (i : Item) : Prop where
  spells : Spells i.lexeme i.word
  blank : ∀ c ∈ i.gap, isGap c

theorem Item.Written.spells_of (h : i.Written) (hl : i.lexeme = l) : Spells l i.word := hl ▸ h.spells

/-- Items that stand at the positions of their tokens, the first one at `pos`. -/
def Placed (pos : Nat) : List Item → Prop
  | [] => True
  | i :: items => i.token.pos = pos ∧ Placed (pos + (i.word ++ i.gap).length) items

/-- **A scanned text is a row of words**, white space in front of it apart. -/
theorem exists_items_of_scan (h : scan pos cs = .ok ts) :
    ∃ (lead : List Char) (items : List Item), (∀ c ∈ lead, isGap c) ∧ (∀ i ∈ items, i.Written) ∧
      ts = items.map Item.token ++ [⟨.eof, pos + cs.length⟩] ∧ cs = lead ++ render items ∧
      Placed (pos + lead.length) items := by
  fun_induction scan pos cs generalizing ts with
  | case1 pos => exact ⟨[], [], by simp, by simp, (Except.ok.inj h).symm, rfl, trivial⟩
  | case2 pos c rest hgap ih =>
    obtain ⟨lead, items, hlead, hitems, hts, rfl, hplaced⟩ := ih h
    rw [Nat.add_assoc, Nat.add_comm 1] at hts hplaced
    exact ⟨c :: lead, items, forall_mem_cons.mpr ⟨hgap, hlead⟩, hitems, hts, rfl, hplaced⟩
  | case3 => cases h
  | case4 => cases h
  | case5 pos c rest hgap l n hlexeme tokens hscan ih =>
    obtain ⟨lead, items, hlead, hitems, rfl, hrest, hplaced⟩ := ih hscan
    obtain rfl := Except.ok.inj h
    have hlength : n ≤ rest.length := le_length_of_lexemeAt hlexeme
    refine ⟨[], ⟨⟨l, pos⟩, c :: rest.take n, lead⟩ :: items, by simp, ?_, ?_, ?_, rfl, ?_⟩
    · exact forall_mem_cons.mpr ⟨⟨spells_of_lexemeAt hlexeme, hlead⟩, hitems⟩
    · simp
      omega
    · rw [render_cons, ← hrest]
      simp
    · convert hplaced using 1
      simp
      omega

theorem Spells.ne_nil (h : Spells l w) : w ≠ [] := by
  rintro rfl
  cases l with
  | relation op => cases op <;> simp_all [Spells, Relation.symbol]
  | _ => simp [Spells, reference] at h

/-- **Items at their positions** are slices of the text that do not overlap, and white space fills
the rest of it. -/
theorem Placed.slices {before : List Char} (h : Placed before.length items)
    (hitems : ∀ i ∈ items, i.Written) : (∀ i ∈ items, before.length ≤ i.token.pos ∧
      i.word <+: (before ++ render items).drop i.token.pos) ∧
    items.Pairwise (fun i j => i.token.pos + i.word.length ≤ j.token.pos) ∧
    ∀ k c, before.length ≤ k → (before ++ render items)[k]? = some c →
      isGap c ∨ ∃ i ∈ items, i.token.pos ≤ k ∧ k < i.token.pos + i.word.length := by
  induction items generalizing before with
  | nil =>
    refine ⟨by simp, .nil, fun k c hk hc => ?_⟩
    simp [getElem?_eq_none hk] at hc
  | cons i items ih =>
    obtain ⟨hi, hitems⟩ := forall_mem_cons.mp hitems
    obtain ⟨hpos, h⟩ := h
    rw [← length_append] at h
    obtain ⟨hslices, hpairs, hgaps⟩ := ih h hitems
    simp only [render_cons, length_append, append_assoc] at hslices hgaps ⊢
    refine ⟨forall_mem_cons.mpr ⟨⟨hpos.ge, by simp [hpos]⟩, fun j hj => ?_⟩,
      pairwise_cons.mpr ⟨fun j hj => ?_, hpairs⟩, fun k c hk hc => ?_⟩
    · exact ⟨by have := (hslices j hj).1; omega, (hslices j hj).2⟩
    · have := (hslices j hj).1
      omega
    · by_cases hlong : before.length + (i.word.length + i.gap.length) ≤ k
      · exact (hgaps k c hlong hc).imp_right fun ⟨j, hj, h⟩ => ⟨j, mem_cons_of_mem i hj, h⟩
      · by_cases hword : k < i.token.pos + i.word.length
        · exact .inr ⟨i, mem_cons_self, hpos ▸ hk, hword⟩
        · left
          refine hi.blank c (mem_of_getElem? (i := k - before.length - i.word.length) ?_)
          rw [getElem?_append_right hk, getElem?_append_right (by omega),
            getElem?_append_left (by omega)] at hc
          exact hc

/-- **Tokens lose nothing of a formula.** Behind one leading equals sign every token stands, at its
position, for a slice of the text that spells it. The slices come one after another without
overlap, white space is all there is outside them, and the end is at the end of the text. -/
theorem exists_items_of_tokenize {formula : String} {ts : List Token}
    (h : tokenize formula = .ok ts) : ∃ items : List Item,
      ts = items.map Item.token ++ [⟨.eof, (body formula.toList).length⟩] ∧
      ts.Pairwise (·.pos < ·.pos) ∧
      (∀ i ∈ items, Spells i.lexeme i.word ∧ i.word <+: (body formula.toList).drop i.token.pos) ∧
      items.Pairwise (fun i j => i.token.pos + i.word.length ≤ j.token.pos) ∧
      ∀ k c, (body formula.toList)[k]? = some c →
        (∀ i ∈ items, ¬ (i.token.pos ≤ k ∧ k < i.token.pos + i.word.length)) →
        c ∈ [' ', '\t', '\n', '\r'] := by
  obtain ⟨lead, items, hlead, hitems, rfl, hbody, hplaced⟩ := exists_items_of_scan h
  rw [Nat.zero_add] at hplaced
  obtain ⟨hslices, hpairs, hgaps⟩ := hplaced.slices hitems
  rw [← hbody] at hslices hgaps
  rw [Nat.zero_add]
  refine ⟨items, rfl, ?_, fun i hi => ⟨(hitems i hi).spells, (hslices i hi).2⟩, hpairs, ?_⟩
  · have hshort : ∀ i ∈ items, 0 < i.word.length := fun i hi =>
      length_pos_iff.mpr (hitems i hi).spells.ne_nil
    refine pairwise_append.mpr ⟨pairwise_map.mpr (hpairs.imp_of_mem fun hi _ h => ?_), by simp, ?_⟩
    · have := hshort _ hi
      omega
    · simp only [List.forall_mem_map, mem_singleton, forall_eq]
      intro i hi
      have hle := (hslices i hi).2.length_le
      have := hshort i hi
      rw [length_drop] at hle
      omega
  · intro k c hc hout
    have hgap : isGap c := by
      by_cases hk : lead.length ≤ k
      · refine (hgaps k c hk hc).resolve_right ?_
        rintro ⟨i, hi, hin⟩
        exact hout i hi hin
      · rw [hbody, getElem?_append_left (by omega)] at hc
        exact hlead c (mem_of_getElem? hc)
    grind [isGap]

theorem exists_items_of_tokenize_comparison : ∃ items : List Item,
    items.map Item.token = [⟨.name "X", 1⟩, ⟨.relation .lt, 2⟩, ⟨.fieldRef "A", 3⟩] ∧
      ∀ i ∈ items, Spells i.lexeme i.word := by
  have htokens : tokenize "= x<{{A}}" = .ok [⟨.name "X", 1⟩, ⟨.relation .lt, 2⟩, ⟨.fieldRef "A", 3⟩,
    ⟨.eof, 8⟩] := by cbv
  obtain ⟨items, hts, -, hspells, -⟩ := exists_items_of_tokenize htokens
  exact ⟨items, (append_inj_left' hts rfl).symm, fun i hi => (hspells i hi).1⟩

theorem exists_items_of_parse (h : parse formula = .ok e) :
    ∃ (lead : List Char) (items : List Item), (∀ c ∈ lead, isGap c) ∧ (∀ i ∈ items, i.Written) ∧
      IsConcat (items.map Item.token) e ∧ body formula.toList = lead ++ render items := by
  unfold parse at h
  split at h
  · cases h
  · next ts hscan =>
    obtain ⟨lead, items, hlead, hitems, rfl, hbody, -⟩ := exists_items_of_scan hscan
    have htokens : ∀ t ∈ items.map Item.token, t.lexeme ≠ .eof := by
      intro t ht heof
      obtain ⟨i, hi, rfl⟩ := mem_map.mp ht
      exact (hitems i hi).spells_of heof
    refine ⟨lead, items, hlead, hitems, ?_, hbody⟩
    generalize hresult : parseTokens _ = result at h
    cases result with
    | error err => cases h
    | ok e' =>
      cases h
      exact isConcat_of_parseTokens rfl htokens hresult

/-- **Parsed trees** are built from lexemes that words spell. -/
theorem built_of_parse (h : parse formula = .ok e) :
    ∀ s ∈ e.subterms, Built (fun l => ∃ w, Spells l w) s := by
  obtain ⟨-, items, -, hitems, hconcat, -⟩ := exists_items_of_parse h
  exact hconcat.traces.built _ (forall_mem_map.mpr fun i hi => ⟨i.word, (hitems i hi).spells⟩)

/-! ### Sound items -/

def keywords : List String := ["TRUE", "FALSE", "AND", "NOT", "IF"]

/-- A lexeme that may stand in a text: strings are free of backslashes, fields have names of word
characters, and no other names are used. -/
def Fit : Lexeme → Prop
  | .string s => '\\' ∉ s.toList
  | .fieldRef name => name.toList ≠ [] ∧ ∀ c ∈ name.toList, isWord c
  | .name word => upper word ∈ keywords
  | _ => True

structure Item.Sound (i : Item) : Prop extends i.Written where
  fit : Fit i.lexeme

theorem unexpanded_keywords : ∀ p ∈ upperExpansions, ∀ word ∈ [['T', 'R', 'U', 'E'],
    ['F', 'A', 'L', 'S', 'E'], ['A', 'N', 'D'], ['N', 'O', 'T'], ['I', 'F']], ¬ p.2 <:+: word := by
  unfold upperExpansions expansionsOfTable numbersOf
  repeat rw [flatMap_cons, String.toList_ofList]
  decide +kernel

theorem inCapitals_of_mem_keywords (h : word ∈ keywords) : InCapitals word.toList := by
  have hmem : word.toList ∈ [['T', 'R', 'U', 'E'], ['F', 'A', 'L', 'S', 'E'], ['A', 'N', 'D'],
      ['N', 'O', 'T'], ['I', 'F']] := by
    simp only [keywords, mem_cons, not_mem_nil, or_false] at h
    rcases h with rfl | rfl | rfl | rfl | rfl <;> simp
  refine ⟨?_, fun p hp => unexpanded_keywords p hp _ hmem⟩
  simp only [mem_cons, not_mem_nil, or_false] at hmem
  rcases hmem with h | h | h | h | h <;> simp [h]

theorem upperChars_of_spells_name (h : Spells (.name word) w)
    (hword : upper word ∈ keywords) : upperChars w = (upper word).toList := by
  obtain ⟨-, -, rfl⟩ := h
  have htwice : upperChars (upperChars w) = (upper (.ofList (upperChars w))).toList := by
    simp [upper]
  exact (inCapitals_of_mem_keywords hword).upperChars_eq htwice

def isSign (c : Char) : Bool := isGap c || ['"', '&', '(', ')', ',', '<', '>', '='].contains c

theorem isSign_plain (h : isSign c) :
    isWord c = false ∧ isDigit c = false ∧ c ≠ '-' ∧ c ≠ '\x7b' ∧ c ≠ '\x7d' := by
  simp only [isSign, isGap, Bool.or_eq_true, beq_iff_eq, contains_iff_mem, mem_cons,
    not_mem_nil, or_false] at h
  rcases h with (((rfl | rfl) | rfl) | rfl) | rfl | rfl | rfl | rfl | rfl | rfl | rfl | rfl <;>
    decide +kernel

theorem isSign_of_mem_symbol {op : Relation} (hop : ∀ s, op ≠ .other s) :
    ∀ c ∈ op.symbol.toList, isSign c := by
  cases op with
  | other s => exact absurd rfl (hop s)
  | _ => simp [Relation.symbol, isSign]

theorem isSign_of_mem_marks (h : (c, l) ∈ marks) : isSign c := by
  simp only [marks, mem_cons, not_mem_nil, or_false] at h
  rcases h with ⟨rfl, -⟩ | ⟨rfl, -⟩ | ⟨rfl, -⟩ | ⟨rfl, -⟩ <;> rfl

def IsAtom (l : Lexeme) : Prop :=
  (∃ n, l = .number n) ∨ (∃ name, l = .fieldRef name) ∨ ∃ word, l = .name word

/-- **The words of a text**: strings, marks, signs of comparisons, and words without structure. -/
theorem Item.Sound.cases {i : Item} (h : i.Sound) :
    (∃ s, i.lexeme = .string s ∧ i.word = '"' :: (s.toList ++ ['"']) ∧ '"' ∉ s.toList) ∨
    (∃ c, (c, i.lexeme) ∈ marks ∧ i.word = [c]) ∨
    (∃ op, i.lexeme = .relation op ∧ i.word = op.symbol.toList ∧ ∀ s, op ≠ .other s) ∨
    (IsAtom i.lexeme ∧ i.word ≠ [] ∧ ∀ c ∈ i.word, isSign c = false) := by
  have hspells := h.spells
  have hfit := h.fit
  have hplain : ∀ c, (isWord c ∨ isDigit c ∨ c = '-' ∨ c = '\x7b' ∨ c = '\x7d') →
      isSign c = false := by
    intro c hc
    rw [Bool.eq_false_iff]
    intro hsign
    have := isSign_plain hsign
    simp_all
  cases hl : i.lexeme with
  | string s =>
    rw [hl] at hspells hfit
    exact .inl ⟨s, rfl, hspells.1, hspells.2 hfit⟩
  | number n =>
    rw [hl] at hspells
    refine .inr (.inr (.inr ⟨.inl ⟨n, rfl⟩, hspells.1, fun c hc => hplain c ?_⟩))
    rcases hspells.2.1 c hc with h | h <;> simp [h]
  | fieldRef name =>
    rw [hl] at hspells hfit
    refine .inr (.inr (.inr ⟨.inr (.inl ⟨name, rfl⟩), ?_, fun c hc => hplain c ?_⟩))
    · rw [show i.word = reference name.toList from hspells]
      simp [reference]
    · rw [show i.word = reference name.toList from hspells, reference] at hc
      simp only [mem_append, mem_cons, not_mem_nil, or_false] at hc
      rcases hc with ((rfl | rfl) | hc) | rfl | rfl
      all_goals simp_all [Fit]
  | name word =>
    rw [hl] at hspells
    refine .inr (.inr (.inr ⟨.inr (.inr ⟨word, rfl⟩), hspells.1, fun c hc => hplain c ?_⟩))
    exact .inl (hspells.2.1 c hc)
  | relation op =>
    rw [hl] at hspells
    exact .inr (.inr (.inl ⟨op, rfl, hspells⟩))
  | lparen | rparen | comma | ampersand =>
    rw [hl] at hspells
    exact .inr (.inl ⟨_, by simp [marks], hspells⟩)
  | eof =>
    rw [hl] at hspells
    exact hspells.elim

/-- A word that is no string holds no quote and no white space, and a mark only if it is that
mark. -/
theorem Item.Sound.string_or_plain (h : i.Sound) :
    (∃ s, i.lexeme = .string s ∧ i.word = '"' :: (s.toList ++ ['"']) ∧ '"' ∉ s.toList) ∨
    ((∀ s, i.lexeme ≠ .string s) ∧ '"' ∉ i.word ∧ (∀ c ∈ i.word, isGap c = false) ∧
      ∀ c l, (c, l) ∈ marks → i.lexeme ≠ l → c ∉ i.word) := by
  rcases h.cases with hstring | ⟨d, hmark, hword⟩ | ⟨op, hl, hword, hother⟩ | ⟨hatom, -, hplain⟩
  · exact .inl hstring
  · rw [hword]
    simp only [marks, mem_cons, Prod.mk.injEq, not_mem_nil, or_false] at hmark ⊢
    refine .inr ⟨?_, ?_, ?_, ?_⟩
    · grind
    · grind
    · grind [isGap]
    · grind
  · have hsigns : ∀ c ∈ op.symbol.toList, c = '<' ∨ c = '=' ∨ c = '>' := by
      cases op with
      | other s => exact absurd rfl (hother s)
      | _ => simp [Relation.symbol]
    refine .inr ⟨by simp [hl], ?_, ?_, ?_⟩ <;> rw [hword]
    · exact fun hmem => absurd (hsigns _ hmem) (by decide)
    · intro c hc
      rcases hsigns c hc with rfl | rfl | rfl <;> rfl
    · grind [marks]
  · refine .inr ⟨?_, fun hmem => ?_, fun c hmem => ?_, fun c l hc _ hmem => ?_⟩
    · rintro s hl
      simp [IsAtom, hl] at hatom
    · exact absurd (hplain _ hmem) (by decide)
    · have := hplain c hmem
      simp_all [isSign]
    · exact absurd (hplain c hmem) (by simp [isSign_of_mem_marks hc])

def Inked (cs : List Char) : Prop :=
  ∃ c d, cs.head? = some c ∧ cs.getLast? = some d ∧ isBlank c = false ∧ isBlank d = false

theorem inked_of_forall (hne : cs ≠ []) (h : ∀ c ∈ cs, isBlank c = false) : Inked cs := by
  exact ⟨cs.head hne, cs.getLast hne, head?_eq_some_head hne, getLast?_eq_some_getLast hne,
    h _ (head_mem hne), h _ (getLast_mem hne)⟩

theorem Inked.append {ds es} (h : Inked cs) (h' : Inked es) : Inked (cs ++ (ds ++ es)) := by
  obtain ⟨c, -, hc, -, hcb, -⟩ := h
  obtain ⟨-, d, -, hd, -, hdb⟩ := h'
  exact ⟨c, d, by simp [hc], by simp [hd], hcb, hdb⟩

theorem isBlank_of_isGap (h : isGap c) : isBlank c := by
  simp only [isGap, Bool.or_eq_true, beq_iff_eq] at h
  rcases h with ((rfl | rfl) | rfl) | rfl <;> decide

theorem trimChars_of_inked (hlead : ∀ c ∈ lead, isGap c) (h : Inked cs)
    (htrail : ∀ c ∈ trail, isGap c) : trimChars (lead ++ (cs ++ trail)) = cs := by
  obtain ⟨c, d, hc, hd, hcb, hdb⟩ := h
  have hstart : (lead ++ (cs ++ trail)).dropWhile isBlank = cs ++ trail := by
    refine dropWhile_append_of_stop (fun c hc => isBlank_of_isGap (hlead c hc)) ?_
    simpa [hc] using hcb
  have hend : (trail.reverse ++ cs.reverse).dropWhile isBlank = cs.reverse := by
    refine dropWhile_append_of_stop (fun c hc => isBlank_of_isGap (htrail c (by simpa using hc))) ?_
    simpa [hd] using hdb
  rw [trimChars, trimBy, dropEnd, hstart, reverse_append, hend, reverse_reverse]

theorem Item.Sound.inked (h : i.Sound) : Inked i.word := by
  have hspells := h.spells
  have hfit := h.fit
  rcases h.cases with ⟨s, -, hword, -⟩ | ⟨c, hmark, hword⟩ | ⟨op, -, hword, hother⟩ |
    ⟨hatom, hne, -⟩
  · refine ⟨'"', '"', by simp [hword], ?_, by decide, by decide⟩
    rw [hword, ← cons_append, getLast?_concat]
  · rw [hword]
    refine inked_of_forall (by simp) ?_
    simp only [marks, mem_cons, Prod.mk.injEq, not_mem_nil, or_false] at hmark
    simp only [mem_singleton, forall_eq]
    rcases hmark with ⟨rfl, -⟩ | ⟨rfl, -⟩ | ⟨rfl, -⟩ | ⟨rfl, -⟩ <;> decide
  · rw [hword]
    cases op with
    | other s => exact absurd rfl (hother s)
    | _ => exact inked_of_forall (by simp [Relation.symbol]) (by simp [Relation.symbol]; decide)
  · rcases hatom with ⟨n, hl⟩ | ⟨name, hl⟩ | ⟨word, hl⟩ <;> rw [hl] at hspells hfit
    · refine inked_of_forall hne fun c hc => ?_
      rcases hspells.2.1 c hc with hdigit | rfl
      · exact isBlank_of_isDigit hdigit
      · decide
    · rw [show i.word = reference name.toList from hspells]
      refine ⟨'\x7b', '\x7d', by simp [reference], ?_, by decide, by decide⟩
      rw [reference, getLast?_append]
      rfl
    · exact inked_of_forall hne fun c hc => (inCapitals_of_mem_keywords hfit).isBlank_eq_false
        (upperChars_of_spells_name hspells hfit) hc

/-! ### Parentheses of calls -/

/-- Whether each opening parenthesis outside quotes stands directly behind a word character, with
no white space alone between it and a closing one. `last` is the character before the text. -/
def callsOnly (quoted : Bool) (last : Option Char) : List Char → Bool
  | [] => true
  | c :: rest =>
    (quoted || c != '(' || last.any isWord &&
      (rest.head? == some ')' || (rest.dropWhile isGap).head? != some ')')) &&
      callsOnly (quoted != (c == '"')) (some c) rest

theorem callsOnly_append {quoted last} (hquote : '"' ∉ cs) (hparen : quoted = true ∨ '(' ∉ cs) :
    callsOnly quoted last (cs ++ rest) = callsOnly quoted (cs.getLast?.or last) rest := by
  induction cs generalizing last with
  | nil => simp
  | cons c cs ih =>
    have hc : (c == '"') = false := by
      rw [beq_eq_false_iff_ne]
      exact fun h => hquote (h ▸ mem_cons_self)
    have hrest := @ih (some c) (not_mem_of_not_mem_cons hquote)
      (hparen.imp id not_mem_of_not_mem_cons)
    have hfirst : (quoted || c != '(') = true := by grind
    rw [cons_append, callsOnly, hfirst, hc, Bool.bne_false, hrest]
    cases cs with
    | nil => simp
    | cons d cs => simp [getLast?_cons]

theorem notMem_of_isGap (h : ∀ d ∈ cs, isGap d) (hc : isGap c = false) : c ∉ cs := by
  intro hmem
  rw [h c hmem] at hc
  cases hc

theorem Item.Written.notMem_gap (h : i.Written) (hc : isGap c = false) : c ∉ i.gap :=
  notMem_of_isGap h.blank hc

/-- What is known behind an item: the character before, and for an opening parenthesis what stands
on either side of it. -/
theorem Item.Sound.behind (h : i.Sound)
    (hcalls : callsOnly false last (i.word ++ (i.gap ++ rest))) :
    callsOnly false (i.word ++ i.gap).getLast? rest ∧ (i.lexeme = .lparen → last.any isWord ∧
      ((i.gap ++ rest).head? = some ')' ∨ ((i.gap ++ rest).dropWhile isGap).head? ≠ some ')')) := by
  have hgap : ∀ last, callsOnly false last (i.gap ++ rest) =
      callsOnly false (i.gap.getLast?.or last) rest := fun last =>
    callsOnly_append (h.notMem_gap (by decide)) (.inr (h.notMem_gap (by decide)))
  have hpass : '"' ∉ i.word → '(' ∉ i.word →
      callsOnly false (i.word ++ i.gap).getLast? rest := by
    intro hquote hparen
    obtain ⟨-, d, -, hd, -, -⟩ := h.inked
    rw [callsOnly_append hquote (.inr hparen), hgap, hd] at hcalls
    rwa [getLast?_append, hd]
  rcases h.string_or_plain with ⟨s, hl, hword, hquote⟩ | ⟨-, hquote, -, hmarks⟩
  · refine ⟨?_, fun hparen => by simp [hl] at hparen⟩
    rw [hword, cons_append, callsOnly, append_assoc] at hcalls
    simp only [Bool.and_eq_true] at hcalls
    have hinside := hcalls.2
    rw [show (false != ('"' == '"')) = true from rfl, callsOnly_append hquote (.inl rfl),
      singleton_append, callsOnly] at hinside
    simp only [beq_self_eq_true, bne_self_eq_false, hgap] at hinside
    rw [getLast?_append, hword, ← cons_append, getLast?_concat]
    exact hinside
  · by_cases hlparen : i.lexeme = .lparen
    · have hword : i.word = ['('] := h.spells_of hlparen
      rw [hword, singleton_append, callsOnly] at hcalls
      simp only [Bool.and_eq_true, Bool.or_eq_true, Bool.false_or, bne_self_eq_false,
        beq_iff_eq, bne_iff_ne] at hcalls
      refine ⟨?_, fun _ => hcalls.1⟩
      rw [getLast?_append, hword, ← hgap]
      exact hcalls.2
    · exact ⟨hpass hquote (hmarks '(' .lparen (by simp [marks]) hlparen),
        fun hparen => absurd hparen hlparen⟩

/-- Whether white space may stand between two items: none before an opening parenthesis, which
stands behind a name, and none alone between parentheses. -/
def Item.Meets (a b : Item) : Prop :=
  (b.lexeme = .lparen → a.gap = [] ∧ IsAtom a.lexeme) ∧
    (a.lexeme = .lparen → b.lexeme = .rparen → a.gap = [])

theorem Item.Sound.isAtom_of_isWord (h : i.Sound) (hlast : (i.word ++ i.gap).getLast? = some c)
    (hc : isWord c) : i.gap = [] ∧ IsAtom i.lexeme := by
  have hnosign : isSign c = false := by
    rw [Bool.eq_false_iff]
    intro hsign
    rw [(isSign_plain hsign).1] at hc
    cases hc
  have hgap : i.gap = [] := by
    by_contra hne
    rw [getLast?_append, getLast?_eq_some_getLast hne] at hlast
    have hblank := h.blank _ (getLast_mem hne)
    rw [Option.some.inj hlast] at hblank
    simp [isSign, hblank] at hnosign
  refine ⟨hgap, ?_⟩
  rw [hgap, append_nil] at hlast
  rcases h.cases with ⟨s, -, hword, -⟩ | ⟨d, hmark, hword⟩ | ⟨op, -, hword, hother⟩ |
    ⟨hatom, -, -⟩
  · rw [hword, ← cons_append, getLast?_concat] at hlast
    obtain rfl := Option.some.inj hlast
    exact absurd hnosign (by decide)
  · grind [isSign_of_mem_marks]
  · grind [isSign_of_mem_symbol]
  · exact hatom

/-- **The parentheses of a text** whose opening ones belong to calls. -/
theorem isChain_of_callsOnly (hs : ∀ i ∈ items, i.Sound)
    (h : callsOnly false last (render items)) : items.IsChain Item.Meets ∧
      ∀ i ∈ items.head?, i.lexeme = .lparen → last.any isWord := by
  induction items generalizing last with
  | nil => simp
  | cons i items ih =>
    obtain ⟨hi, hitems⟩ := forall_mem_cons.mp hs
    rw [render_cons] at h
    obtain ⟨hrest, hopen⟩ := hi.behind h
    obtain ⟨hchain, hhead⟩ := ih hitems hrest
    refine ⟨?_, ?_⟩
    · rw [isChain_cons]
      refine ⟨fun j hj => ⟨fun hl => ?_, fun hl hr => ?_⟩, hchain⟩
      · obtain ⟨c, hc, hword⟩ := (Option.any_eq_true _ _).mp (hhead j hj hl)
        exact hi.isAtom_of_isWord hc hword
      · -- a closing parenthesis follows, so nothing may stand in between
        have hclose : (i.gap ++ render items).dropWhile isGap = render items ∧
            (render items).head? = some ')' := by
          obtain ⟨items', rfl⟩ := head?_eq_some_iff.mp hj
          have hword : j.word = [')'] := (hitems j mem_cons_self).spells_of hr
          rw [render_cons, hword]
          exact ⟨dropWhile_append_of_stop hi.blank (by simp [isGap]), rfl⟩
        rcases (hopen hl).2 with hhere | hlater
        · by_contra hne
          obtain ⟨g, gap, hgap⟩ := exists_cons_of_ne_nil hne
          rw [hgap, cons_append, head?_cons, Option.some.injEq] at hhere
          have hblank := hi.blank g (by simp [hgap])
          rw [hhere] at hblank
          cases hblank
        · rw [hclose.1, hclose.2] at hlater
          exact absurd rfl hlater
    · rintro j ⟨⟩ hl
      exact (hopen hl).1

/-- A row of words that texts are made of: what is between them is as it may be, and no opening
parenthesis starts it. -/
structure Row (items : List Item) : Prop where
  sound : ∀ i ∈ items, i.Sound
  meets : items.IsChain Item.Meets
  starts : ∀ i ∈ items.head?, i.lexeme ≠ .lparen

def Lays (cs : List Char) (ts : List Token) : Prop :=
  ∃ (lead : List Char) (items : List Item), (∀ c ∈ lead, isGap c) ∧ Row items ∧
    items.map Item.token = ts ∧ cs = lead ++ render items

/-! ### White space made anew -/

def regap (f : Item → Option Item → List Char) : List Item → List Item
  | [] => []
  | i :: items => { i with gap := f i items.head? } :: regap f items

section

variable {f : Item → Option Item → List Char} {items : List Item}

@[simp] theorem regap_nil : regap f [] = [] := rfl

@[simp] theorem regap_cons (i) :
    regap f (i :: items) = { i with gap := f i items.head? } :: regap f items := rfl

theorem map_token_regap : (regap f items).map Item.token = items.map Item.token := by
  induction items with
  | nil => rfl
  | cons i items ih => rw [regap_cons, map_cons, map_cons, ih]

theorem head?_regap :
    (regap f items).head? = items.head?.map fun i => { i with gap := f i items.tail.head? } := by
  cases items <;> rfl

theorem isChain_regap (h : items.IsChain R) (hS : ∀ a b gap, a ∈ items → b ∈ items → R a b →
      S { a with gap := f a (some b) } { b with gap := gap }) : (regap f items).IsChain S := by
  induction items with
  | nil => exact .nil
  | cons a items ih =>
    rw [isChain_cons] at h
    rw [regap_cons, isChain_cons]
    refine ⟨fun b hb => ?_, ih h.2 fun a' b' gap ha' hb' => hS a' b' gap ?_ ?_⟩
    · rw [head?_regap] at hb
      cases items with
      | nil => cases hb
      | cons b' items => grind
    · exact mem_cons_of_mem a ha'
    · exact mem_cons_of_mem a hb'

theorem sound_regap (h : ∀ i ∈ items, i.Sound)
    (hf : ∀ i ∈ items, ∀ next, ∀ c ∈ f i next, isGap c) : ∀ i ∈ regap f items, i.Sound := by
  induction items with
  | nil => exact nofun
  | cons a items ih =>
    obtain ⟨ha, hitems⟩ := forall_mem_cons.mp h
    obtain ⟨hfa, hfitems⟩ := forall_mem_cons.mp hf
    refine forall_mem_cons.mpr ⟨⟨⟨ha.spells, hfa _⟩, ha.fit⟩, ih hitems hfitems⟩

/-- New white space keeps a row one, as long as there is none where there was none around a
parenthesis. -/
theorem Row.regapped (h : Row items) (hf : ∀ i ∈ items, ∀ next, ∀ c ∈ f i next, isGap c)
    (hnone : ∀ a ∈ items, ∀ b ∈ items, a.gap = [] → a.lexeme ≠ .ampersand →
      b.lexeme ≠ .ampersand → f a (some b) = []) : Row (regap f items) where
  sound := sound_regap h.sound hf
  meets := by
    refine isChain_regap h.meets fun a b gap ha hb hmeets => ⟨fun hl => ?_, fun hl hr => ?_⟩
    · obtain ⟨hgap, hatom⟩ := hmeets.1 hl
      refine ⟨hnone a ha b hb hgap ?_ fun hamp => absurd (hl.symm.trans hamp) (by simp), hatom⟩
      rintro hamp
      simp [IsAtom, hamp] at hatom
    · exact hnone a ha b hb (hmeets.2 hl hr) (fun hamp => absurd (hl.symm.trans hamp) (by simp))
        fun hamp => absurd (hr.symm.trans hamp) (by simp)
  starts := by
    intro i hi
    rw [head?_regap] at hi
    obtain ⟨j, hj, rfl⟩ := map_eq_some_iff.mp hi
    exact h.starts j hj

end

theorem render_regap_last (hf : ∀ i j, f i (some j) = i.gap) (hne : items ≠ [])
    (hlast : ∀ i ∈ items.getLast?, i.gap = f i none ++ trail) :
    render items = render (regap f items) ++ trail := by
  induction items with
  | nil => exact absurd rfl hne
  | cons i items ih =>
    cases items with
    | nil => simp [hlast i rfl]
    | cons j items => simp_all

def clipGap (i : Item) (next : Option Item) : List Char := if next.isNone then [] else i.gap

theorem inked_render_clip (hne : items ≠ []) (h : ∀ i ∈ items, i.Sound) :
    Inked (render (regap clipGap items)) := by
  induction items with
  | nil => exact absurd rfl hne
  | cons i items ih =>
    obtain ⟨hi, hitems⟩ := forall_mem_cons.mp h
    cases items with
    | nil => simpa [clipGap] using hi.inked
    | cons j items =>
      rw [regap_cons, render_cons]
      exact hi.inked.append (ih (by simp) hitems)

/-! ### Spaced ampersands -/

section

variable {quoted skipping : Bool} {last : Option Char} {cs rest : List Char}

theorem spaceAmpersandsGo_append (hquote : '"' ∉ cs) (hamp : quoted = true ∨ '&' ∉ cs) :
    spaceAmpersandsGo quoted false last (cs ++ rest) =
      cs ++ spaceAmpersandsGo quoted false (cs.getLast?.or last) rest := by
  induction cs generalizing last with
  | nil => simp
  | cons c cs ih =>
    have hc : (c == '"') = false := by
      rw [beq_eq_false_iff_ne]
      exact fun h => hquote (h ▸ mem_cons_self)
    have hnoamp : (c == '&' && !quoted) = false := by grind
    have hrest := @ih (some c) (not_mem_of_not_mem_cons hquote)
      (hamp.imp id not_mem_of_not_mem_cons)
    simp only [cons_append, spaceAmpersandsGo, hc, hnoamp, hrest]
    cases cs with
    | nil => simp
    | cons d cs => simp [getLast?_cons]

theorem spaceAmpersandsGo_skipping (h : cs.head? ≠ some ' ') :
    spaceAmpersandsGo quoted skipping last cs = spaceAmpersandsGo quoted false last cs := by
  cases cs with
  | nil => rfl
  | cons c cs =>
    have hc : c ≠ ' ' := fun hc => h (by rw [hc]; rfl)
    simp [spaceAmpersandsGo, hc]

theorem spaceAmpersandsGo_ampersand (hx : x ≠ ' ') :
    spaceAmpersandsGo false false (some x) ('&' :: rest) =
      ' ' :: spaceAmpersandsGo false false (some ' ') ('&' :: rest) := by
  simp [spaceAmpersandsGo, hx]

theorem spaceAmpersandsGo_gap (hgap : ∀ c ∈ gap, isGap c) (hrest : rest.head? ≠ some ' ') :
    spaceAmpersandsGo false true (some ' ') (gap ++ rest) =
      gap.dropWhile (· == ' ') ++ spaceAmpersandsGo false false
        ((gap.dropWhile (· == ' ')).getLast?.or (some ' ')) rest := by
  induction gap with
  | nil => simpa using spaceAmpersandsGo_skipping hrest
  | cons c gap ih =>
    by_cases hblank : c = ' '
    · simp_all [cons_append, spaceAmpersandsGo]
    · rw [spaceAmpersandsGo_skipping (by simpa using hblank),
        spaceAmpersandsGo_append (notMem_of_isGap hgap rfl) (.inr (notMem_of_isGap hgap rfl))]
      simp [hblank]

end

def ampersandGap (i : Item) : List Char :=
  if i.lexeme = .ampersand then ' ' :: i.gap.dropWhile (· == ' ') else i.gap

def spaceGap (i : Item) (next : Option Item) : List Char :=
  if (∃ j ∈ next, j.lexeme = .ampersand) ∧ (ampersandGap i).getLast? ≠ some ' ' then
    ampersandGap i ++ [' ']
  else ampersandGap i

theorem Item.Sound.spaced (h : i.Sound)
    (hlast : i.lexeme = .ampersand → last = some ' ') (hrest : rest.head? ≠ some ' ') :
    spaceAmpersandsGo false skipping last (i.word ++ (i.gap ++ rest)) = i.word ++ (ampersandGap i ++
        spaceAmpersandsGo false false (i.word ++ ampersandGap i).getLast? rest) := by
  have hgap : ∀ last, spaceAmpersandsGo false false last (i.gap ++ rest) =
      i.gap ++ spaceAmpersandsGo false false (i.gap.getLast?.or last) rest := fun last =>
    spaceAmpersandsGo_append (h.notMem_gap (by decide)) (.inr (h.notMem_gap (by decide)))
  obtain ⟨c, d, hhead, hd, hc, -⟩ := h.inked
  have hstart : (i.word ++ (i.gap ++ rest)).head? ≠ some ' ' := by
    rw [head?_append, hhead]
    rintro ⟨⟩
    cases hc
  rw [spaceAmpersandsGo_skipping hstart]
  have hpass : '"' ∉ i.word → '&' ∉ i.word → i.lexeme ≠ .ampersand →
      spaceAmpersandsGo false false last (i.word ++ (i.gap ++ rest)) = i.word ++ (ampersandGap i ++
        spaceAmpersandsGo false false (i.word ++ ampersandGap i).getLast? rest) := by
    intro hquote hamp hl
    rw [ampersandGap, if_neg hl, spaceAmpersandsGo_append hquote (.inr hamp), hgap,
      getLast?_append, hd]
    rfl
  rcases h.string_or_plain with ⟨s, hl, hword, hquote⟩ | ⟨-, hquote, -, hmarks⟩
  · grind [ampersandGap, getLast?_append, append_assoc, spaceAmpersandsGo,
      Bool.not_false, spaceAmpersandsGo_append, singleton_append, Bool.not_true]
  · by_cases hl : i.lexeme = .ampersand
    · have hword : i.word = ['&'] := h.spells_of hl
      rw [ampersandGap, if_pos hl, hword, hlast hl]
      simp only [singleton_append, spaceAmpersandsGo, spaceAmpersandsGo_gap h.blank hrest]
      simp [getLast?_cons]
    · exact hpass hquote (hmarks '&' .ampersand (by simp [marks]) hl) hl

theorem head?_render (h : ∀ i ∈ items, i.Sound) :
    ∀ c ∈ (render items).head?, isBlank c = false := by
  cases items with
  | nil => exact nofun
  | cons i items =>
    obtain ⟨c, -, hc, -, hblank, -⟩ := (h i mem_cons_self).inked
    rw [render_cons, head?_append, hc]
    rintro c ⟨⟩
    exact hblank

theorem spaceAmpersandsGo_render (h : ∀ i ∈ items, i.Sound) {skipping last}
    (hlast : ∀ i ∈ items.head?, i.lexeme = .ampersand → last = some ' ') :
    spaceAmpersandsGo false skipping last (render items) = render (regap spaceGap items) := by
  induction items generalizing skipping last with
  | nil => rfl
  | cons i items ih =>
    obtain ⟨hi, hitems⟩ := forall_mem_cons.mp h
    have hrest : (render items).head? ≠ some ' ' := by
      intro hblank
      cases head?_render hitems _ hblank
    rw [render_cons, hi.spaced (hlast i rfl) hrest, regap_cons, render_cons, spaceGap]
    split
    · next hadd =>
      -- the next item is an ampersand, and what is before it is no blank
      obtain ⟨⟨j, hj, hamp⟩, hne⟩ := hadd
      obtain ⟨items', rfl⟩ := head?_eq_some_iff.mp hj
      have hword : j.word = ['&'] := (hitems j mem_cons_self).spells_of hamp
      have hx : ∃ x, (i.word ++ ampersandGap i).getLast? = some x ∧ x ≠ ' ' := by
        obtain ⟨-, d, -, hd, -, hdb⟩ := hi.inked
        rw [getLast?_append, hd]
        cases hgap : (ampersandGap i).getLast? with
        | none => exact ⟨d, rfl, by rintro rfl; cases hdb⟩
        | some x => exact ⟨x, rfl, by rintro rfl; exact hne hgap⟩
      obtain ⟨x, hx, hxb⟩ := hx
      have hnext := @ih hitems false (some ' ') fun _ _ _ => rfl
      rw [hx]
      rw [render_cons, hword, singleton_append] at hnext ⊢
      rw [spaceAmpersandsGo_ampersand hxb, hnext]
      simp
    · next hadd =>
      rw [ih hitems]
      intro j hj hamp
      have hblank : (ampersandGap i).getLast? = some ' ' := by
        by_contra hne
        exact hadd ⟨⟨j, hj, hamp⟩, hne⟩
      rw [getLast?_append, hblank]
      rfl

def Item.Spaced (a b : Item) : Prop :=
  (b.lexeme = .ampersand → a.gap.getLast? = some ' ') ∧
    (a.lexeme = .ampersand → a.gap.head? = some ' ')

structure SpacedRow (items : List Item) : Prop extends Row items where
  spaced : items.IsChain Item.Spaced

/-- A row of words as it is cut up: it is spaced, and there is no white space at the end. -/
structure Neat (items : List Item) : Prop extends SpacedRow items where
  ends : ∀ i ∈ items.getLast?, i.lexeme ≠ .ampersand → i.gap = []

theorem isGap_of_mem_ampersandGap (h : i.Written) : ∀ c ∈ ampersandGap i, isGap c := by
  unfold ampersandGap
  split
  · refine forall_mem_cons.mpr ⟨rfl, fun c hc => h.blank c ?_⟩
    exact (dropWhile_sublist _).subset hc
  · exact h.blank

theorem isGap_of_mem_spaceGap (h : i.Written) {next} : ∀ c ∈ spaceGap i next, isGap c := by
  have hgap := isGap_of_mem_ampersandGap h
  unfold spaceGap
  split
  · intro c hc
    rcases mem_append.mp hc with hc | hc
    · exact hgap c hc
    · rw [mem_singleton.mp hc]
      rfl
  · exact hgap

theorem Row.clip (h : Row items) : Row (regap clipGap items) := by
  refine h.regapped (fun i hi next c hc => ?_) (fun a _ b _ hgap _ _ => hgap)
  unfold clipGap at hc
  split at hc
  · cases hc
  · exact (h.sound i hi).blank c hc

theorem Row.space (h : Row items) : Row (regap spaceGap items) := by
  refine h.regapped (fun i hi next => isGap_of_mem_spaceGap (h.sound i hi).toWritten) ?_
  intro a _ b _ hgap ha hb
  simp [spaceGap, ampersandGap, ha, hb, hgap]

theorem getLast?_regap :
    (regap f items).getLast? = items.getLast?.map fun i => { i with gap := f i none } := by
  induction items with
  | nil => rfl
  | cons i items ih => grind [regap_cons, getLast?_cons_cons]

/-- **What is cut up**: the text without its outer white space and with spaced ampersands is a neat
row of words for the same tokens. -/
theorem Lays.prepared (h : Lays cs ts) (hamp : ∀ t ∈ ts.head?, t.lexeme ≠ .ampersand) : ts ≠ [] →
    ∃ items, Neat items ∧ items.map Item.token = ts ∧
      spaceAmpersands (trimChars cs) = render items := by
  obtain ⟨lead, items, hlead, hrow, rfl, rfl⟩ := h
  intro hne
  have hne : items ≠ [] := by simpa using hne
  obtain ⟨last, hlast⟩ : ∃ last, items.getLast? = some last :=
    ⟨_, getLast?_eq_some_getLast hne⟩
  have htrail := (hrow.sound last (mem_of_getLast? hlast)).blank
  have hrender : render items = render (regap clipGap items) ++ last.gap := by
    refine render_regap_last (fun _ _ => rfl) hne fun i hi => ?_
    obtain rfl : last = i := by simpa [hlast] using hi
    rfl
  have hclip := hrow.clip
  refine ⟨regap spaceGap (regap clipGap items), ⟨⟨hclip.space, ?_⟩, ?_⟩, ?_, ?_⟩
  · refine isChain_regap hclip.meets fun a b gap _ _ _ => ⟨fun hb => ?_, fun ha => ?_⟩
    · have hb : b.lexeme = .ampersand := hb
      show (spaceGap a (some b)).getLast? = some ' '
      by_cases hblank : (ampersandGap a).getLast? = some ' '
      · simp [spaceGap, hblank]
      · simp [spaceGap, hblank, hb]
    · have hgap : ampersandGap a = ' ' :: a.gap.dropWhile (· == ' ') := if_pos ha
      show (spaceGap a (some b)).head? = some ' '
      unfold spaceGap
      rw [hgap]
      split <;> rfl
  · grind [getLast?_regap, spaceGap, ampersandGap, clipGap, Item.lexeme]
  · rw [map_token_regap, map_token_regap]
  · rw [hrender, trimChars_of_inked hlead (inked_render_clip hne hrow.sound) htrail,
      spaceAmpersands, spaceAmpersandsGo_render hclip.sound]
    intro i hi hl
    rw [head?_regap] at hi
    obtain ⟨j, hj, rfl⟩ := map_eq_some_iff.mp hi
    exact absurd hl (hamp j.token (by simp [head?_map, hj]))

theorem Lays.of_cons (h : Lays (' ' :: cs) ts) : Lays cs ts := by
  obtain ⟨lead, items, hlead, hrow, hts, hcs⟩ := h
  cases lead with
  | nil =>
    have hhead := head?_render hrow.sound ' '
    rw [nil_append] at hcs
    rw [← hcs] at hhead
    cases hhead rfl
  | cons c lead =>
    obtain ⟨rfl, rfl⟩ := List.cons.inj hcs
    exact ⟨lead, items, fun d hd => hlead d (mem_cons_of_mem _ hd), hrow, hts, rfl⟩

theorem Lays.of_concat (h : Lays (cs ++ [' ']) ts) (hne : ts ≠ []) : Lays cs ts := by
  obtain ⟨lead, items, hlead, hrow, rfl, hcs⟩ := h
  have hne : items ≠ [] := by simpa using hne
  -- the last item has white space behind it, of which the last character goes
  have hlast : ∀ i ∈ items.getLast?, i.gap = i.gap.dropLast ++ [' '] := by
    intro i hi
    obtain ⟨items', rfl⟩ := getLast?_eq_some_iff.mp hi
    have hend := congrArg getLast? hcs
    obtain ⟨-, d, -, hd, -, hdb⟩ := (hrow.sound i (by simp)).inked
    rw [getLast?_concat, render_append, render_cons, render_nil, append_nil,
      ← append_assoc, getLast?_append, getLast?_append, hd] at hend
    cases hgap : i.gap.getLast? with
    | none =>
      simp only [hgap, none_or, some_or, Option.some.injEq] at hend
      subst hend
      cases hdb
    | some x =>
      simp only [hgap, some_or, Option.some.injEq] at hend
      subst hend
      obtain ⟨gap, hgap⟩ := getLast?_eq_some_iff.mp hgap
      simp [hgap]
  let f (i : Item) (next : Option Item) : List Char :=
    if next.isNone then i.gap.dropLast else i.gap
  have hrender : render items = render (regap f items) ++ [' '] :=
    render_regap_last (fun _ _ => rfl) hne fun i hi => hlast i hi
  refine ⟨lead, regap f items, hlead, hrow.regapped ?_ ?_, map_token_regap, ?_⟩
  · intro i hi next c hc
    refine (hrow.sound i hi).blank c ?_
    simp only [f] at hc
    split at hc
    · exact mem_of_mem_dropLast hc
    · exact hc
  · exact fun a _ b _ hgap _ _ => hgap
  · rw [hrender, ← append_assoc] at hcs
    exact (append_inj' hcs rfl).1

end Rulebook.Sheet
