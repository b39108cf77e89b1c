/-
Cutting formula text at its tokens.

Formula text is cut by counting quotes and parentheses. On a row of words the cuts fall where the
tokens are separated.
-/

import Rulebook.Proofs.Sheet.Layout

namespace Rulebook.Sheet

open List Formula
open Text

variable {op cs sign l r : List Char} {sep : Lexeme} {ts : List Token} {gs : List (List Token)}
  {P : Lexeme → Prop} {c : Char}

/-! ### Passing over pieces -/

/-- Cutting passes over a piece in front of `rest`: it takes the piece into the current part. -/
def Passes (op : List Char) (depth : Int) (cs rest : List Char) : Prop :=
  ∀ part, splitGo op 0 false depth part (cs ++ rest) =
    splitGo op 0 false depth (cs.reverse ++ part) rest

section

variable {op cs ds rest : List Char} {depth : Int}

theorem passes_nil : Passes op depth [] rest := fun _ => rfl

theorem Passes.append (h : Passes op depth cs (ds ++ rest)) (h' : Passes op depth ds rest) :
    Passes op depth (cs ++ ds) rest := by
  intro part
  rw [append_assoc, h, h', reverse_append, append_assoc]

theorem passes_char (hquote : c ≠ '"') (hopen : c ≠ '(') (hclose : c ≠ ')')
    (hop : depth = 0 → op.isPrefixOf (c :: rest) = false) : Passes op depth [c] rest := by
  intro part
  have hnocut : (depth == 0 && op.isPrefixOf (c :: rest)) = false := by grind
  simp [splitGo, hquote, hopen, hclose, hnocut]

theorem splitGo_quoted (h : '"' ∉ cs) : splitGo op 0 true depth part (cs ++ rest) =
      splitGo op 0 true depth (cs.reverse ++ part) rest := by
  induction cs generalizing part with
  | nil => rfl
  | cons c cs ih => grind [splitGo, beq_eq_false_iff_ne.mpr]

theorem passes_string (h : '"' ∉ cs) : Passes op depth ('"' :: (cs ++ ['"'])) rest := by
  intro part
  rw [cons_append, append_assoc]
  simp only [splitGo, Bool.not_false]
  rw [splitGo_quoted h]
  simp [splitGo]

theorem passes_parens (h : Passes op (depth + 1) cs (')' :: rest)) :
    Passes op depth ('(' :: (cs ++ [')'])) rest := by
  intro part
  rw [cons_append, append_assoc, singleton_append]
  have hopen : splitGo op 0 false depth part ('(' :: (cs ++ ')' :: rest)) =
      splitGo op 0 false (depth + 1) ('(' :: part) (cs ++ ')' :: rest) := by
    simp [splitGo]
  rw [hopen, h]
  simp [splitGo]

theorem passes_of_forall (h : ∀ c ∈ cs, c ≠ '"' ∧ c ≠ '(' ∧ c ≠ ')')
    (hop : depth = 0 → ∀ c ∈ cs, op.head? ≠ some c) (hne : op ≠ []) : Passes op depth cs rest := by
  induction cs with
  | nil => exact passes_nil
  | cons c cs ih =>
    obtain ⟨hc, hcs⟩ := forall_mem_cons.mp h
    refine Passes.append (passes_char hc.1 hc.2.1 hc.2.2 fun hdepth => ?_)
      (ih hcs fun hdepth d hd => hop hdepth d (mem_cons_of_mem c hd))
    obtain ⟨o, os, rfl⟩ := exists_cons_of_ne_nil hne
    have hne : o ≠ c := fun heq => hop hdepth c mem_cons_self (by rw [heq]; rfl)
    simp [isPrefixOf, hne]

end

/-! ### Separators -/

/-- A sign at which texts are cut, with the lexeme it is in a row of words. -/
inductive IsSeparator : List Char → Lexeme → Prop where
  | comma : IsSeparator [','] .comma
  | ampersand : IsSeparator [' ', '&', ' '] .ampersand

def Clear (op rest : List Char) : Prop := ∀ c, isGap c → op.isPrefixOf (c :: rest) = false

section

variable {rest : List Char} {depth : Int} {P : Lexeme → Prop} {ts : List Token} {items : List Item}

variable {op : List Char} {sep : Lexeme} (hsep : IsSeparator op sep)
include hsep

theorem IsSeparator.ne_nil : op ≠ [] := by
  cases hsep <;> simp

theorem IsSeparator.clear_cons (hc : c ≠ '&') : Clear op (c :: rest) := by
  intro g hg
  cases hsep with
  | comma =>
    have hne : g ≠ ',' := by rintro rfl; cases hg
    simp [isPrefixOf, Ne.symm hne]
  | ampersand => simp [isPrefixOf, Ne.symm hc]

theorem IsSeparator.clear_nil : Clear op [] := by
  intro g hg
  cases hsep with
  | comma =>
    have hne : g ≠ ',' := by rintro rfl; cases hg
    simp [isPrefixOf, Ne.symm hne]
  | ampersand => simp [isPrefixOf]

theorem IsSeparator.clear_word {i : Item} (hi : i.Sound) (hl : i.lexeme ≠ sep) :
    Clear op (i.word ++ rest) := by
  obtain ⟨c, -, hc, -, -, -⟩ := hi.inked
  obtain ⟨w, hw⟩ := head?_eq_some_iff.mp hc
  cases hsep with
  | comma =>
    intro g hg
    have hne : g ≠ ',' := by rintro rfl; cases hg
    simp [isPrefixOf, Ne.symm hne]
  | ampersand =>
    rw [hw]
    refine IsSeparator.ampersand.clear_cons ?_
    rintro rfl
    rcases hi.string_or_plain with ⟨s, -, hword, -⟩ | ⟨-, -, -, hmarks⟩
    · rw [hword] at hw
      cases hw
    · exact hmarks '&' .ampersand (by simp [marks]) hl (by simp [hw])

theorem IsSeparator.passes_gap (hgap : ∀ c ∈ gap, isGap c)
    (hrest : depth = 0 → Clear op rest) : Passes op depth gap rest := by
  induction gap with
  | nil => exact passes_nil
  | cons g gap ih =>
    obtain ⟨hg, hgaps⟩ := forall_mem_cons.mp hgap
    refine Passes.append (passes_char ?_ ?_ ?_ fun hdepth => ?_) (ih hgaps)
    · rintro rfl; cases hg
    · rintro rfl; cases hg
    · rintro rfl; cases hg
    · cases gap with
      | nil => exact hrest hdepth g hg
      | cons g' gap =>
        refine hsep.clear_cons ?_ g hg
        rintro rfl
        cases hgaps '&' (.head _)

theorem IsSeparator.passes_word {i : Item} (hi : i.Sound) (hl : i.lexeme ≠ .lparen)
    (hr : i.lexeme ≠ .rparen) (hother : depth = 0 → i.lexeme ≠ sep) :
    Passes op depth i.word rest := by
  rcases hi.string_or_plain with ⟨s, -, hword, hquote⟩ | ⟨-, hquote, hgap, hmarks⟩
  · rw [hword]
    exact passes_string hquote
  · refine passes_of_forall (fun c hc => ⟨?_, ?_, ?_⟩) (fun hdepth c hc => ?_) hsep.ne_nil
    · rintro rfl; exact hquote hc
    · rintro rfl; exact hmarks '(' .lparen (by simp [marks]) hl hc
    · rintro rfl; exact hmarks ')' .rparen (by simp [marks]) hr hc
    · cases hsep with
      | comma => grind [marks]
      | ampersand =>
        rintro ⟨⟩
        cases hgap ' ' hc

theorem IsSeparator.ne_lparen : Lexeme.lparen ≠ sep := by
  cases hsep <;> simp

theorem IsSeparator.clear_render (h : Level P ts) (hs : ∀ i ∈ items, i.Sound)
    (hts : items.map Item.token = ts) (hP : ∀ l, P l → l ≠ sep) (hrest : Clear op rest) :
    Clear op (render items ++ rest) := by
  cases items with
  | nil => exact hrest
  | cons i items =>
    rw [render_cons, append_assoc]
    refine hsep.clear_word (hs i (.head _)) ?_
    cases h with
    | nil => cases hts
    | cons hp _ _ _ =>
      obtain ⟨rfl, -⟩ := List.cons.inj hts
      exact hP _ hp
    | parens hl _ _ _ =>
      obtain ⟨rfl, -⟩ := List.cons.inj hts
      exact fun heq => hsep.ne_lparen (hl.symm.trans heq)

/-- **Passing over a row of words** whose parentheses match, where outside them there is no
separator. -/
theorem IsSeparator.passes_render (h : Level P ts) (hs : ∀ i ∈ items, i.Sound)
    (hts : items.map Item.token = ts) (hdepth : 0 ≤ depth) (hP : depth = 0 → ∀ l, P l → l ≠ sep)
    (hrest : depth = 0 → Clear op rest) : Passes op depth (render items) rest := by
  induction h generalizing items depth rest with
  | nil =>
    obtain rfl := map_eq_nil_iff.mp hts
    exact passes_nil
  | cons hp hl hr hlevel ih =>
    obtain ⟨i, items, rfl, rfl, hitems⟩ := map_eq_cons_iff.mp hts
    obtain ⟨hi, hs⟩ := forall_mem_cons.mp hs
    rw [render_cons]
    refine Passes.append (hsep.passes_word hi hl hr fun hzero => hP hzero _ hp)
      (Passes.append (hsep.passes_gap hi.blank fun hzero => ?_) (ih hs hitems hdepth hP hrest))
    exact hsep.clear_render hlevel hs hitems (hP hzero) (hrest hzero)
  | @parens P l r us ts hl hus hr hlevel ihus ih =>
    obtain ⟨i, items, rfl, rfl, hitems⟩ := map_eq_cons_iff.mp hts
    obtain ⟨xs, items, rfl, hxs, hitems⟩ := map_eq_append_iff.mp hitems
    obtain ⟨j, ys, rfl, rfl, hys⟩ := map_eq_cons_iff.mp hitems
    simp only [forall_mem_cons, forall_mem_append] at hs
    obtain ⟨hi, hxs', hj, hys'⟩ := hs
    have hopen : i.word = ['('] := hi.spells_of hl
    have hclose : j.word = [')'] := hj.spells_of hr
    have hinside : Passes op (depth + 1) (i.gap ++ render xs)
        (')' :: (j.gap ++ render ys ++ rest)) := by
      refine Passes.append (hsep.passes_gap hi.blank (by omega)) ?_
      exact ihus hxs' hxs (by omega) (by omega) (by omega)
    have hparens := passes_parens hinside
    -- and behind the parentheses as before
    have hbehind : Passes op depth (j.gap ++ render ys) rest := by
      refine Passes.append (hsep.passes_gap hj.blank fun hzero => ?_) (ih hys' hys hdepth hP hrest)
      exact hsep.clear_render hlevel hys' hys (hP hzero) (hrest hzero)
    have htext : render (i :: (xs ++ j :: ys)) =
        '(' :: (i.gap ++ render xs ++ [')']) ++ (j.gap ++ render ys) := by
      simp [hopen, hclose]
    rw [htext]
    exact Passes.append hparens hbehind

/-! ### Cutting -/

variable {P : Lexeme → Prop} (hP : ∀ l, P l → l ≠ sep)
include hP

theorem IsSeparator.passes (h : Lays cs ts) (hlevel : Level P ts)
    (hrest : Clear op rest) : Passes op 0 cs rest := by
  obtain ⟨lead, items, hlead, hrow, hts, rfl⟩ := h
  refine Passes.append (hsep.passes_gap hlead fun _ => ?_) ?_
  · exact hsep.clear_render hlevel hrow.sound hts hP hrest
  · exact hsep.passes_render hlevel hrow.sound hts le_rfl (fun _ => hP) fun _ => hrest

theorem IsSeparator.splitTop_eq_singleton (h : Lays cs ts) (hlevel : Level P ts)
    (hne : cs ≠ []) : splitTop op cs = [cs] := by
  have hpass := hsep.passes hP h hlevel hsep.clear_nil []
  rw [append_nil] at hpass
  rw [splitTop, hpass, splitGo]
  simp [hne]

end

theorem IsSeparator.splitTop_eq_cons (hsep : IsSeparator op sep) (h : Passes op 0 cs (op ++ rest)) :
    splitTop op (cs ++ (op ++ rest)) = cs :: splitTop op rest := by
  have hpass := h []
  rw [splitTop, splitTop, hpass]
  cases hsep with
  | comma => simp [splitGo]
  | ampersand =>
    simp [splitGo]

/-! ### Cutting at all separators -/

theorem Row.split (h : Row (xs ++ a :: ys)) (ha : ¬ IsAtom a.lexeme) : Row xs ∧ Row ys := by
  have hsound := h.sound
  simp only [forall_mem_append, forall_mem_cons] at hsound
  have hbehind := isChain_cons.mp h.meets.right_of_append
  refine ⟨⟨hsound.1, h.meets.left_of_append, fun i hi => ?_⟩,
    ⟨hsound.2.2, hbehind.2, fun i hi hl => ha ((hbehind.1 i hi).1 hl).2⟩⟩
  refine h.starts i ?_
  cases xs with
  | nil => cases hi
  | cons x xs => exact hi

theorem SpacedRow.split (h : SpacedRow (xs ++ a :: ys))
    (ha : ¬ IsAtom a.lexeme) : SpacedRow xs ∧ SpacedRow ys := by
  obtain ⟨hxs, hys⟩ := h.toRow.split ha
  exact ⟨⟨hxs, h.spaced.left_of_append⟩, ⟨hys, h.spaced.right_of_append.tail⟩⟩

def Spreads (cs : List Char) (ts : List Token) : Prop :=
  ∃ (lead : List Char) (items : List Item), (∀ c ∈ lead, isGap c) ∧ SpacedRow items ∧
    items.map Item.token = ts ∧ cs = lead ++ render items

theorem Spreads.lays (h : Spreads cs ts) : Lays cs ts := by
  obtain ⟨lead, items, hlead, hrow, hts, hcs⟩ := h
  exact ⟨lead, items, hlead, hrow.toRow, hts, hcs⟩

theorem IsSeparator.not_isAtom (hsep : IsSeparator op sep) : ¬ IsAtom sep := by
  cases hsep <;> simp [IsAtom]

theorem Lays.ne_nil (h : Lays cs ts) (hts : ts ≠ []) : cs ≠ [] := by
  rintro rfl
  obtain ⟨lead, items, -, hrow, rfl, hnil⟩ := h
  obtain ⟨i, items, rfl⟩ := exists_cons_of_ne_nil (show items ≠ [] by simpa using hts)
  obtain ⟨c, -, hc, -⟩ := (hrow.sound i (by simp)).inked
  have hword : i.word = [] := by simp_all
  rw [hword] at hc
  cases hc

theorem IsSeparator.exists_cut (hsep : IsSeparator op sep)
    (h : Spreads cs (u ++ t :: us)) (ht : t.lexeme = sep) (hu : u ≠ []) (hus : us ≠ []) :
    ∃ part rest, cs = part ++ (op ++ rest) ∧ Lays part u ∧ Spreads rest us := by
  obtain ⟨lead, items, hlead, hrow, hts, rfl⟩ := h
  obtain ⟨xs, items, rfl, rfl, hitems⟩ := map_eq_append_iff.mp hts
  obtain ⟨a, ys, rfl, rfl, rfl⟩ := map_eq_cons_iff.mp hitems
  have ha : a.lexeme = sep := ht
  obtain ⟨hxs, hys⟩ := hrow.split (ha ▸ hsep.not_isAtom)
  have hsound := hrow.sound a (by simp)
  have hword := hsound.spells_of ha
  have hleft : Lays (lead ++ render xs) (xs.map Item.token) := ⟨lead, xs, hlead, hxs.toRow, rfl, rfl⟩
  cases hsep with
  | comma =>
    refine ⟨lead ++ render xs, a.gap ++ render ys, ?_, hleft, a.gap, ys, hsound.blank, hys, rfl, rfl⟩
    simp [show a.word = [','] from hword]
  | ampersand =>
    -- the blanks are taken from the white space on either side
    obtain ⟨xs, x, rfl⟩ := eq_nil_or_concat' xs |>.resolve_left (by simpa using hu)
    obtain ⟨y, ys, rfl⟩ := exists_cons_of_ne_nil (show ys ≠ [] by simpa using hus)
    have hspaced := hrow.spaced
    rw [append_assoc] at hspaced
    have hbefore := (isChain_cons_cons.mp hspaced.right_of_append).1.1 ha
    have hbehind :=
      (isChain_cons_cons.mp (isChain_cons_cons.mp hspaced.right_of_append).2).1.2 ha
    obtain ⟨gap, hgap⟩ := getLast?_eq_some_iff.mp hbefore
    obtain ⟨gap', hgap'⟩ := head?_eq_some_iff.mp hbehind
    have htext : lead ++ render (xs ++ [x]) = lead ++ (render xs ++ (x.word ++ gap)) ++ [' '] := by
      simp [hgap]
    refine ⟨lead ++ (render xs ++ (x.word ++ gap)), gap' ++ render (y :: ys), ?_, ?_, gap', y :: ys,
      ?_, hys, rfl, rfl⟩
    · simp [show a.word = ['&'] from hword, hgap, hgap']
    · exact Lays.of_concat (htext ▸ hleft) (by simp)
    · intro c hc
      exact hsound.blank c (by simp [hgap', hc])

inductive Separated (sep : Lexeme) : List Token → List (List Token) → Prop where
  | single (u : List Token) : Separated sep u [u]
  | cons {t : Token} {us : List Token} {gs : List (List Token)} (u : List Token) :
      t.lexeme = sep → Separated sep us gs → Separated sep (u ++ t :: us) (u :: gs)

theorem Separated.length_le (h : Separated sep ts gs) : ∀ g ∈ gs, g.length ≤ ts.length := by
  induction h with
  | single u => simp
  | cons u ht hus ih => grind

theorem Separated.length_lt (h : Separated sep ts gs) (hgs : 1 < gs.length) :
    ∀ g ∈ gs, g.length < ts.length := by
  cases h with
  | single u => simp at hgs
  | cons u ht hus =>
    simp only [length_append, length_cons]
    refine forall_mem_cons.mpr ⟨by omega, fun g hg => ?_⟩
    have hle := hus.length_le g hg
    omega

theorem Separated.ne_nil (h : Separated sep ts gs) (hgs : ∀ g ∈ gs, g ≠ []) : ts ≠ [] := by
  cases h with
  | single => exact hgs ts (by simp)
  | cons => simp

/-- **Cutting** at a separator gives texts for the groups of tokens between the separators. -/
theorem IsSeparator.splitTop_separated (hsep : IsSeparator op sep) (hP : ∀ l, P l → l ≠ sep)
    (h : Separated sep ts gs) (hne : ∀ g ∈ gs, g ≠ []) (hlevel : ∀ g ∈ gs, Level P g)
    (hcs : Spreads cs ts) : Forall₂ Lays (splitTop op cs) gs := by
  induction h generalizing cs with
  | single u =>
    rw [hsep.splitTop_eq_singleton hP hcs.lays (hlevel u (by simp))
      (hcs.lays.ne_nil (hne u (by simp)))]
    exact .cons hcs.lays .nil
  | cons u ht hus ih =>
    obtain ⟨hu, hne⟩ := forall_mem_cons.mp hne
    obtain ⟨hlevelu, hlevel⟩ := forall_mem_cons.mp hlevel
    obtain ⟨part, rest, rfl, hpart, hrest⟩ := hsep.exists_cut hcs ht hu (hus.ne_nil hne)
    have hclear : Clear op (op ++ rest) := by
      cases hsep with
      | comma => exact IsSeparator.comma.clear_cons (by decide)
      | ampersand => exact IsSeparator.ampersand.clear_cons (by decide)
    rw [hsep.splitTop_eq_cons (hsep.passes hP hpart hlevelu hclear)]
    exact .cons hpart (ih hne hlevel hrest)

/-! ### Parentheses -/

/-- The depth reached behind a text, none when a parenthesis closes what was not opened in it. -/
def nesting : Nat → List Char → Option Nat
  | depth, [] => some depth
  | depth, c :: rest =>
    if c = '(' then nesting (depth + 1) rest
    else if c = ')' then if depth = 0 then none else nesting (depth - 1) rest
    else nesting depth rest

def Balanced (cs : List Char) : Prop := nesting 0 cs = some 0

instance (cs : List Char) : Decidable (Balanced cs) :=
  inferInstanceAs (Decidable (nesting 0 cs = some 0))

section

variable {depth depth' : Nat} {cs rest : List Char}

theorem nesting_append (h : nesting depth cs = some depth') :
    nesting depth (cs ++ rest) = nesting depth' rest := by
  fun_induction nesting depth cs with
  | case1 => cases h; rfl
  | case2 depth rest ih => simp [nesting, ih h]
  | case3 => cases h
  | case4 depth rest hdepth _ ih => simp [nesting, hdepth, ih h]
  | case5 depth c rest hopen hclose ih => simp [nesting, hopen, hclose, ih h]

theorem nesting_of_notMem (hopen : '(' ∉ cs) (hclose : ')' ∉ cs) : nesting depth cs = some depth := by
  induction cs with
  | nil => rfl
  | cons c cs ih => grind [nesting]

theorem nesting_add (h : nesting depth cs = some depth') (k) :
    nesting (depth + k) cs = some (depth' + k) := by
  fun_induction nesting depth cs with
  | case1 => cases h; rfl
  | case2 depth rest ih =>
    simp only [nesting, if_true, ← ih h]
    congr 1
    omega
  | case3 => cases h
  | case4 depth rest hdepth hopen ih => grind [nesting]
  | case5 depth c rest hopen hclose ih => simp [nesting, hopen, hclose, ih h]

theorem closingIndex_append (h : nesting depth cs = some depth') :
    closingIndex (depth + 1) (cs ++ rest) =
      (closingIndex (depth' + 1) rest).map (· + cs.length) := by
  fun_induction nesting depth cs with
  | case1 => cases h; simp
  | case2 depth cs ih => simp_all [cons_append, closingIndex, Option.map_map]
  | case3 => cases h
  | case4 depth cs hdepth hopen ih =>
    have hcast : ((depth - 1 : Nat) : Int) + 1 = (depth : Int) + 1 - 1 := by omega
    have hinside := ih h
    rw [hcast] at hinside
    rw [cons_append, closingIndex, if_neg (by decide), if_pos (beq_self_eq_true _),
      if_neg (by simpa using hdepth), hinside, Option.map_map]
    rfl
  | case5 depth c cs hopen hclose ih => simp_all [cons_append, closingIndex, Option.map_map]

theorem insideParens_of_balanced (h : Balanced cs) : insideParens ('(' :: (cs ++ [')'])) = cs := by
  have htrim : trimChars ('(' :: (cs ++ [')'])) = '(' :: (cs ++ [')']) := by
    have hinked : Inked ('(' :: (cs ++ [')'])) := by
      refine ⟨'(', ')', rfl, ?_, by decide, by decide⟩
      rw [← cons_append, getLast?_concat]
    have hnone : ∀ c ∈ ([] : List Char), isGap c := by simp
    simpa using trimChars_of_inked hnone hinked hnone
  have hclosing : closingIndex 0 ('(' :: (cs ++ [')'])) = some (cs.length + 1) := by
    have hinside : closingIndex (0 + 1) (cs ++ [')']) = some cs.length := by
      simpa [closingIndex] using @closingIndex_append 0 0 cs [')'] h
    rw [closingIndex, hinside]
    rfl
  rw [insideParens, htrim]
  simp [hclosing]

end

def StringsBalanced (items : List Item) : Prop :=
  ∀ i ∈ items, ∀ s, i.lexeme = .string s → Balanced s.toList

theorem Item.Written.nesting_gap {i : Item} (h : i.Written) (depth) :
    nesting depth i.gap = some depth :=
  nesting_of_notMem (h.notMem_gap (by decide)) (h.notMem_gap (by decide))

theorem Item.Sound.nesting_word {i : Item} (h : i.Sound) (hl : i.lexeme ≠ .lparen)
    (hr : i.lexeme ≠ .rparen) (hbalanced : ∀ s, i.lexeme = .string s → Balanced s.toList)
    (depth) : nesting depth i.word = some depth := by
  rcases h.string_or_plain with ⟨s, hs, hword, -⟩ | ⟨-, -, -, hmarks⟩
  · have hinside : nesting depth s.toList = some depth := by
      simpa using nesting_add (hbalanced s hs) depth
    have hclosing : nesting depth (s.toList ++ ['"']) = some depth := by
      rw [nesting_append hinside]
      rfl
    rw [hword]
    exact hclosing
  · exact nesting_of_notMem (hmarks '(' .lparen (by simp [marks]) hl)
      (hmarks ')' .rparen (by simp [marks]) hr)

/-- **A row of words is balanced** when its tokens and its strings are. -/
theorem nesting_render (h : Level P ts) (hs : ∀ i ∈ items, i.Sound)
    (hts : items.map Item.token = ts) (hbalanced : StringsBalanced items) (depth) :
    nesting depth (render items) = some depth := by
  induction h generalizing items depth with
  | nil =>
    obtain rfl := map_eq_nil_iff.mp hts
    rfl
  | cons hp hl hr hlevel ih =>
    obtain ⟨i, items, rfl, rfl, hitems⟩ := map_eq_cons_iff.mp hts
    obtain ⟨hi, hs⟩ := forall_mem_cons.mp hs
    obtain ⟨hword, hbalanced⟩ := forall_mem_cons.mp hbalanced
    rw [render_cons, nesting_append (hi.nesting_word hl hr hword depth),
      nesting_append (hi.nesting_gap depth), ih hs hitems hbalanced]
  | @parens P l r us ts hl hus hr hlevel ihus ih =>
    obtain ⟨i, items, rfl, rfl, hitems⟩ := map_eq_cons_iff.mp hts
    obtain ⟨xs, items, rfl, hxs, hitems⟩ := map_eq_append_iff.mp hitems
    obtain ⟨j, ys, rfl, rfl, hys⟩ := map_eq_cons_iff.mp hitems
    unfold StringsBalanced at hbalanced
    simp only [forall_mem_cons, forall_mem_append] at hs hbalanced
    obtain ⟨hi, hxs', hj, hys'⟩ := hs
    obtain ⟨-, hxsb, -, hysb⟩ := hbalanced
    have hopen : i.word = ['('] := hi.spells_of hl
    have hclose : j.word = [')'] := hj.spells_of hr
    have hbehind : nesting depth (j.gap ++ render ys) = some depth := by
      rw [nesting_append (hj.nesting_gap depth), ih hys' hys hysb]
    rw [render_cons, render_append, render_cons, hopen, hclose, singleton_append, nesting,
      nesting_append (hi.nesting_gap _), nesting_append (ihus hxs' hxs hxsb (depth + 1))]
    exact hbehind

/-! ### The first occurrence of a sign -/

theorem cutFirst_of_notMem (hc : c ∈ sign) (h : c ∉ cs) : cutFirst sign cs = none := by
  have hnone : ¬ (findChars sign cs).isSome := fun hsome =>
    h ((isSome_findChars_iff.mp hsome).subset hc)
  rw [cutFirst, Option.not_isSome_iff_eq_none.mp hnone]
  rfl

theorem cutFirst_singleton (h : c ∉ l) : cutFirst [c] (l ++ c :: r) = some (l, r) := by
  rw [cutFirst, findChars_singleton h]
  simp

theorem exists_cutFirst : ∃ l' r', cutFirst sign (l ++ (sign ++ r)) = some (l', r') := by
  have hin : sign <:+: l ++ (sign ++ r) := ⟨l, r, append_assoc ..⟩
  obtain ⟨i, hi⟩ := Option.isSome_iff_exists.mp (isSome_findChars_iff.mpr hin)
  rw [cutFirst, hi]
  exact ⟨_, _, rfl⟩

/-! ### Comparisons -/

def isOrderSign (c : Char) : Bool := c == '<' || c == '>'

theorem eq_of_append_orderSign (hx : isOrderSign x)
    (hy : isOrderSign y) (hl : ∀ c ∈ l, isOrderSign c = false) (hr : ∀ c ∈ r, isOrderSign c = false)
    (h : l ++ x :: r = l' ++ y :: r') : l = l' ∧ x = y ∧ r = r' := by
  rcases append_eq_append_iff.mp h with ⟨m, rfl, hm⟩ | ⟨m, rfl, hm⟩
  · cases m with
    | nil =>
      obtain ⟨rfl, rfl⟩ := List.cons.inj hm
      simp
    | cons c m =>
      obtain ⟨rfl, rfl⟩ := List.cons.inj hm
      simp [hr y (by simp)] at hy
  · cases m with
    | nil =>
      obtain ⟨rfl, rfl⟩ := List.cons.inj hm
      simp
    | cons c m =>
      obtain ⟨rfl, rfl⟩ := List.cons.inj hm
      simp [hl y (by simp)] at hy

theorem symbol_shape (op : OrderOp) :
    ∃ c t, op.symbol.toList = c :: t ∧ isOrderSign c ∧ (t = [] ∨ t = ['=']) := by
  cases op with
  | lt => exact ⟨'<', [], rfl, rfl, .inl rfl⟩
  | le => exact ⟨'<', ['='], rfl, rfl, .inr rfl⟩
  | gt => exact ⟨'>', [], rfl, rfl, .inl rfl⟩
  | ge => exact ⟨'>', ['='], rfl, rfl, .inr rfl⟩

theorem symbol_injective {op op' : OrderOp} (h : op.symbol.toList = op'.symbol.toList) :
    op = op' := by
  revert h
  cases op <;> cases op' <;> decide

theorem exists_pad_of_mem_signs {op} (h : (sign, op) ∈ signs) :
    ∃ pad, (pad = [] ∨ pad = [' ']) ∧ sign = pad ++ (op.symbol.toList ++ pad) := by
  simp only [signs, mem_cons, not_mem_nil, or_false] at h
  rcases h with ⟨rfl, rfl⟩ | ⟨rfl, rfl⟩ | ⟨rfl, rfl⟩ | ⟨rfl, rfl⟩ | ⟨rfl, rfl⟩ | ⟨rfl, rfl⟩ |
    ⟨rfl, rfl⟩ | ⟨rfl, rfl⟩
  · exact ⟨[' '], .inr rfl, rfl⟩
  · exact ⟨[' '], .inr rfl, rfl⟩
  · exact ⟨[' '], .inr rfl, rfl⟩
  · exact ⟨[' '], .inr rfl, rfl⟩
  · exact ⟨[], .inl rfl, rfl⟩
  · exact ⟨[], .inl rfl, rfl⟩
  · exact ⟨[], .inl rfl, rfl⟩
  · exact ⟨[], .inl rfl, rfl⟩

/-- **Signs of order.** In a text with one sign of order every sign that is found is that sign,
with or without blanks around it, or its first half. -/
theorem found_sign {l' r' op op'} (hl : ∀ c ∈ l, isOrderSign c = false)
    (hr : ∀ c ∈ r, isOrderSign c = false) (hnext : r.head? ≠ some '=') (hsign : (sign, op') ∈ signs)
    (h : cutFirst sign (l ++ (op.symbol.toList ++ r)) = some (l', r')) :
    (op' = op ∧ ∃ pad, (pad = [] ∨ pad = [' ']) ∧ l = l' ++ pad ∧ r = pad ++ r') ∨
      op.symbol.toList = sign ++ ['='] := by
  obtain ⟨pad, hpad, rfl⟩ := exists_pad_of_mem_signs hsign
  obtain ⟨c, t, hct, hc, ht⟩ := symbol_shape op
  obtain ⟨c', t', hct', hc', ht'⟩ := symbol_shape op'
  have hbehind : ∀ d ∈ t ++ r, isOrderSign d = false := by
    rw [forall_mem_append]
    refine ⟨?_, hr⟩
    rcases ht with rfl | rfl <;> simp [isOrderSign]
  have hcut := eq_of_cutFirst h
  rw [hct, hct'] at hcut
  obtain ⟨hleft, rfl, hright⟩ := eq_of_append_orderSign hc hc' hl hbehind
    (show l ++ c :: (t ++ r) = (l' ++ pad) ++ c' :: (t' ++ (pad ++ r')) by simpa using hcut)
  have hsame : t = t' → op' = op := by
    rintro rfl
    exact symbol_injective (hct'.trans hct.symm)
  rcases ht with rfl | rfl <;> rcases ht' with rfl | rfl
  · exact .inl ⟨hsame rfl, pad, hpad, hleft, hright⟩
  · rw [nil_append] at hright
    simp [hright] at hnext
  · grind
  · exact .inl ⟨hsame rfl, pad, hpad, hleft, by simpa using hright⟩

theorem signs_split (op) : ∃ front back, signs = front ++ (op.symbol.toList, op) :: back ∧
      ∀ p ∈ front, op.symbol.toList ≠ p.1 ++ ['='] := by
  cases op with
  | ge => exact ⟨signs.take 4, signs.drop 5, rfl, by decide⟩
  | le => exact ⟨signs.take 5, signs.drop 6, rfl, by decide⟩
  | gt => exact ⟨signs.take 6, signs.drop 7, rfl, by decide⟩
  | lt => exact ⟨signs.take 7, signs.drop 8, rfl, by decide⟩

section

variable {ev : List Char → Except Fault Value} {otherwise : Unit → Except Fault Value}
  {cs l r : List Char} {u v : List Token} {a b : Value} {op : OrderOp} {holds : Bool}

/-- **Comparison by order.** A text with one sign of order compares the values of what stands on
its two sides. -/
theorem compareText_of_lays (hu : Lays l u) (hv : Lays r v) (hne : u ≠ [])
    (hl : ∀ c ∈ l, isOrderSign c = false) (hr : ∀ c ∈ r, isOrderSign c = false)
    (hnext : r.head? ≠ some '=') (hevl : ∀ cs, Lays cs u → ev cs = .ok a)
    (hevr : ∀ cs, Lays cs v → ev cs = .ok b) (ha : a.isNull = false) (hb : b.isNull = false)
    (horder : Value.order op a b = .ok holds) :
    compareText .strict ev otherwise (l ++ (op.symbol.toList ++ r)) signs = .ok (.bool holds) := by
  have hside : ∀ {pad l' r' : List Char}, (pad = [] ∨ pad = [' ']) → l = l' ++ pad →
      r = pad ++ r' → ev l' = .ok a ∧ ev r' = .ok b := by
    rintro pad l' r' (rfl | rfl) hleft hright
    · grind
    · rw [singleton_append] at hright
      exact ⟨hevl l' (Lays.of_concat (hleft ▸ hu) hne), hevr r' (Lays.of_cons (hright ▸ hv))⟩
  have hgood : ∀ {sign l' r' : List Char} {op' : OrderOp}, (sign, op') ∈ signs →
      op.symbol.toList ≠ sign ++ ['='] →
      cutFirst sign (l ++ (op.symbol.toList ++ r)) = some (l', r') →
      op' = op ∧ ev l' = .ok a ∧ ev r' = .ok b := by
    intro sign l' r' op' hmem hhalf hcut
    rcases found_sign hl hr hnext hmem hcut with ⟨hop, pad, hpad, hleft, hright⟩ | hhalf'
    · exact ⟨hop, hside hpad hleft hright⟩
    · exact absurd hhalf' hhalf
  obtain ⟨front, back, hsigns, hfront⟩ := signs_split op
  obtain ⟨l', r', hcut⟩ := @exists_cutFirst op.symbol.toList l r
  have hmem : (op.symbol.toList, op) ∈ signs := by simp [hsigns]
  obtain ⟨-, hl', hr'⟩ := hgood hmem (by simp) hcut
  have hgoodFront := fun p hp l' r' h =>
    @hgood p.1 l' r' p.2 (hsigns ▸ mem_append_left _ hp) (hfront p hp) h
  rw [hsigns]
  exact compareText_of_found ha hb horder hgoodFront hcut hl' hr'

theorem compareText_of_unsigned {policy} (h : ∀ c ∈ cs, isOrderSign c = false) :
    compareText policy ev otherwise cs signs = otherwise () := by
  refine compareText_of_forall fun sign hsign => ?_
  obtain ⟨pad, -, hpad⟩ := exists_pad_of_mem_signs hsign
  obtain ⟨c, t, hct, hc, -⟩ := symbol_shape sign.2
  refine @cutFirst_of_notMem _ _ c (by simp [hpad, hct]) fun hmem => ?_
  rw [h c hmem] at hc
  cases hc

theorem equationText_of_cut (h : '=' ∉ l) (hl : ev l = .ok a) (hr : ev r = .ok b) :
    equationText ev (l ++ '=' :: r) = .ok (.bool (a.equal b)) := by
  simp [equationText, cutFirst_singleton h, hl, hr]

end

end Rulebook.Sheet
