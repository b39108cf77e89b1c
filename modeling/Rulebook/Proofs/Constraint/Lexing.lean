/-
Lexemes of pieces of a constraint.

A piece of text has lexemes of its own when what follows cannot continue its last one. Then the
lexemes of a text are put together from those of its pieces.
-/

import Rulebook.Constraint.Token
import Rulebook.Emit.Dialect
import Rulebook.Proofs.Numeral
import Rulebook.Proofs.Outcome

open List

namespace Rulebook.Constraint

open Text Emit.Constraint

variable {cs rest v : List Char} {ls : List Lexeme} {c : Char} {s : String}

/-- What ends a word, a number or a sign: the end of the text, a blank, a parenthesis or a dot. -/
def Boundary : List Char → Prop
  | [] => True
  | c :: _ => c = ' ' ∨ c = '(' ∨ c = ')' ∨ c = '.'

/-- In front of a boundary, and wherever they stand, the characters have these lexemes. -/
def Lexes (cs : List Char) (ls : List Lexeme) : Prop :=
  ∀ pos rest, Boundary rest → ∃ ts, ts.map Token.lexeme = ls ∧
    scan pos (cs ++ rest) = (scan (pos + cs.length) rest).map (ts ++ ·)

/-! ### Putting pieces together -/

theorem Lexes.nil : Lexes [] [] := by
  intro pos rest _
  refine ⟨[], rfl, ?_⟩
  cases h : scan pos rest <;> simp [h, Except.map]

theorem Lexes.append (h1 : Lexes cs1 ls1)
    (h2 : Lexes cs2 ls2) (hb : ∀ rest, Boundary rest → Boundary (cs2 ++ rest)) :
    Lexes (cs1 ++ cs2) (ls1 ++ ls2) := by
  intro pos rest hrest
  obtain ⟨ts1, rfl, hscan1⟩ := h1 pos (cs2 ++ rest) (hb rest hrest)
  obtain ⟨ts2, rfl, hscan2⟩ := h2 (pos + cs1.length) rest hrest
  refine ⟨ts1 ++ ts2, by simp, ?_⟩
  rw [append_assoc, hscan1, hscan2, length_append, ← Nat.add_assoc]
  cases scan (pos + cs1.length + cs2.length) rest <;> simp [Except.map]

theorem Lexes.blank (h : Lexes cs ls) : Lexes (' ' :: cs) ls := by
  intro pos rest hrest
  obtain ⟨ts, rfl, hscan⟩ := h (pos + 1) rest hrest
  refine ⟨ts, rfl, ?_⟩
  rw [cons_append, scan, if_pos (by decide), hscan, length_cons]
  congr 2
  omega

theorem Lexes.cons (hgap : isGap c = false)
    (hl : ∀ pos rest, Boundary rest → lexemeAt pos c (cs ++ (cs' ++ rest)) = .ok (l, cs.length))
    (h : Lexes cs' ls) : Lexes (c :: (cs ++ cs')) (l :: ls) := by
  intro pos rest hrest
  obtain ⟨ts, rfl, hscan⟩ := h (pos + 1 + cs.length) rest hrest
  refine ⟨⟨l, pos⟩ :: ts, rfl, ?_⟩
  rw [cons_append, append_assoc, scan, if_neg (by simp [hgap]), hl pos rest hrest]
  simp only [drop_left, hscan, length_cons, length_append]
  have hpos : pos + 1 + cs.length + cs'.length = pos + (cs.length + cs'.length + 1) := by omega
  rw [hpos]
  cases scan (pos + (cs.length + cs'.length + 1)) rest <;> rfl

theorem Lexes.single (hgap : isGap c = false)
    (hl : ∀ pos rest, Boundary rest → lexemeAt pos c (cs ++ rest) = .ok (l, cs.length)) :
    Lexes (c :: cs) [l] := by
  have h : Lexes (c :: (cs ++ [])) [l] := Lexes.cons hgap hl .nil
  rwa [append_nil] at h

theorem Lexes.mark (hc : (c, m) ∈ [('(', Mark.lparen), (')', .rparen), ('.', .dot), ('+', .plus)])
    (h : Lexes cs ls) : Lexes (c :: cs) (.mark m :: ls) := by
  have hgap : isGap c = false := by
    simp only [mem_cons, Prod.mk.injEq, not_mem_nil, or_false] at hc
    rcases hc with ⟨rfl, -⟩ | ⟨rfl, -⟩ | ⟨rfl, -⟩ | ⟨rfl, -⟩ <;> decide
  have hl : ∀ pos rest, lexemeAt pos c rest = .ok (.mark m, 0) := by
    intro pos rest
    simp only [mem_cons, Prod.mk.injEq, not_mem_nil, or_false] at hc
    rcases hc with ⟨rfl, rfl⟩ | ⟨rfl, rfl⟩ | ⟨rfl, rfl⟩ | ⟨rfl, rfl⟩ <;> rfl
  have hcons : Lexes (c :: ([] ++ cs)) (.mark m :: ls) :=
    Lexes.cons hgap (fun pos rest _ => hl pos _) h
  exact hcons

/-! ### Single lexemes -/

theorem Boundary.takeWhile_eq (h : Boundary rest)
    (hp : p ' ' = false ∧ p '(' = false ∧ p ')' = false ∧ p '.' = false) (hcs : ∀ c ∈ cs, p c) :
    (cs ++ rest).takeWhile p = cs := by
  refine takeWhile_append_of_stop hcs ?_
  obtain ⟨hblank, hopen, hclose, hdot⟩ := hp
  cases rest with
  | nil => simp
  | cons c rest =>
    rcases h with rfl | rfl | rfl | rfl
    · simp [hblank]
    · simp [hopen]
    · simp [hclose]
    · simp [hdot]

def StartsName (c : Char) : Prop := c.isAlpha ∨ c = '_'

def ContinuesName (c : Char) : Prop := c.isAlphanum ∨ c = '_'

instance (c : Char) : Decidable (StartsName c) := inferInstanceAs (Decidable (_ ∨ _))

instance (c : Char) : Decidable (ContinuesName c) := inferInstanceAs (Decidable (_ ∨ _))

theorem StartsName.continuesName (h : StartsName c) : ContinuesName c :=
  h.imp (fun hc => by simp [Char.isAlphanum, hc]) id

theorem ContinuesName.isAscii (h : ContinuesName c) : Text.isAscii c := by
  rcases h with h | rfl
  · exact isAscii_of_isAlphanum h
  · decide

theorem ContinuesName.isWord (h : ContinuesName c) : Text.isWord c :=
  of_isAscii (P := fun c => ContinuesName c → Text.isWord c) (by decide) h.isAscii h

/-- **Words.** A name is a keyword or an identifier. -/
theorem lexes_word (hc : StartsName c) (hcs : ∀ d ∈ cs, ContinuesName d) :
    Lexes (c :: cs) [wordLexeme (c :: cs)] := by
  have hstart := of_isAscii (P := fun c => StartsName c → isGap c = false ∧ c ≠ '\'' ∧
    isDigit c = false ∧ (isLetter c || c = '_') = true ∧
      c ∉ ['<', '>', '=', '+', '-', '*', '/', '(', ')', '.', ',']) (by decide)
    hc.continuesName.isAscii hc
  obtain ⟨hgap, hquote, hdigit, hletter, hmark⟩ := hstart
  simp only [mem_cons, not_mem_nil, or_false, not_or] at hmark
  refine Lexes.single hgap fun pos rest hrest => ?_
  have htake : (cs ++ rest).takeWhile isWord = cs :=
    hrest.takeWhile_eq (by decide) fun d hd => (hcs d hd).isWord
  simp [lexemeAt, markAt?, hquote, hdigit, hmark, hletter, htake]

/-- A name: a letter or an underscore, and letters, digits and underscores behind it. -/
def IsName (s : String) : Prop :=
  s.toList ≠ [] ∧ (∀ c ∈ s.toList.head?, StartsName c) ∧ ∀ c ∈ s.toList, ContinuesName c

instance (s : String) : Decidable (IsName s) :=
  decidable_of_iff (s.toList ≠ [] ∧ s.toList.head?.all (fun c => decide (StartsName c)) = true ∧
    s.toList.all (fun c => decide (ContinuesName c)) = true)
    (by simp [IsName, Option.all_eq_true])

theorem IsName.lexes (h : IsName s) : Lexes s.toList [wordLexeme s.toList] := by
  obtain ⟨hne, hstart, hall⟩ := h
  cases hcs : s.toList with
  | nil => exact absurd hcs hne
  | cons c cs =>
    rw [hcs] at hstart hall
    exact lexes_word (hstart c rfl) fun d hd => hall d (mem_cons_of_mem c hd)

theorem lexes_identifier (hs : IsName s) (h : Keyword.ofWord? (lower s) = none) :
    Lexes s.toList [.identifier s] := by
  have hlex := hs.lexes
  rw [lower] at h
  rwa [wordLexeme, h, String.ofList_toList] at hlex

def Keyword.word : Keyword → String
  | .and => "and"
  | .or => "or"
  | .not => "not"
  | .if => "if"
  | .then => "then"
  | .else => "else"
  | .endif => "endif"
  | .true => "true"
  | .false => "false"

theorem Keyword.isName_word (k : Keyword) : IsName k.word := by
  cases k <;> decide

theorem Keyword.ofWord?_lower_word (k) : ofWord? (lower k.word) = some k := by
  cases k <;> cbv

theorem lexes_keyword (k) : Lexes k.word.toList [.keyword k k.word] := by
  have hlex := k.isName_word.lexes
  have hk := k.ofWord?_lower_word
  rw [lower] at hk
  rwa [wordLexeme, hk, String.ofList_toList] at hlex

theorem lexes_number (h : Numeral.isTooLong n = false) : Lexes (toString n).toList [.number n] := by
  obtain ⟨c, ds, htext, hc, hds, hread, hstart⟩ := Numeral.exists_run_of_toString h
  have hfirst : isGap c = false ∧ c ≠ '\'' := by
    rcases hc with hc | rfl
    · exact of_isAscii (P := fun c => c.isDigit → isGap c = false ∧ c ≠ '\'') (by decide)
        (isAscii_of_isAlphanum (by simp [Char.isAlphanum, hc])) hc
    · decide
  rw [htext]
  refine Lexes.single hfirst.1 fun pos rest hrest => ?_
  have htake : (ds ++ rest).takeWhile isDigit = ds := hrest.takeWhile_eq (by decide) hds
  simp only [lexemeAt, hfirst.2, if_false, hstart rest, if_true, htake, hread]

/-! ### Texts -/

/-- The characters of a literal between its quotes: a quote has a backslash before it. -/
def literalChars (cs : List Char) : List Char :=
  cs.flatMap fun c => if c = '\'' then ['\\', '\''] else [c]

theorem toList_literal (s) : ("'" ++ escape s ++ "'").toList =
    '\'' :: (literalChars s.toList ++ ['\'']) := by
  have hescape : (escape s).toList = literalChars s.toList := by
    simp only [escape, Text.replace, String.toList_ofList]
    exact replaceChars_singleton '\'' ['\\', '\''] s.toList
  simp [String.toList_append, hescape]

theorem literalChars_cons (c cs) :
    literalChars (c :: cs) = (if c = '\'' then ['\\', '\''] else [c]) ++ literalChars cs := rfl

/-- What a literal is read back as: a backslash takes the character behind it along. There is no
such thing if a quote of its own closes the literal, or the quote behind it does not. -/
def literalText? : List Char → Option (List Char)
  | [] => some []
  | ['\\'] => none
  | '\\' :: c :: rest => if c = '\'' then none else (literalText? rest).map (c :: ·)
  | c :: rest => (literalText? rest).map (c :: ·)

theorem stringBody_literalChars_cons (hc : c ≠ '\\') (cs) :
    stringBody (literalChars (c :: cs) ++ rest) =
      (stringBody (literalChars cs ++ rest)).map fun r =>
        (c :: r.1, r.2 + (if c = '\'' then 2 else 1)) := by
  rw [literalChars_cons]
  by_cases hquote : c = '\''
  · simp [hquote, stringBody]
  · simp [hquote, hc, stringBody]

theorem stringBody_literalChars_pair (hc : c ≠ '\'') (cs) :
    stringBody (literalChars ('\\' :: c :: cs) ++ rest) =
      (stringBody (literalChars cs ++ rest)).map fun r => (c :: r.1, r.2 + 2) := by
  simp [literalChars_cons, hc, stringBody]

theorem ne_backslash (h1 : c = '\\' → cs = [] → False)
    (h2 : ∀ d ds, c = '\\' → cs = d :: ds → False) : c ≠ '\\' := by
  intro hc
  cases cs with
  | nil => exact h1 hc rfl
  | cons d ds => exact h2 d ds hc rfl

theorem stringBody_literalChars (h : literalText? cs = some v) (rest) :
    stringBody (literalChars cs ++ '\'' :: rest) = some (v, (literalChars cs).length + 1) := by
  fun_induction literalText? cs generalizing v with
  | case1 =>
    cases h
    rfl
  | case2 | case3 => cases h
  | case4 c cs hc ih =>
    obtain ⟨v, hv, rfl⟩ := Option.map_eq_some_iff.mp h
    rw [stringBody_literalChars_pair hc, ih hv]
    simp [literalChars_cons, hc]
  | case5 c cs h1 h2 ih =>
    obtain ⟨v, hv, rfl⟩ := Option.map_eq_some_iff.mp h
    rw [stringBody_literalChars_cons (ne_backslash h1 h2), ih hv, literalChars_cons]
    split <;> simp

theorem literalText?_of_notMem (h : '\\' ∉ cs) : literalText? cs = some cs := by
  fun_induction literalText? cs with
  | case1 => rfl
  | case2 | case3 | case4 => simp at h
  | case5 c cs _ _ ih =>
    rw [ih fun hmem => h (mem_cons_of_mem c hmem)]
    rfl

/-- **Texts** that can be read back. -/
theorem lexes_literal (h : literalText? s.toList = some v) :
    Lexes ("'" ++ escape s ++ "'").toList [.string (.ofList v)] := by
  rw [toList_literal]
  refine Lexes.single (by decide) fun pos rest _ => ?_
  simp only [lexemeAt, if_true, append_assoc, singleton_append,
    stringBody_literalChars h, length_append, length_singleton]

def signMark : Formula.Relation → Mark
  | .eq | .other _ => .eq
  | .ne => .ne
  | .lt => .lt
  | .le => .le
  | .gt => .gt
  | .ge => .ge

def signChars : Formula.Relation → Char × List Char
  | .eq | .other _ => ('=', [])
  | .ne => ('<', ['>'])
  | .lt => ('<', [])
  | .le => ('<', ['='])
  | .gt => ('>', [])
  | .ge => ('>', ['='])

theorem toList_sign (op) :
    (sign op).toList = (signChars op).1 :: (signChars op).2 := by
  cases op <;> simp [sign, signChars]

theorem Boundary.head? (h : Boundary rest) : rest.head? ≠ some '>' ∧ rest.head? ≠ some '=' := by
  cases rest with
  | nil => simp
  | cons c rest => rcases h with rfl | rfl | rfl | rfl <;> simp

theorem lexes_sign (op) : Lexes (sign op).toList [.mark (signMark op)] := by
  rw [toList_sign]
  refine Lexes.single (by cases op <;> rfl) fun pos rest hrest => ?_
  obtain ⟨hgt, heq⟩ := hrest.head?
  cases op <;> simp [lexemeAt, markAt?, hgt, heq, isDigit, isAscii, signMark, signChars]

/-! ### Whole texts -/

/-- **The tokens of a text** are its lexemes and the end. -/
theorem Lexes.tokenize (h : Lexes s.toList ls) :
    ∃ ts t, Constraint.tokenize s = .ok (ts ++ [t]) ∧ ts.map Token.lexeme = ls ∧
      t.lexeme = .eof := by
  obtain ⟨ts, hts, hscan⟩ := h 0 [] trivial
  refine ⟨ts, ⟨.eof, 0 + s.toList.length⟩, ?_, hts, rfl⟩
  rw [append_nil] at hscan
  rw [Constraint.tokenize, hscan, scan]
  rfl

/-- What is read back has no more characters than what was written, and fewer if a backslash was
among them. -/
theorem length_of_stringBody (h : stringBody (literalChars cs ++ ['\'']) = some (v, n)) :
    v.length ≤ cs.length ∧ ('\\' ∈ cs → v.length < cs.length) := by
  fun_induction literalText? cs generalizing v n with
  | case1 => grind [literalChars, stringBody]
  | case2 => simp [literalChars, stringBody] at h
  | case3 rest => grind [literalChars, stringBody]
  | case4 c cs hc ih =>
    grind [stringBody_literalChars_pair, Option.map_eq_some_iff, length_cons]
  | case5 c cs h1 h2 ih =>
    have hc : c ≠ '\\' := ne_backslash h1 h2
    rw [stringBody_literalChars_cons hc, Option.map_eq_some_iff] at h
    obtain ⟨⟨w, m⟩, hw, hv⟩ := h
    obtain ⟨rfl, -⟩ := Prod.mk.inj hv
    simpa [hc.symm] using ih hw

/-- **Quoting.** A quoted text is read back as it was exactly when it has no backslash. -/
theorem tokenize_quoted_iff (s : String) :
    (tokenize ("'" ++ escape s ++ "'")).map (·.map Token.lexeme) =
      .ok [.string s, .eof] ↔ '\\' ∉ s.toList := by
  constructor
  · intro h hslash
    rw [tokenize, toList_literal, scan, if_neg (by decide)] at h
    cases hbody : stringBody (literalChars s.toList ++ ['\'']) with
    | none => simp [lexemeAt, hbody, Except.map] at h
    | some r =>
      obtain ⟨v, n⟩ := r
      simp only [lexemeAt, if_true, hbody] at h
      obtain ⟨ts, hts, hlexemes⟩ := map_eq_ok_iff.mp h
      split at hts
      · cases hts
      · cases hts
        have hv : String.ofList v = s := by simpa using (cons.inj hlexemes).1
        have hlt := (length_of_stringBody hbody).2 hslash
        rw [← hv, String.toList_ofList] at hlt
        exact Nat.lt_irrefl _ hlt
  · intro h
    obtain ⟨ts, t, htokens, hts, ht⟩ := (lexes_literal (literalText?_of_notMem h)).tokenize
    simp [htokens, Except.map, hts, ht]

end Rulebook.Constraint
