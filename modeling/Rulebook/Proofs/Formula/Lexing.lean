/-
Tokens of pieces of a formula.

A piece of text is scanned on its own where what follows does not continue its last token.
-/

import Rulebook.Formula.Token
import Rulebook.Proofs.Numeral

namespace Rulebook.Formula

open List Text

variable {c : Char} {cs rest : List Char} {s : String}

/-- The characters `cs` in front of `rest`, wherever they stand, are scanned into tokens with a
property. -/
def Scans (cs rest : List Char) (P : List Token → Prop) : Prop :=
  ∀ pos, ∃ ts, P ts ∧ scan pos (cs ++ rest) = (scan (pos + cs.length) rest).map (ts ++ ·)

def IsToken (l : Lexeme) (ts : List Token) : Prop := ∃ t, ts = [t] ∧ t.lexeme = l

def Both (P Q : List Token → Prop) (ts : List Token) : Prop := ∃ u v, ts = u ++ v ∧ P u ∧ Q v

/-! ### Putting pieces together -/

section

variable {cs cs1 cs2 rest : List Char} {P Q : List Token → Prop}

theorem Scans.imp (h : Scans cs rest P) (hPQ : ∀ ts, P ts → Q ts) : Scans cs rest Q := by
  intro pos
  obtain ⟨ts, hts, hscan⟩ := h pos
  exact ⟨ts, hPQ ts hts, hscan⟩

theorem Scans.nil (h : P []) : Scans [] rest P := by
  intro pos
  refine ⟨[], h, ?_⟩
  cases hscan : scan pos rest <;> simp [hscan, Except.map]

theorem Scans.append (h1 : Scans cs1 (cs2 ++ rest) P) (h2 : Scans cs2 rest Q) :
    Scans (cs1 ++ cs2) rest (Both P Q) := by
  intro pos
  obtain ⟨u, hu, hscan1⟩ := h1 pos
  obtain ⟨v, hv, hscan2⟩ := h2 (pos + cs1.length)
  refine ⟨u ++ v, ⟨u, v, rfl, hu, hv⟩, ?_⟩
  rw [append_assoc, hscan1, hscan2, length_append, ← Nat.add_assoc]
  cases scan (pos + cs1.length + cs2.length) rest <;> simp [Except.map]

theorem Scans.gap {gap} (hgap : ∀ c ∈ gap, isGap c) (h : Scans cs rest P) :
    Scans (gap ++ cs) rest P := by
  induction gap with
  | nil => exact h
  | cons c gap ih =>
    intro pos
    obtain ⟨ts, hts, hscan⟩ := ih (fun d hd => hgap d (mem_cons_of_mem c hd)) (pos + 1)
    refine ⟨ts, hts, ?_⟩
    rw [cons_append, cons_append, scan, if_pos (hgap c mem_cons_self), hscan,
      length_cons]
    congr 2
    omega

theorem Scans.single (hgap : isGap c = false)
    (hl : ∀ pos, lexemeAt pos c (cs ++ rest) = .ok (l, cs.length)) :
    Scans (c :: cs) rest (IsToken l) := by
  intro pos
  refine ⟨[⟨l, pos⟩], ⟨_, rfl, rfl⟩, ?_⟩
  have hpos : pos + 1 + cs.length = pos + (c :: cs).length := by
    rw [length_cons]
    omega
  rw [cons_append, scan, if_neg (by simp [hgap]), hl pos]
  simp only [drop_left, hpos]
  cases scan (pos + (c :: cs).length) rest <;> rfl

/-- **The tokens of a whole text** are those found in it and the end. -/
theorem Scans.scan_eq (h : Scans cs [] P) :
    ∃ ts t, scan 0 cs = .ok (ts ++ [t]) ∧ P ts ∧ t.lexeme = .eof := by
  obtain ⟨ts, hts, hscan⟩ := h 0
  refine ⟨ts, ⟨.eof, 0 + cs.length⟩, ?_, hts, rfl⟩
  rw [append_nil] at hscan
  rw [hscan, scan]
  rfl

end

/-! ### What follows a piece -/

def NotAhead (p : Char → Bool) (rest : List Char) : Prop := ∀ c ∈ rest.head?, p c = false

section

variable {p : Char → Bool} {cs rest : List Char}

theorem notAhead_nil : NotAhead p [] := by
  simp [NotAhead]

theorem notAhead_cons (h : p c = false) : NotAhead p (c :: rest) := by
  simpa [NotAhead] using h

theorem NotAhead.gap (h : NotAhead p rest) (hp : ∀ c, isGap c → p c = false)
    (hgap : ∀ c ∈ cs, isGap c) : NotAhead p (cs ++ rest) := by
  cases cs with
  | nil => exact h
  | cons c cs => exact notAhead_cons (hp c (hgap c (.head _)))

end

def continuesSign (c : Char) : Bool := c == '=' || c == '>'

theorem isGap_plain (h : isGap c) : isDigit c = false ∧ continuesSign c = false := by
  simp only [isGap, Bool.or_eq_true, beq_iff_eq] at h
  rcases h with ((rfl | rfl) | rfl) | rfl <;> decide

/-! ### Single tokens -/

def IsCapital (c : Char) : Prop := c.isUpper ∨ c = '_' ∨ c.isDigit

instance (c : Char) : Decidable (IsCapital c) := inferInstanceAs (Decidable (_ ∨ _))

/-- A function name: a capital letter or an underscore, and capital letters, digits and
underscores behind it. -/
def IsFunctionName (s : String) : Prop :=
  (∃ c ∈ s.toList.head?, c.isUpper ∨ c = '_') ∧ ∀ c ∈ s.toList, IsCapital c

instance (s : String) : Decidable (IsFunctionName s) :=
  decidable_of_iff (s.toList.head?.any (fun c => c.isUpper || c = '_') = true ∧
    s.toList.all (fun c => decide (IsCapital c)) = true)
    (by simp [IsFunctionName, Option.any_eq_true])

theorem IsCapital.isAscii (h : IsCapital c) : Text.isAscii c := by
  rcases h with h | rfl | h
  · exact isAscii_of_isAlphanum (by simp [Char.isAlphanum, Char.isAlpha, h])
  · decide
  · exact isAscii_of_isAlphanum (by simp [Char.isAlphanum, h])

theorem IsCapital.isWord (h : IsCapital c) : Text.isWord c ∧ c.toUpper = c :=
  of_isAscii (P := fun c => IsCapital c → Text.isWord c ∧ c.toUpper = c) (by decide)
    h.isAscii h

theorem upperChars_of_isCapital (h : ∀ c ∈ cs, IsCapital c) : upperChars cs = cs := by
  rw [upperChars_of_ascii fun c hc => (h c hc).isAscii]
  exact (map_congr_left fun c hc => (h c hc).isWord.2).trans (map_id cs)

theorem IsFunctionName.upper_eq (h : IsFunctionName s) : upper s = s := by
  rw [upper, upperChars_of_isCapital h.2, String.ofList_toList]

theorem startsName_plain (h : c.isUpper ∨ c = '_') :
    isGap c = false ∧ isDigit c = false ∧ (isLetter c || c = '_') = true ∧
      c ∉ ['"', '\x7b', '-', '<', '>', '=', '&', '(', ')', ','] := by
  have hcapital : IsCapital c := h.imp_right .inl
  exact of_isAscii (P := fun c => c.isUpper ∨ c = '_' → isGap c = false ∧ isDigit c = false ∧
    (isLetter c || c = '_') = true ∧
      c ∉ ['"', '\x7b', '-', '<', '>', '=', '&', '(', ')', ',']) (by decide) hcapital.isAscii h

theorem scans_name (h : IsFunctionName s) (hrest : NotAhead isWord rest) :
    Scans s.toList rest (IsToken (.name s)) := by
  obtain ⟨⟨c, hhead, hstart⟩, hall⟩ := h
  obtain ⟨cs, hcs⟩ := head?_eq_some_iff.mp hhead
  have hupper := upperChars_of_isCapital hall
  rw [hcs] at hall hupper ⊢
  obtain ⟨hgap, hdigit, hletter, hother⟩ := startsName_plain hstart
  simp only [mem_cons, not_or] at hother
  refine Scans.single hgap fun pos => ?_
  have htake : (cs ++ rest).takeWhile isWord = cs :=
    takeWhile_append_of_stop (fun d hd => (hall d (mem_cons_of_mem c hd)).isWord.1) hrest
  have hname : String.ofList (c :: cs) = s := by rw [← hcs, String.ofList_toList]
  simp [lexemeAt, hother, hdigit, hletter, htake, hupper, hname]

theorem startsNumber_plain (h : c.isDigit ∨ c = '-') :
    isGap c = false ∧ continuesSign c = false ∧ c ≠ '"' ∧ c ≠ '\x7b' := by
  rcases h with h | rfl
  · exact of_isAscii (P := fun c => c.isDigit → isGap c = false ∧ continuesSign c = false ∧
      c ≠ '"' ∧ c ≠ '\x7b') (by decide) (isAscii_of_isAlphanum (by simp [Char.isAlphanum, h])) h
  · decide

theorem scans_number (h : Numeral.isTooLong n = false) (hrest : NotAhead isDigit rest) :
    Scans (toString n).toList rest (IsToken (.number n)) := by
  obtain ⟨c, ds, htext, hc, hds, hread, hstart⟩ := Numeral.exists_run_of_toString h
  obtain ⟨hgap, -, hquote, hbrace⟩ := startsNumber_plain hc
  rw [htext]
  refine Scans.single hgap fun pos => ?_
  have htake : (ds ++ rest).takeWhile isDigit = ds := takeWhile_append_of_stop hds hrest
  simp only [lexemeAt, hquote, hbrace, decide_false, Bool.false_and, Bool.false_eq_true, if_false,
    hstart rest, if_true, htake, hread]

theorem stringLength_append (h : stringLength cs = some n) (rest) :
    stringLength (cs ++ rest) = some n := by
  fun_induction stringLength cs generalizing n with
  | case1 => cases h
  | case2 cs => simpa [stringLength] using h
  | case3 => cases h
  | case4 c cs ih =>
    obtain ⟨m, hm, rfl⟩ := Option.map_eq_some_iff.mp h
    simp [stringLength, ih hm]
  | case5 c cs hquote hslash hescape ih =>
    obtain ⟨m, hm, rfl⟩ := Option.map_eq_some_iff.mp h
    have hplain : c ≠ '\\' := by
      rintro rfl
      cases cs with
      | nil => exact hslash rfl rfl
      | cons d ds => exact hescape d ds rfl rfl
    rw [cons_append, stringLength, ih hm]
    · rfl
    · exact hquote
    · exact fun heq => absurd heq hplain
    · exact fun _ _ heq => absurd heq hplain

def ClosesAtEnd (s : String) : Prop := stringLength (s.toList ++ ['"']) = some s.toList.length

instance (s : String) : Decidable (ClosesAtEnd s) := inferInstanceAs (Decidable (_ = _))

theorem scans_string (h : ClosesAtEnd s) (rest) :
    Scans ('"' :: (s.toList ++ ['"'])) rest (IsToken (.string s)) := by
  refine Scans.single (by decide) fun pos => ?_
  have hlength : stringLength (s.toList ++ '"' :: rest) = some s.toList.length := by
    simpa using stringLength_append h rest
  simp [lexemeAt, hlength]

theorem findChars_twice (hin : ¬ [d, d] <:+: cs) (hend : ¬ [d] <:+ cs)
    (rest) : findChars [d, d] (cs ++ d :: d :: rest) = some cs.length := by
  induction cs with
  | nil => simp [findChars]
  | cons c cs ih =>
    have hstep := ih (fun h => hin (h.trans (infix_cons cs.infix_refl)))
      fun h => hend (h.trans (suffix_cons c cs))
    have hstart : ¬ [d, d].isPrefixOf (c :: (cs ++ d :: d :: rest)) := by
      cases cs with
      | nil =>
        have hne : d ≠ c := fun heq => hend (by simp [heq])
        simp [hne]
      | cons c' cs =>
        intro hprefix
        simp only [cons_append, isPrefixOf, Bool.and_eq_true, beq_iff_eq] at hprefix
        obtain ⟨rfl, rfl, -⟩ := hprefix
        exact hin ⟨[], cs, rfl⟩
    rw [cons_append, findChars, if_neg hstart, hstep]
    rfl

def IsReferable (name : String) : Prop :=
  ¬ ['\x7d', '\x7d'] <:+: name.toList ∧ ¬ ['\x7d'] <:+ name.toList

instance (name : String) : Decidable (IsReferable name) := inferInstanceAs (Decidable (_ ∧ _))

theorem scans_reference (h : IsReferable name) (rest) :
    Scans ('\x7b' :: '\x7b' :: (name.toList ++ ['\x7d', '\x7d'])) rest
      (IsToken (.fieldRef name)) := by
  refine Scans.single (by decide) fun pos => ?_
  have hfind := findChars_twice h.1 h.2 rest
  simp [lexemeAt, hfind]

def marks : List (Char × Lexeme) :=
  [('(', .lparen), (')', .rparen), (',', .comma), ('&', .ampersand)]

theorem scans_mark (h : (c, l) ∈ marks) (rest) : Scans [c] rest (IsToken l) := by
  simp only [marks, mem_cons, not_mem_nil, or_false] at h
  rcases h with ⟨rfl, rfl⟩ | ⟨rfl, rfl⟩ | ⟨rfl, rfl⟩ | ⟨rfl, rfl⟩ <;>
    exact Scans.single (by decide) fun pos => rfl

theorem scans_sign (h : ∀ s, op ≠ .other s) (hrest : NotAhead continuesSign rest) :
    Scans op.symbol.toList rest (IsToken (.relation op)) := by
  have hgt : rest.head? ≠ some '>' := fun heq => by simpa [continuesSign] using hrest _ heq
  have heq : rest.head? ≠ some '=' := fun heq => by simpa [continuesSign] using hrest _ heq
  have hfirst : ∃ c cs, op.symbol.toList = c :: cs ∧ isGap c = false ∧
      ∀ pos, lexemeAt pos c (cs ++ rest) = .ok (.relation op, cs.length) := by
    cases op with
    | eq => exact ⟨'=', [], rfl, rfl, fun pos => by simp [lexemeAt, isDigit, isAscii]⟩
    | ne => exact ⟨'<', ['>'], rfl, rfl, fun pos => by simp [lexemeAt, isDigit, isAscii]⟩
    | lt => exact ⟨'<', [], rfl, rfl, fun pos => by simp [lexemeAt, hgt, heq, isDigit, isAscii]⟩
    | le => exact ⟨'<', ['='], rfl, rfl, fun pos => by simp [lexemeAt, isDigit, isAscii]⟩
    | gt => exact ⟨'>', [], rfl, rfl, fun pos => by simp [lexemeAt, heq, isDigit, isAscii]⟩
    | ge => exact ⟨'>', ['='], rfl, rfl, fun pos => by simp [lexemeAt, isDigit, isAscii]⟩
    | other s => exact absurd rfl (h s)
  obtain ⟨c, cs, htext, hgap, hl⟩ := hfirst
  rw [htext]
  exact Scans.single hgap hl

end Rulebook.Formula
