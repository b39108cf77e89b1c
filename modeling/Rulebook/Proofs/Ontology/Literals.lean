/-
The texts an ontology writes as literals.

A literal is read by the grammar of the notation: between single marks no mark and no end of line
stands bare, and between triple marks at most two marks stand side by side, with another character
behind them.
-/

import Rulebook.Proofs.Text
import Rulebook.Ontology.Document
import Rulebook.Ontology.Turtle

namespace Rulebook.Ontology

open Text List

/-- The characters that a backslash and one more character stand for. -/
def escapes : List (Char × Char) :=
  [('t', '\t'), ('b', '\x08'), ('n', '\n'), ('r', '\r'), ('f', '\x0c'), ('"', '"'), ('\'', '\''),
    ('\\', '\\')]

/-- The character a hexadecimal code stands for. -/
def coded? (digits : List Char) : Option Char :=
  let n := Turtle.hexValue digits
  if digits.all Turtle.isHexDigit ∧ n.isValidChar then some (.ofNat n) else none

/-- The value of the characters between the marks `q` of a literal. `marks` counts the marks since
the last other character: a long literal has at most two before each one, a short literal none. -/
def bodyValue (q : Char) (long : Bool) : Nat → List Char → Option (List Char)
  | marks, [] => if marks = 0 then some [] else none
  | _, '\\' :: 'u' :: a :: b :: c :: d :: cs =>
    (coded? [a, b, c, d]).bind fun x => (bodyValue q long 0 cs).map (x :: ·)
  | _, '\\' :: 'U' :: a :: b :: c :: d :: e :: f :: g :: h :: cs =>
    (coded? [a, b, c, d, e, f, g, h]).bind fun x => (bodyValue q long 0 cs).map (x :: ·)
  | _, '\\' :: c :: cs => (escapes.lookup c).bind fun x => (bodyValue q long 0 cs).map (x :: ·)
  | marks, c :: cs =>
    if c = q then
      if long ∧ marks < 2 then (bodyValue q long (marks + 1) cs).map (c :: ·) else none
    else if c = '\\' ∨ !long ∧ (c = '\n' ∨ c = '\r') then none
    else (bodyValue q long 0 cs).map (c :: ·)

def delimiter (q : Char) (long : Bool) : List Char := .replicate (if long then 3 else 1) q

/-- The grammar of literals: `text` is one literal and denotes `value`. -/
def Denotes (text value : List Char) : Prop :=
  ∃ q ∈ ['"', '\''], ∃ long body, text = delimiter q long ++ body ++ delimiter q long ∧
    bodyValue q long 0 body = some value

/-- The number of quotation marks at the end of a text. -/
def trailingMarks (cs : List Char) : Nat := (cs.reverse.takeWhile (· = '"')).length

theorem trailingMarks_append (h : c ≠ '"') (l cs : List Char) :
    trailingMarks (l ++ c :: cs) = trailingMarks cs := by
  simp only [trailingMarks, reverse_append, reverse_cons, append_assoc, takeWhile_append]
  split <;> simp_all

def shortBody (cs : List Char) : List Char :=
  replaceChars ['"'] ['\\', '"'] (replaceChars ['\\'] ['\\', '\\'] cs)

theorem bodyValue_shortBody (hn : '\n' ∉ cs) (hr : '\r' ∉ cs) :
    bodyValue '"' false 0 (shortBody cs) = some cs := by
  induction cs with
  | nil => rfl
  | cons c cs ih =>
    simp only [mem_cons, not_or] at hn hr
    have ih := ih hn.2 hr.2
    simp only [shortBody, replaceChars_singleton, flatMap_cons, flatMap_append] at ih ⊢
    split
    · simp [bodyValue, escapes, lookup, *]
    · by_cases hq : c = '"'
      · simp [bodyValue, escapes, lookup, *]
      · simp [bodyValue, Ne.symm hn.1, Ne.symm hr.1, *]

def escapedMarks : List Char := ['\\', '"', '\\', '"', '\\', '"']

theorem bodyValue_run (k : Nat) (cs : List Char) :
    bodyValue '"' true 0 ((replicate k escapedMarks).flatten ++ cs) =
      (bodyValue '"' true 0 cs).map (replicate (3 * k) '"' ++ ·) := by
  induction k with
  | zero => simp
  | succ k ih =>
    rw [replicate_succ, flatten_cons, append_assoc]
    simp only [escapedMarks] at ih ⊢
    simp [bodyValue, escapes, lookup, ih, Nat.mul_succ, Function.comp_def, replicate_succ]

/-- A run of marks inside a long literal is kept if another character follows it, or every mark
is escaped. -/
theorem bodyValue_guarded_run (h : cs.head? ≠ some '"') (n : Nat) :
    bodyValue '"' true 0 (guarded escapedMarks (replicate n '"' ++ cs)) =
      (bodyValue '"' true (n % 3) (guarded escapedMarks cs)).map (replicate n '"' ++ ·) := by
  rw [guarded_run h, bodyValue_run]
  have h3 : n % 3 < 3 := Nat.mod_lt _ (by decide)
  have hn : replicate n '"' = replicate (3 * (n / 3)) '"' ++ replicate (n % 3) '"' := by
    rw [← replicate_add, Nat.div_add_mod]
  rw [hn]
  interval_cases n % 3 <;> simp [bodyValue, replicate_succ, Function.comp_def]

theorem bodyValue_guarded (n : Nat) (cs : List Char) :
    bodyValue '"' true 0 (guarded escapedMarks (replicate n '"' ++ cs)) =
      if 3 ∣ trailingMarks (replicate n '"' ++ cs) then some (replicate n '"' ++ cs) else none := by
  induction cs generalizing n with
  | nil =>
    rw [bodyValue_guarded_run (by simp)]
    change Option.map _ (if n % 3 = 0 then some [] else none) = _
    split <;> simp [trailingMarks, Nat.dvd_iff_mod_eq_zero, *]
  | cons c cs ih =>
    by_cases hc : c = '"'
    · subst hc
      simpa [replicate_succ'] using ih (n + 1)
    · rw [bodyValue_guarded_run (by simpa using hc), guarded_cons hc, trailingMarks_append hc]
      have ih := ih 0
      simp at ih
      split <;> simp [bodyValue, escapes, lookup, *]

/-- A text has one reading as a literal: the marks it opens with tell which. -/
theorem denotes_delimited_iff {long : Bool} (h : long ∨ (bodyValue '"' false 0 body).isSome) :
    Denotes (delimiter '"' long ++ body ++ delimiter '"' long) v ↔
      bodyValue '"' long 0 body = some v := by
  refine ⟨?_, fun hv => ⟨_, mem_cons_self, long, body, rfl, hv⟩⟩
  rintro ⟨q, hq, long', body', heq, hv⟩
  have hq : '"' = q := by
    cases long <;> cases long' <;>
      exact (cons.inj heq).1
  subst hq
  cases long <;> cases long'
  · simp_all [delimiter]
  · cases body <;> simp_all [delimiter, replicate_succ, bodyValue]
  · cases body' with
    | nil => simp [delimiter, replicate_succ] at heq
    | cons c body' =>
      obtain rfl : '"' = c := (cons.inj (cons.inj heq).2).1
      simp [bodyValue] at hv
  · simp_all [delimiter]

/-- **A text literal denotes its text** if the text stands on one line. Over several lines it does
so exactly if the number of quotation marks at its end is divisible by three: others are not
escaped, and no literal ends in more marks than its delimiter. -/
theorem denotes_literal (s : String) : ∃ text, literal .text (.str s) = .ok (some text) ∧ ∀ v,
    Denotes text.toList v ↔
      v = s.toList ∧ ('\n' ∈ s.toList ∨ '\r' ∈ s.toList → 3 ∣ trailingMarks s.toList) := by
  refine ⟨textLiteral s, rfl, fun v => ?_⟩
  have hbreak : contains s "\n" || contains s "\r" ↔ '\n' ∈ s.toList ∨ '\r' ∈ s.toList := by
    rw [Bool.or_eq_true, ← contains_singleton, ← contains_singleton]; rfl
  by_cases hs : '\n' ∈ s.toList ∨ '\r' ∈ s.toList
  · have htext : (textLiteral s).toList =
        delimiter '"' true ++ guarded escapedMarks s.toList ++ delimiter '"' true := by
      rw [textLiteral, if_pos (hbreak.mpr hs)]
      simp [delimiter, Text.replace, guarded, replicate_succ, escapedMarks]
    have hvalue := bodyValue_guarded 0 s.toList
    rw [replicate_zero, nil_append] at hvalue
    rw [htext, denotes_delimited_iff (.inl rfl), hvalue]
    split <;> rename_i h3 <;> simp [hs, h3, eq_comm]
  · obtain ⟨hn, hr⟩ := not_or.mp hs
    have hvalue := bodyValue_shortBody hn hr
    have htext : (textLiteral s).toList =
        delimiter '"' false ++ shortBody s.toList ++ delimiter '"' false := by
      rw [textLiteral, if_neg (mt hbreak.mp hs)]
      simp [delimiter, Text.replace, shortBody]
    rw [htext, denotes_delimited_iff (.inr (by simp [hvalue])), hvalue]
    simp [hn, hr, eq_comm]

end Rulebook.Ontology
