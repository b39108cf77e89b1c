/-
Texts of one line.

Lines that are joined by line feeds are cut apart again if none has a line feed of its own, and
every message about a formula that cannot be read stands on one line.
-/

import Rulebook.Proofs.Constraint.Lexing
import Rulebook.Proofs.Json.Atoms
import Rulebook.Proofs.Sheet.Layout

namespace Rulebook.Text

open List
open Rulebook.Sheet (Inked)

variable {c : Char} {w cs : List Char} {p : Char → Bool} {s t : String}

/-! ### Texts of one line -/

def Unbroken (s : String) : Prop := '\n' ∉ s.toList

instance : Decidable (Unbroken s) := inferInstanceAs (Decidable ('\n' ∉ s.toList))

theorem unbroken_append : Unbroken (s ++ t) ↔ Unbroken s ∧ Unbroken t := by
  simp [Unbroken]

theorem Unbroken.append (hs : Unbroken s) (ht : Unbroken t) : Unbroken (s ++ t) :=
  unbroken_append.mpr ⟨hs, ht⟩

theorem unbroken_intercalate (hsep : Unbroken sep)
    (h : ∀ t ∈ ts, Unbroken t) : Unbroken (sep.intercalate ts) := by
  induction ts with
  | nil => simp [Unbroken]
  | cons t ts ih =>
    rw [forall_mem_cons] at h
    cases ts with
    | nil => simpa using h.1
    | cons u ts =>
      rw [String.intercalate_cons_cons]
      exact (h.1.append hsep).append (ih h.2)

theorem unbroken_toString (n : Int) : Unbroken (toString n) := by
  rw [Unbroken, Numeral.toList_toString, mem_append, not_or]
  refine ⟨by split <;> simp, fun h => ?_⟩
  exact absurd (Numeral.digitChars_isDigit h) (by decide)

theorem unbroken_toString_nat (n : Nat) : Unbroken (toString n) := unbroken_toString n

theorem lineFeed_notMem_hexPadded (width n) : '\n' ∉ (hexPadded width n).toList := by
  intro h
  rw [hexPadded, String.toList_ofList, mem_append] at h
  rcases h with h | h
  · exact absurd (eq_of_mem_replicate h) (by decide)
  · exact absurd ((Json.toDigits_hex n).1 _ h) (by decide)

theorem unbroken_quoteChar (hquote : quote ≠ '\n') (c) : Unbroken (quoteChar quote c) := by
  have hhex := lineFeed_notMem_hexPadded
  fun_cases quoteChar quote c with
  | case1 hc =>
    simp only [Bool.or_eq_true, decide_eq_true_eq] at hc
    rcases hc with rfl | rfl <;> simp [Unbroken, hquote.symm]
  | case5 _ hc => simp [Unbroken, Ne.symm hc]
  | _ => simp [Unbroken, hhex]

theorem unbroken_quoted (s) : Unbroken (quoted s) := by
  have hquote : displayQuote s.toList ≠ '\n' := by
    unfold displayQuote
    split <;> decide
  have hone : Unbroken (displayQuote s.toList).toString := by
    simpa [Unbroken] using hquote.symm
  refine (hone.append fun h => ?_).append hone
  simp only [String.toList_join, mem_flatMap, mem_map] at h
  obtain ⟨_, ⟨c, -, rfl⟩, hc⟩ := h
  exact unbroken_quoteChar hquote c hc

theorem caseRuns_targets : ∀ r ∈ lowerRuns ++ upperRuns, 10 < (r.first : Int) + r.offset := by
  unfold lowerRuns upperRuns CaseRun.ofTable numbersOf
  repeat rw [flatMap_cons, String.toList_ofList]
  decide +kernel

theorem upperExpansions_unbroken : ∀ p ∈ upperExpansions, '\n' ∉ p.2 := by
  unfold upperExpansions expansionsOfTable numbersOf
  repeat rw [flatMap_cons, String.toList_ofList]
  decide +kernel

theorem moveBy_ne_lineFeed (hruns : runs ⊆ lowerRuns ++ upperRuns)
    (hc : c ≠ '\n') : moveBy runs c ≠ '\n' := by
  intro h
  rcases moveBy_cases runs c with ⟨-, heq⟩ | hzero | ⟨r, hr, hmoves, heq⟩
  · exact hc (heq.symm.trans h)
  · rw [h] at hzero
    cases hzero
  · have hrange := CaseRun.range_of_moves hmoves
    have htarget := caseRuns_targets r (hruns hr)
    rw [h, show '\n'.toNat = 10 from rfl] at heq
    omega

theorem lineFeed_notMem_upperChars (h : '\n' ∉ cs) : '\n' ∉ upperChars cs := by
  intro hmem
  obtain ⟨c, hc, hmem⟩ := mem_flatMap.mp hmem
  have hne : c ≠ '\n' := fun heq => h (heq ▸ hc)
  unfold upperChar at hmem
  split at hmem
  · next hascii =>
    refine of_isAscii (P := fun c => c ≠ '\n' → '\n' ∉ [c.toUpper]) ?_ hascii hne hmem
    decide
  · cases hlookup : upperExpansions.lookup c.toNat with
    | some ds =>
      rw [hlookup] at hmem
      obtain ⟨before, behind, htable, -⟩ := lookup_eq_some_iff.mp hlookup
      exact upperExpansions_unbroken (c.toNat, ds) (by simp [htable]) hmem
    | none =>
      rw [hlookup, Option.getD_none, mem_singleton] at hmem
      exact moveBy_ne_lineFeed (subset_append_right _ _) hne hmem.symm

theorem lineFeed_notMem_lowerChars_singleton (h : c ≠ '\n') : '\n' ∉ lowerChars [c] := by
  have hchar : '\n' ∉ lowerCharAt [] c [] := by
    unfold lowerCharAt
    split
    · next hascii =>
      refine of_isAscii (P := fun c => c ≠ '\n' → '\n' ∉ [c.toLower]) ?_ hascii h
      decide
    · have hmoved := moveBy_ne_lineFeed (subset_append_left lowerRuns upperRuns) h
      split
      · decide
      split
      · decide
      · simpa using hmoved.symm
  simpa [lowerChars, lowerFrom] using hchar

/-! ### White space around texts -/

theorem dropEnd_append (hw : ∃ c, w.getLast? = some c ∧ p c = false) :
    dropEnd p (w ++ cs) = w ++ dropEnd p cs := by
  obtain ⟨c, hc, hp⟩ := hw
  obtain ⟨w, rfl⟩ := getLast?_eq_some_iff.mp hc
  simp only [dropEnd, reverse_append, dropWhile_append]
  split <;> simp_all

theorem dropEnd_cons (c cs) :
    dropEnd p (c :: cs) = if dropEnd p cs = [] ∧ p c then [] else c :: dropEnd p cs := by
  simp only [dropEnd, reverse_cons, dropWhile_append, List.isEmpty_iff, reverse_eq_nil_iff]
  by_cases hcs : cs.reverse.dropWhile p = []
  · cases hc : p c <;> simp [hcs, hc]
  · simp [hcs]

theorem dropWhile_dropEnd (p cs) : (dropEnd p cs).dropWhile p = dropEnd p (cs.dropWhile p) := by
  induction cs with
  | nil => rfl
  | cons c cs ih => grind [dropEnd_cons, dropWhile_cons]

theorem trim_trimEnd (s) : trim (trimEnd s) = trim s := by
  rw [trim, trimEnd, String.toList_ofList, trimChars, trimBy, dropWhile_dropEnd]
  simp only [dropEnd, reverse_reverse, dropWhile_idempotent]
  rfl

theorem trim_space (s) : trim (" " ++ s) = trim s := by
  simp [trim, trimChars, trimBy, show isBlank ' ' from rfl]

theorem trim_append {w} (hw : Inked w.toList) (s) : trim (w ++ s) = w ++ trimEnd s := by
  obtain ⟨c, d, hc, hd, hcb, hdb⟩ := hw
  have hstart : (w.toList ++ s.toList).dropWhile isBlank = w.toList ++ s.toList := by
    obtain ⟨w', hw'⟩ := head?_eq_some_iff.mp hc
    simp [hw', hcb]
  rw [trim, trimEnd, String.toList_append, trimChars, trimBy, hstart, dropEnd_append ⟨d, hd, hdb⟩,
    String.ofList_append, String.ofList_toList]

theorem trim_inked (hs : Inked s.toList) : trim s = s := by
  have htrim := trim_append hs ""
  rwa [String.append_empty, show trimEnd "" = "" from rfl, String.append_empty] at htrim

theorem inked_of_trim (hne : s ≠ "") (h : trim s = s) : Inked s.toList := by
  have hchars : dropEnd isBlank (s.toList.dropWhile isBlank) = s.toList := by
    simpa [trim, trimChars, trimBy] using congrArg String.toList h
  have hnil : s.toList ≠ [] := by simpa using hne
  have hstop : ∀ l : List Char, ∀ c ∈ (l.dropWhile isBlank).head?, isBlank c = false := by
    intro l c hc
    have hnot := head?_dropWhile_not isBlank l
    rwa [Option.mem_def.mp hc] at hnot
  have hfirst : ∀ c ∈ s.toList.head?, isBlank c = false := by
    rw [← hchars, ← dropWhile_dropEnd]
    exact hstop _
  have hlast : ∀ c ∈ s.toList.getLast?, isBlank c = false := by
    rw [← hchars, dropEnd, getLast?_reverse]
    exact hstop _
  refine ⟨_, _, head?_eq_some_head hnil, getLast?_eq_some_getLast hnil, hfirst _ ?_, hlast _ ?_⟩
  · exact head?_eq_some_head hnil
  · exact getLast?_eq_some_getLast hnil

/-! ### Lines -/

theorem startsWith_append (lead s) : startsWith (lead ++ s) lead := by
  simp [startsWith]

theorem dropFront_append (lead s) : dropFront (lead ++ s) lead.length = s := by
  rw [dropFront, String.toList_append, ← String.length_toList, drop_left, String.ofList_toList]

theorem cutOnce_colon (h : ':' ∉ name.toList) (s) :
    cutOnce (name ++ ":" ++ s) ":" = some (name, s) := by
  have hchars : (name ++ ":" ++ s).toList = name.toList ++ ':' :: s.toList := by simp
  rw [cutOnce, hchars, show ":".toList = [':'] from rfl, findChars_singleton h]
  simp [show ":".length = 1 from rfl]

theorem cut_join {lines} (hne : lines ≠ []) (h : ∀ l ∈ lines, Unbroken l) :
    cut (join "\n" lines) "\n" = lines := by
  induction lines with
  | nil => exact absurd rfl hne
  | cons l lines ih =>
    have hl := h l (.head _)
    cases lines with
    | nil => simp [join, cut, cutChars, cutGo_of_notMem hl]
    | cons l' lines =>
      have hrest := ih (by simp) fun m hm => h m (mem_cons_of_mem l hm)
      rw [join, cut, cutChars] at hrest ⊢
      rw [String.intercalate_cons_cons]
      simp only [String.toList_append, append_assoc]
      rw [show "\n".toList = ['\n'] from rfl] at hrest ⊢
      rw [singleton_append, cutGo_append, cutGo_of_notMem hl, map_append, hrest]
      simp

end Rulebook.Text

namespace Rulebook.Names

theorem unbroken_camel (h : Text.Unbroken name) : Text.Unbroken (camel name) := by
  unfold camel
  split
  · decide
  · next c rest hname =>
    rw [Text.Unbroken, hname, List.mem_cons, not_or] at h
    have hfirst := Text.lineFeed_notMem_lowerChars_singleton (Ne.symm h.1)
    simpa [Text.Unbroken, hfirst] using h.2

end Rulebook.Names

namespace Rulebook.Formula

open List Text

variable {pos : Nat} {c : Char} {cs rest : List Char}

/-! ### Faults are said in one line -/

theorem LexError.unbroken_of_lexemeAt (hc : c ≠ '\n')
    (h : lexemeAt pos c rest = .error f) : Unbroken f.message := by
  revert h
  fun_cases lexemeAt pos c rest with
  | case1 | case3 =>
    rintro ⟨⟩
    exact .append (by decide) (unbroken_toString_nat pos)
  | case6 _ _ _ run why hread =>
    rintro ⟨⟩
    cases why with
    | notNumeral text =>
      have hquoted : Unbroken (.ofList ((quoted text).toList.take 200)) := by
        rw [Unbroken, String.toList_ofList]
        exact fun hmem => unbroken_quoted text (mem_of_mem_take hmem)
      exact .append (by decide) hquoted
    | tooLong digits =>
      exact ((((Unbroken.append (by decide) (unbroken_toString_nat _)).append (by decide)).append
        (unbroken_toString_nat digits)).append (by decide))
  | case18 =>
    rintro ⟨⟩
    have hone : Unbroken c.toString := by simpa [Unbroken] using hc.symm
    exact ((Unbroken.append (by decide) hone).append (by decide)).append (unbroken_toString_nat pos)
  | _ => rintro ⟨⟩

theorem unbroken_of_scan (h : scan pos cs = .error f) : Unbroken f.message := by
  fun_induction scan pos cs with
  | case1 | case5 => cases h
  | case2 _ _ _ _ ih => exact ih h
  | case3 pos c rest hgap f' hlexeme =>
    cases h
    refine LexError.unbroken_of_lexemeAt ?_ hlexeme
    rintro rfl
    exact hgap rfl
  | case4 pos c rest hgap l n _ f' hscan ih =>
    cases h
    exact ih hscan

theorem Lexeme.unbroken_display (l : Lexeme) : Unbroken l.display := by
  cases l with
  | string | fieldRef | name | relation => exact unbroken_quoted _
  | number n => exact unbroken_toString n
  | _ => decide

theorem TokenKind.unbroken_display (k : TokenKind) : Unbroken k.display := by
  cases k <;> decide

theorem Token.unbroken_display (t : Token) : Unbroken t.display := by
  have htype : Unbroken ("Token(type=<" ++ t.lexeme.kind.display ++ ": ") :=
    .append (.append (by decide) t.lexeme.kind.unbroken_display) (by decide)
  have hvalue := (htype.append (unbroken_toString_nat t.lexeme.kind.label.2)).append
    (t := ">, value=") (by decide)
  have hpos := (hvalue.append t.lexeme.unbroken_display).append (t := ", pos=") (by decide)
  exact (hpos.append (unbroken_toString_nat t.pos)).append (by decide)

theorem ParseError.unbroken_message (f : ParseError) : Unbroken f.message := by
  cases f with
  | expected want got pos =>
    exact (((Unbroken.append (by decide) want.unbroken_display).append (by decide)).append
      got.unbroken_display).append (by decide) |>.append (unbroken_toString_nat pos)
  | unexpected got pos =>
    exact ((Unbroken.append (by decide) got.unbroken_display).append (by decide)).append
      (unbroken_toString_nat pos)
  | trailing token =>
    exact (Unbroken.append (by decide) token.unbroken_display).append (by decide)
  | exhausted => decide

theorem unbroken_of_parse (h : parse text = .error f) : Unbroken f.message := by
  unfold parse at h
  split at h
  · next e hscan =>
    cases h
    have hunbroken := unbroken_of_scan hscan
    cases e <;> exact hunbroken
  · next ts hscan =>
    cases hparse : parseTokens ts with
    | ok e => simp [hparse, Except.mapError] at h
    | error e =>
      obtain rfl : e.fault = f := by simpa [hparse, Except.mapError] using h
      have hunbroken := e.unbroken_message
      cases e <;> exact hunbroken

end Rulebook.Formula
