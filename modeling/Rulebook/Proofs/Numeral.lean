/-
Numerals.
-/

import Rulebook.Numeral
import Rulebook.Proofs.Text

namespace Rulebook.Numeral

open List Option Text

variable {c : Char} {n : Int} {cs : List Char}

abbrev digitChars (m : Nat) : List Char := Nat.toDigits 10 m

theorem digitChars_isDigit (h : c ∈ digitChars m) : c.isDigit :=
  Nat.isDigit_of_mem_toDigits (by decide) (by decide) h

theorem toList_toString_nat (m) : (toString m).toList = digitChars m := by
  rw [Nat.toString_eq_ofList_toDigits, String.toList_ofList]

theorem toList_toString (n : Int) :
    (toString n).toList = (if n < 0 then ['-'] else []) ++ digitChars n.natAbs := by
  cases n with
  | ofNat m =>
    exact toList_toString_nat m
  | negSucc m =>
    have htext : toString (Int.negSucc m) = "-" ++ toString (m + 1) := rfl
    rw [htext, String.toList_append, toList_toString_nat, if_pos (Int.negSucc_lt_zero m)]
    rfl

theorem toString_eq_cons (n : Int) : ∃ c ds, (toString n).toList = c :: ds ∧
    (∀ d ∈ ds, d.isDigit) ∧ (c.isDigit ∨ c = '-' ∧ ds ≠ []) := by
  have htext := toList_toString n
  by_cases hneg : n < 0
  · rw [if_pos hneg] at htext
    exact ⟨'-', _, htext, fun d => digitChars_isDigit, .inr ⟨rfl, Nat.toDigits_ne_nil⟩⟩
  · rw [if_neg hneg] at htext
    cases hcs : digitChars n.natAbs with
    | nil => exact absurd hcs Nat.toDigits_ne_nil
    | cons d ds =>
      have hdigit : ∀ d' ∈ d :: ds, d'.isDigit := fun d' hd' =>
        digitChars_isDigit (hcs ▸ hd')
      exact ⟨d, ds, htext.trans hcs, fun d' hd' => hdigit d' (by simp [hd']),
        .inl (hdigit d (by simp))⟩

theorem digitRun_of_isDigit (h : ∀ c ∈ ds, c.isDigit) : digitRun false ds = some (ds, []) := by
  induction ds with
  | nil => rfl
  | cons c ds ih => simp [digitRun, h c, ih fun d hd => h d (by simp [hd])]

theorem digitRun_digitChars (m) : digitRun true (digitChars m) = some (digitChars m, []) := by
  cases hds : digitChars m with
  | nil => exact absurd hds Nat.toDigits_ne_nil
  | cons c ds =>
    have hdigit : ∀ d ∈ c :: ds, d.isDigit := fun d hd => digitChars_isDigit (hds ▸ hd)
    have hrest : ∀ d ∈ ds, d.isDigit := fun d hd => hdigit d (by simp [hd])
    simp [digitRun, hdigit c, digitRun_of_isDigit hrest]

theorem ofDigits_digitChars (m) : ofDigits (digitChars m) = m := by
  exact Nat.ofDigitChars_ten_toDigits

theorem digitChars_plain (h : c ∈ digitChars m) :
    asciiForm c = c ∧ isPadding c = false ∧ c ≠ '-' ∧ c ≠ '+' := by
  have hdigit := digitChars_isDigit h
  have hascii : isAscii c := isAscii_of_isAlphanum (by simp [Char.isAlphanum, hdigit])
  exact of_isAscii (P := fun c => c.isDigit → asciiForm c = c ∧ isPadding c = false ∧
    c ≠ '-' ∧ c ≠ '+') (by decide) hascii hdigit

theorem length_digitChars (h : isTooLong n = false) : (digitChars n.natAbs).length ≤ maxDigits := by
  have hpos : 0 < maxDigits := by decide
  simp only [isTooLong, decide_eq_false_iff_not, Nat.not_le] at h
  -- the bound is a power too large to be computed
  generalize maxDigits = k at h hpos ⊢
  exact (Nat.length_toDigits_le_iff (by decide) hpos).mpr h

theorem signed_natAbs (n) : (if n < 0 then -(n.natAbs : Int) else n.natAbs) = n := by
  split <;> omega

theorem takeSign_toString (n : Int) :
    takeSign (((toString n).toList.map asciiForm).dropWhile isPadding) =
      (decide (n < 0), digitChars n.natAbs) := by
  have hdigits : (digitChars n.natAbs).map asciiForm = digitChars n.natAbs :=
    (map_congr_left fun c hc => (digitChars_plain hc).1).trans (List.map_id _)
  rw [toList_toString, map_append, hdigits]
  by_cases hneg : n < 0
  · simp [hneg, asciiForm, isAscii, isPadding, takeSign]
  · cases hds : digitChars n.natAbs with
    | nil => exact absurd hds Nat.toDigits_ne_nil
    | cons c ds =>
      obtain ⟨-, hpad, hminus, hplus⟩ := digitChars_plain (hds ▸ mem_cons_self)
      simp [hneg, hpad, takeSign, hminus, hplus]

theorem isTooLong_of_lt_ten (h : n.natAbs < 10) : isTooLong n = false := by
  have hpos : maxDigits ≠ 0 := by decide
  rw [isTooLong, decide_eq_false_iff_not]
  generalize maxDigits = k at hpos ⊢
  have hpow : 10 ≤ Nat.pow 10 k := Nat.le_self_pow hpos 10
  omega

/-- **Numerals are read back.** -/
theorem readInteger_toString (h : isTooLong n = false) : readInteger (toString n) = .ok n := by
  have hlength := length_digitChars h
  simp only [readInteger, takeSign_toString, digitRun_digitChars, Nat.not_lt.mpr hlength,
    all_nil, ofDigits_digitChars, decide_eq_true_eq, if_true, if_false, signed_natAbs]

theorem exists_run_of_toString (h : isTooLong n = false) :
    ∃ c ds, (toString n).toList = c :: ds ∧ (c.isDigit ∨ c = '-') ∧ (∀ d ∈ ds, isDigit d) ∧
      readInteger (.ofList (c :: ds)) = .ok n ∧
      ∀ rest, (isDigit c || (c = '-' && (ds ++ rest).head?.any isDigit)) = true := by
  obtain ⟨c, ds, htext, hdigits, hc⟩ := toString_eq_cons n
  have hdigit : ∀ {d : Char}, d.isDigit → isDigit d := fun {d} hd =>
    of_isAscii (P := fun d => d.isDigit → isDigit d) (by decide)
      (isAscii_of_isAlphanum (by simp [Char.isAlphanum, hd])) hd
  refine ⟨c, ds, htext, hc.imp_right And.left, fun d hd => hdigit (hdigits d hd), ?_, ?_⟩
  · rw [← htext, String.ofList_toList]
    exact readInteger_toString h
  · intro rest
    rcases hc with hc | ⟨rfl, hne⟩
    · simp [hdigit hc]
    · obtain ⟨d, ds, rfl⟩ := exists_cons_of_ne_nil hne
      simp [hdigit (hdigits d mem_cons_self)]

/-! ### Signs that stand in no numeral -/

def isForeign (c : Char) : Bool := c == '(' || c == '=' || c == '<' || c == '>'

theorem isForeign_plain (h : isForeign c) :
    c.isDigit = false ∧ isPadding c = false ∧ asciiForm c = c ∧ c.toLower = c ∧
      c ∉ ['_', '-', '+', '.', 'e', 'E'] := by
  simp only [isForeign, Bool.or_eq_true, beq_iff_eq] at h
  rcases h with ((rfl | rfl) | rfl) | rfl <;> decide

theorem mem_dropWhile (hc : c ∈ cs) (hp : p c = false) : c ∈ cs.dropWhile p := by
  rw [← takeWhile_append_dropWhile (p := p) (l := cs), mem_append] at hc
  refine hc.resolve_left fun htaken => ?_
  rw [mem_takeWhile_imp htaken] at hp
  cases hp

theorem mem_takeSign (hc : c ∈ cs) (hminus : c ≠ '-') (hplus : c ≠ '+') : c ∈ (takeSign cs).2 := by
  unfold takeSign
  split <;> simp_all

theorem mem_of_digitRun (h : digitRun bare cs = some (ds, rest))
    (hc : c ∈ cs) : c.isDigit ∨ c = '_' ∨ c ∈ rest := by
  fun_induction digitRun bare cs generalizing ds with
  | case1 => cases hc
  | case2 => cases hc
  | case3 bare d cs hd ih =>
    obtain ⟨⟨ds', rest'⟩, hrun, heq⟩ := map_eq_some_iff.mp h
    obtain ⟨rfl, rfl⟩ := Prod.mk.inj heq
    rcases mem_cons.mp hc with rfl | hc
    · exact .inl hd
    · exact ih hrun hc
  | case4 => cases h
  | case5 bare d cs hd hscore hbare ih => grind
  | case6 => cases h
  | case7 bare d cs hd hscore hbare =>
    obtain ⟨-, rfl⟩ := Prod.mk.inj (Option.some.inj h)
    exact .inr (.inr hc)

section

variable {c : Char} {cs : List Char}

theorem readInteger_of_isForeign (hc : isForeign c) (hmem : c ∈ cs) (n) :
    readInteger (.ofList cs) ≠ .ok n := by
  obtain ⟨hdigit, hpadding, hascii, -, hother⟩ := isForeign_plain hc
  simp only [mem_cons, not_or] at hother
  have hbody : c ∈ (takeSign (((String.ofList cs).toList.map asciiForm).dropWhile isPadding)).2 := by
    refine mem_takeSign (mem_dropWhile ?_ hpadding) hother.2.1 hother.2.2.1
    rw [String.toList_ofList]
    exact List.mem_map.mpr ⟨c, hmem, hascii⟩
  intro hread
  unfold readInteger at hread
  simp only [] at hread
  split at hread
  · cases hread
  · next ds rest hrun =>
    split at hread
    · cases hread
    · split at hread
      · next hrest =>
        rcases mem_of_digitRun hrun hbody with h | h | h
        · rw [hdigit] at h
          cases h
        · exact hother.1 h
        · rw [List.all_eq_true.mp hrest c h] at hpadding
          cases hpadding
      · cases hread

theorem mem_dropUnderscores
    (h : dropUnderscores digitBefore cs = some ds) (hmem : c ∈ cs) (hc : c ≠ '_') : c ∈ ds := by
  fun_induction dropUnderscores digitBefore cs generalizing ds with
  | case1 => cases hmem
  | case2 digitBefore d rest hdigit ih =>
    exact ih h ((mem_cons.mp hmem).resolve_left hc)
  | case3 => cases h
  | case4 => cases h
  | case5 digitBefore d rest hd ih =>
    obtain ⟨ds', hdrop, rfl⟩ := map_eq_some_iff.mp h
    rcases mem_cons.mp hmem with rfl | hmem
    · exact (.head _)
    · exact .tail _ (ih hdrop hmem)

theorem readExponent_of_isForeign (hc : isForeign c) (hmem : c ∈ cs) : readExponent cs = none := by
  obtain ⟨hdigit, -, -, -, hother⟩ := isForeign_plain hc
  simp only [mem_cons, not_or] at hother
  cases cs with
  | nil => cases hmem
  | cons d rest =>
    rw [readExponent]
    split
    · next hd =>
      have hne : c ≠ d := by
        rintro rfl
        simp [hother] at hd
      have hrest := mem_takeSign ((mem_cons.mp hmem).resolve_left hne) hother.2.1 hother.2.2.1
      have hall : (takeSign rest).2.all Char.isDigit = false := by
        rw [List.all_eq_false]
        exact ⟨c, hrest, by simp [hdigit]⟩
      simp [hall]
    · rfl

theorem readUnsigned_of_isForeign (hc : isForeign c) (hmem : c ∈ cs) : readUnsigned cs = none := by
  obtain ⟨hdigit, -, -, -, hother⟩ := isForeign_plain hc
  have hrest := mem_dropWhile hmem hdigit
  unfold readUnsigned
  simp only []
  -- the sign stands behind the digits, with or without a fraction
  generalize dropWhile Char.isDigit cs = rest at hrest
  split
  next r =>
    have hbehind : c ∈ r := (mem_cons.mp hrest).resolve_left fun h => by simp [h] at hother
    simp [readExponent_of_isForeign hc (mem_dropWhile hbehind hdigit)]
  next => simp [readExponent_of_isForeign hc hrest]

theorem unreadable_of_isForeign (hc : isForeign c) (hmem : c ∈ cs) :
    (∀ s ∈ ["inf", "infinity", "nan"],
      (String.ofList ((takeSign cs).2.map Char.toLower) == s) = false) ∧
      readUnsigned (takeSign cs).2 = none := by
  obtain ⟨-, -, -, hlower, hother⟩ := isForeign_plain hc
  simp only [mem_cons, not_or] at hother
  have hbody := mem_takeSign hmem hother.2.1 hother.2.2.1
  refine ⟨fun s hs => ?_, readUnsigned_of_isForeign hc hbody⟩
  rw [beq_eq_false_iff_ne]
  intro heq
  have hword : c ∈ s.toList := by
    rw [← heq, String.toList_ofList]
    exact List.mem_map.mpr ⟨c, hbody, hlower⟩
  have hletters : ∀ d ∈ s.toList, isForeign d = false := by
    simp only [mem_cons, not_mem_nil, or_false] at hs
    rcases hs with rfl | rfl | rfl <;> simp [isForeign]
  rw [hletters c hword] at hc
  cases hc

theorem readFloat_of_isForeign (hc : isForeign c) (hmem : c ∈ cs) :
    readFloat (.ofList cs) = none := by
  obtain ⟨-, hpadding, hascii, -, hother⟩ := isForeign_plain hc
  have hscore : c ≠ '_' := fun h => by simp [h] at hother
  have htrim : c ∈ trimBy isPadding ((String.ofList cs).toList.map asciiForm) := by
    rw [trimBy, dropEnd, List.mem_reverse]
    refine mem_dropWhile (List.mem_reverse.mpr (mem_dropWhile ?_ hpadding)) hpadding
    rw [String.toList_ofList]
    exact List.mem_map.mpr ⟨c, hmem, hascii⟩
  unfold readFloat
  simp only [bind_eq_bind]
  split
  · cases hdrop : dropUnderscores false (trimBy isPadding ((String.ofList cs).toList.map asciiForm)) with
    | none => rfl
    | some plain =>
      obtain ⟨hnoword, hnone⟩ := unreadable_of_isForeign hc (mem_dropUnderscores hdrop htrim hscore)
      simp only [bind_some, hnoword "inf" (by simp), hnoword "infinity" (by simp),
        hnoword "nan" (by simp), Bool.or_self, Bool.false_eq_true, if_false, hnone, bind_none]
  · obtain ⟨hnoword, hnone⟩ := unreadable_of_isForeign hc htrim
    simp only [bind_some, hnoword "inf" (by simp), hnoword "infinity" (by simp),
      hnoword "nan" (by simp), Bool.or_self, Bool.false_eq_true, if_false, hnone, bind_none]

end

end Rulebook.Numeral
