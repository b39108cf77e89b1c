/-
Numerals of floating-point numbers.

A decimal numeral is spelled with a whole part, a fraction and an exponent. Digits are laid out as
such a numeral, and the numeral is read as the number that the digits round to.
-/

import Rulebook.Proofs.Numeral.Rounding

open List

namespace Rulebook.Numeral

open Text

variable {m : Nat} {q : Int} {negative : Bool}

/-! ### Spelled decimals -/

theorem ofDigits_append (a b) : ofDigits (a ++ b) = ofDigits a * 10 ^ b.length + ofDigits b := by
  induction b using reverseRecOn with
  | nil => simp [ofDigits]
  | append_singleton b c ih =>
    simp only [ofDigits, foldl_append, foldl_cons, foldl_nil, length_append,
      length_singleton] at ih ⊢
    rw [ih]
    ring

theorem ofDigits_replicate_zero (n) : ofDigits (replicate n '0') = 0 := by
  induction n with
  | zero => rfl
  | succ n ih => rw [replicate_succ', ofDigits_append, ih]; rfl

theorem ofDigits_zero_cons (ds) : ofDigits ('0' :: ds) = ofDigits ds := rfl

/-- The parts of a decimal numeral without its sign: the digits before and after the point and the
exponent, a sign and digits. -/
structure Spelling where
  whole : List Char
  fraction : List Char := []
  exponent : Option (Bool × List Char) := none

namespace Spelling

def fractionChars (s : Spelling) : List Char :=
  if s.fraction = [] then [] else '.' :: s.fraction

def exponentChars (s : Spelling) : List Char :=
  match s.exponent with
  | none => []
  | some (negative, ds) => 'e' :: (if negative then '-' else '+') :: ds

def chars (s : Spelling) : List Char := s.whole ++ s.fractionChars ++ s.exponentChars

def digits (s : Spelling) : Nat := ofDigits (s.whole ++ s.fraction)

def power (s : Spelling) : Int :=
  (match s.exponent with
    | none => 0
    | some (negative, ds) => if negative then -(ofDigits ds : Int) else ofDigits ds) -
    s.fraction.length

/-- The parts are made of digits, and there is a whole part: a zero alone, or digits that start with
none. -/
structure Sound (s : Spelling) : Prop where
  whole : ∀ c ∈ s.whole, c.isDigit
  starts : s.whole = ['0'] ∨ ∃ c cs, s.whole = c :: cs ∧ c ≠ '0'
  fraction : ∀ c ∈ s.fraction, c.isDigit
  exponent : ∀ negative ds, s.exponent = some (negative, ds) →
    ds ≠ [] ∧ ds.length ≤ 6 ∧ ∀ c ∈ ds, c.isDigit

def Marked (s : Spelling) : Prop := s.fraction ≠ [] ∨ s.exponent ≠ none

variable {s : Spelling}

theorem Sound.whole_ne_nil (h : s.Sound) : s.whole ≠ [] := by
  rcases h.starts with h | ⟨c, cs, h, -⟩ <;> simp [h]

theorem exponentChars_cases (s : Spelling) :
    s.exponentChars = [] ∨ ∃ cs, s.exponentChars = 'e' :: cs := by
  unfold exponentChars
  split
  · exact .inl rfl
  · exact .inr ⟨_, rfl⟩

theorem head_exponentChars (s : Spelling) : ∀ c ∈ s.exponentChars.head?, c = 'e' := by
  rcases s.exponentChars_cases with h | ⟨cs, h⟩ <;> simp [h]

theorem head_afterWhole (s : Spelling) :
    ∀ c ∈ (s.fractionChars ++ s.exponentChars).head?, c = '.' ∨ c = 'e' := by
  intro c hc
  by_cases h : s.fraction = []
  · rw [fractionChars, if_pos h] at hc
    exact .inr (s.head_exponentChars c hc)
  · rw [fractionChars, if_neg h] at hc
    left
    simpa using hc.symm

theorem readExponent_chars (h : s.Sound) : readExponent s.exponentChars =
    some (s.power + s.fraction.length) := by
  rw [power, sub_add_cancel, exponentChars]
  cases hexponent : s.exponent with
  | none => rfl
  | some e =>
    obtain ⟨negative, ds⟩ := e
    obtain ⟨hne, hlength, hdigits⟩ := h.exponent negative ds hexponent
    have hall : ds.all Char.isDigit = true := all_eq_true.mpr hdigits
    have hempty : ds.isEmpty = false := by simpa using hne
    cases negative <;> simp [readExponent, takeSign, hempty, hall, Nat.not_lt.mpr hlength]

theorem readUnsigned_chars (h : s.Sound) :
    readUnsigned s.chars = some (ofDecimal s.digits s.power) := by
  have hstop : ∀ c ∈ (s.fractionChars ++ s.exponentChars).head?, c.isDigit = false := by
    intro c hc
    rcases s.head_afterWhole c hc with rfl | rfl <;> rfl
  have hstop' : ∀ c ∈ s.exponentChars.head?, c.isDigit = false := by
    intro c hc
    rw [s.head_exponentChars c hc]
    rfl
  rw [readUnsigned, chars, append_assoc]
  simp only [takeWhile_append_of_stop h.whole hstop, dropWhile_append_of_stop h.whole hstop]
  have hexponent := readExponent_chars h
  by_cases hfraction : s.fraction = []
  · rw [fractionChars]
    rcases s.exponentChars_cases with hchars | ⟨cs, hchars⟩
    all_goals
      rw [hchars] at hexponent ⊢
      simp [hexponent, h.whole_ne_nil, digits, hfraction]
  · rw [fractionChars, if_neg hfraction]
    simp [takeWhile_append_of_stop h.fraction hstop', dropWhile_append_of_stop h.fraction hstop',
      h.whole_ne_nil, hexponent, digits]

end Spelling

theorem trimBy_of_forall (h : ∀ c ∈ cs, p c = false) : trimBy p cs = cs := by
  have hkeep : ∀ {cs : List Char}, (∀ c ∈ cs, p c = false) → cs.dropWhile p = cs := by
    intro cs h
    cases cs with
    | nil => rfl
    | cons c cs => simp [h c]
  rw [trimBy, dropEnd, hkeep h, hkeep (by simpa using h), reverse_reverse]

namespace Spelling

variable {s : Spelling}

def IsPart (c : Char) : Prop := c.isDigit ∨ c ∈ ['.', 'e', 'E', '-', '+']

theorem IsPart.plain (h : IsPart c) :
    asciiForm c = c ∧ isPadding c = false ∧ c ≠ '_' ∧ c.toLower ≠ 'n' := by
  have hascii : isAscii c := by
    rcases h with h | h
    · exact isAscii_of_isAlphanum (by simp [Char.isAlphanum, h])
    · fin_cases h <;> rfl
  exact of_isAscii (P := fun c => (c.isDigit ∨ c ∈ ['.', 'e', 'E', '-', '+']) →
    asciiForm c = c ∧ isPadding c = false ∧ c ≠ '_' ∧ c.toLower ≠ 'n') (by decide) hascii h

theorem takeSign_subset (cs) : (takeSign cs).2 ⊆ cs := by
  unfold takeSign
  split
  · exact subset_cons_self _ _
  · exact subset_cons_self _ _
  · exact List.Subset.refl _

theorem readFloat_of_isPart (h : ∀ c ∈ cs, IsPart c) :
    readFloat (.ofList cs) = (readUnsigned (takeSign cs).2).map fun x =>
      if (takeSign cs).1 then -x else x := by
  have hform : cs.map asciiForm = cs :=
    (map_congr_left fun c hc => (h c hc).plain.1).trans (map_id cs)
  have htrim : trimBy isPadding cs = cs := trimBy_of_forall fun c hc => (h c hc).plain.2.1
  have hunderscore : cs.contains '_' = false := by
    rw [contains_eq_mem, decide_eq_false_iff_not]
    exact fun hc => (h '_' hc).plain.2.2.1 rfl
  -- the names of infinities and of NaN have an n
  have hword : ∀ word : String, 'n' ∈ word.toList →
      (String.ofList ((takeSign cs).2.map Char.toLower) == word) = false := by
    intro word hmem
    rw [beq_eq_false_iff_ne]
    rintro rfl
    rw [String.toList_ofList, mem_map] at hmem
    obtain ⟨c, hc, hn⟩ := hmem
    exact (h c (takeSign_subset cs hc)).plain.2.2.2 hn
  rw [readFloat, String.toList_ofList, hform, htrim, hunderscore]
  simp only [Option.bind_some, Option.bind_eq_bind]
  rw [hword "inf" (by decide), hword "infinity" (by decide), hword "nan" (by decide)]
  exact Option.map_eq_bind.symm

theorem Sound.isPart (h : s.Sound) (hc : c ∈ s.chars) : IsPart c := by
  rw [chars, fractionChars, exponentChars] at hc
  rcases mem_append.mp hc with hc | hc
  · rcases mem_append.mp hc with hc | hc
    · exact .inl (h.whole c hc)
    · split at hc
      · cases hc
      · rcases mem_cons.mp hc with rfl | hc
        · exact .inr (by decide)
        · exact .inl (h.fraction c hc)
  · split at hc
    case h_1 => cases hc
    case h_2 negative ds hexponent =>
      rcases mem_cons.mp hc with rfl | hc
      · exact .inr (by decide)
      · rcases mem_cons.mp hc with rfl | hc
        · cases negative <;> exact .inr (by decide)
        · exact .inl ((h.exponent negative ds hexponent).2.2 c hc)

theorem Sound.exists_chars (h : s.Sound) : ∃ c cs, s.chars = c :: cs ∧ c.isDigit := by
  obtain ⟨c, cs, hwhole⟩ := exists_cons_of_ne_nil h.whole_ne_nil
  refine ⟨c, cs ++ s.fractionChars ++ s.exponentChars, ?_, h.whole c (by simp [hwhole])⟩
  rw [chars, hwhole]
  rfl

theorem readFloat_chars (h : s.Sound) (negative : Bool) :
    readFloat (.ofList ((if negative then ['-'] else []) ++ s.chars)) =
      some (if negative then -ofDecimal s.digits s.power else ofDecimal s.digits s.power) := by
  set cs := (if negative then ['-'] else []) ++ s.chars with hcs
  have hpart : ∀ c ∈ cs, IsPart c := by
    intro c hc
    rcases mem_append.mp hc with hc | hc
    · cases negative
      · cases hc
      · obtain rfl := mem_singleton.mp hc
        exact .inr (by decide)
    · exact h.isPart hc
  obtain ⟨c, rest, hchars, hdigit⟩ := h.exists_chars
  have hsign : takeSign cs = (negative, s.chars) := by
    cases negative with
    | true => rfl
    | false =>
      rw [hcs]
      unfold takeSign
      split
      · simp_all
      · simp_all
      · rfl
  rw [readFloat_of_isPart hpart, hsign, readUnsigned_chars h]
  rfl

end Spelling

/-! ### Laid out digits -/

theorem ofDigits_lt (h : ∀ c ∈ ds, c.isDigit) : ofDigits ds < 10 ^ ds.length := by
  induction ds using reverseRecOn with
  | nil => exact Nat.one_pos
  | append_singleton ds c ih =>
    have hdigit : c.isDigit := h c (by simp)
    have hlast : ofDigits [c] < 10 := of_isAscii (P := fun c => c.isDigit → ofDigits [c] < 10)
      (by decide) (isAscii_of_isAlphanum (by simp [Char.isAlphanum, hdigit])) hdigit
    have hfront := ih fun c hc => h c (by simp [hc])
    rw [ofDigits_append, length_append, length_singleton]
    omega

theorem isDigit_of_digitRun (h : digitRun bare cs = some (ds, rest)) : ∀ c ∈ ds, c.isDigit := by
  fun_induction digitRun bare cs generalizing ds with
  | case1 | case4 | case6 => cases h
  | case2 | case7 =>
    cases h
    simp
  | case3 bare c cs hc ih =>
    obtain ⟨⟨ds', rest'⟩, hrun, heq⟩ := Option.map_eq_some_iff.mp h
    cases heq
    exact forall_mem_cons.mpr ⟨hc, ih hrun⟩
  | case5 _ _ _ _ _ _ ih => exact ih h

theorem isTooLong_of_readInteger (h : readInteger text = .ok n) : isTooLong n = false := by
  simp only [readInteger] at h
  split at h
  · cases h
  · next ds rest hrun =>
    split at h
    · cases h
    next hlength =>
    split at h
    · have hlt := ofDigits_lt (isDigit_of_digitRun hrun)
      have hmax : ds.length ≤ maxDigits := Nat.le_of_not_lt hlength
      have habs : n.natAbs = ofDigits ds := by
        cases h
        split <;> simp
      rw [isTooLong, decide_eq_false_iff_not, habs]
      generalize maxDigits = k at hmax ⊢
      exact Nat.not_le.mpr (Nat.lt_of_lt_of_le hlt (Nat.pow_le_pow_right (by decide) hmax))
    · cases h

theorem digitChars_eq_cons (h : 0 < n) : ∃ c cs, digitChars n = c :: cs ∧ c ≠ '0' := by
  obtain ⟨c, cs, hchars⟩ : ∃ c cs, digitChars n = c :: cs :=
    exists_cons_of_ne_nil Nat.toDigits_ne_nil
  refine ⟨c, cs, hchars, ?_⟩
  rintro rfl
  have hvalue : ofDigits cs = n := by
    rw [← ofDigits_zero_cons, ← hchars, ofDigits_digitChars]
  have hlt : ofDigits cs < 10 ^ cs.length :=
    ofDigits_lt fun c hc => digitChars_isDigit (hchars ▸ mem_cons_of_mem _ hc)
  have hle := pow_digitCount_le h
  have hcount : digitCount n = (digitChars n).length := rfl
  rw [hcount, hchars, length_cons, Nat.add_sub_cancel] at hle
  omega

theorem significant_append (n) : ∃ k, digitChars n = significant n ++ replicate k '0' := by
  refine ⟨((digitChars n).reverse.takeWhile (· == '0')).length, ?_⟩
  have hzeros : (digitChars n).reverse.takeWhile (· == '0') =
      replicate ((digitChars n).reverse.takeWhile (· == '0')).length '0' := by
    refine eq_replicate_iff.mpr ⟨rfl, fun c hc => ?_⟩
    simpa using mem_takeWhile_imp hc
  rw [← reverse_replicate, ← hzeros, significant, dropEnd, ← reverse_append,
    takeWhile_append_dropWhile, reverse_reverse]

theorem significant_eq_cons (h : 0 < n) : ∃ c cs, significant n = c :: cs ∧ c ≠ '0' := by
  obtain ⟨c, cs, hchars, hc⟩ := digitChars_eq_cons h
  obtain ⟨k, happend⟩ := significant_append n
  cases hsignificant : significant n with
  | nil =>
    rw [hsignificant, hchars, nil_append] at happend
    have hmem : c ∈ replicate k '0' := happend ▸ (.head _)
    exact absurd (eq_of_mem_replicate hmem) hc
  | cons d ds => grind

def exponentDigits (n : Nat) : List Char :=
  if (digitChars n).length < 2 then '0' :: digitChars n else digitChars n

def spell (ds : List Char) (point : Int) : Spelling :=
  if -4 < point && point ≤ 16 then
    if point ≤ 0 then ⟨['0'], replicate (-point).toNat '0' ++ ds, none⟩
    else
      ⟨ds.take point.toNat ++ replicate (point.toNat - ds.length) '0',
        if (ds.drop point.toNat).isEmpty then ['0'] else ds.drop point.toNat, none⟩
  else ⟨ds.take 1, ds.drop 1, some (point - 1 < 0, exponentDigits (point - 1).natAbs)⟩

section

variable {ds : List Char} {point : Int}

theorem toList_layOut (hstart : ∃ c cs, ds = c :: cs ∧ c ≠ '0') :
    (layOut ds point).toList = (spell ds point).chars := by
  obtain ⟨c, cs, rfl, -⟩ := hstart
  unfold layOut spell
  split
  · split
    · simp [Spelling.chars, Spelling.fractionChars, Spelling.exponentChars]
    · have hfraction : ¬ (if (drop point.toNat (c :: cs)).isEmpty then ['0']
          else drop point.toNat (c :: cs)) = [] := by
        split <;> simp_all
      simp only [Spelling.chars, Spelling.fractionChars, Spelling.exponentChars, if_neg hfraction]
      simp
  · have hexponent : (if (toString (point - 1).natAbs).length < 2
          then "0" ++ toString (point - 1).natAbs else toString (point - 1).natAbs).toList =
        exponentDigits (point - 1).natAbs := by
      have hlength : (toString (point - 1).natAbs).length =
          (digitChars (point - 1).natAbs).length := by
        rw [← toList_toString_nat, String.length_toList]
      rw [exponentDigits, hlength]
      split
      · rw [String.toList_append, toList_toString_nat]
        rfl
      · exact toList_toString_nat _
    cases cs with
    | nil => 
      simp [Spelling.chars, Spelling.fractionChars, Spelling.exponentChars]
      split <;> simp_all
    | cons d cs =>
      simp [Spelling.chars, Spelling.fractionChars, Spelling.exponentChars]
      split <;> simp_all

theorem exponentDigits_isDigit (h : c ∈ exponentDigits n) : c.isDigit := by
  rw [exponentDigits] at h
  split at h
  · rcases mem_cons.mp h with rfl | h
    · rfl
    · exact digitChars_isDigit h
  · exact digitChars_isDigit h

theorem ofDigits_exponentDigits (n) : ofDigits (exponentDigits n) = n := by
  rw [exponentDigits]
  split
  · rw [ofDigits_zero_cons, ofDigits_digitChars]
  · exact ofDigits_digitChars n

theorem length_exponentDigits (h : n < 10 ^ 6) : (exponentDigits n).length ≤ 6 := by
  have hlength : (digitChars n).length ≤ 6 :=
    (Nat.length_toDigits_le_iff (by decide) (by decide)).mpr h
  rw [exponentDigits]
  split
  · rw [length_cons]
    omega
  · exact hlength

theorem sound_spell (hdigits : ∀ c ∈ ds, c.isDigit) (hstart : ∃ c cs, ds = c :: cs ∧ c ≠ '0')
    (hpoint : point.natAbs < 1000) : (spell ds point).Sound := by
  obtain ⟨c, cs, rfl, hc⟩ := hstart
  have hzeros : ∀ n, ∀ d ∈ replicate n '0', d.isDigit := by
    simp
  unfold spell
  split
  case isTrue =>
    split
    case isTrue =>
      constructor
      · simp
      · exact .inl rfl
      · grind
      · intro negative ds h
        cases h
    case isFalse hpos =>
      constructor
      · grind
      · right
        obtain ⟨n, hn⟩ : ∃ n, point.toNat = n + 1 := ⟨point.toNat - 1, by omega⟩
        rw [hn]
        exact ⟨c, _, rfl, hc⟩
      · intro d hd
        split at hd
        · obtain rfl := mem_singleton.mp hd
          rfl
        · exact hdigits d (mem_of_mem_drop hd)
      · intro negative ds h
        cases h
  case isFalse =>
    constructor
    · intro d hd
      exact hdigits d (mem_of_mem_take hd)
    · exact .inr ⟨c, [], rfl, hc⟩
    · intro d hd
      exact hdigits d (mem_of_mem_drop hd)
    · rintro negative ds h
      cases h
      refine ⟨?_, length_exponentDigits (by omega), fun d hd => exponentDigits_isDigit hd⟩
      rw [exponentDigits]
      split
      · exact cons_ne_nil _ _
      · exact Nat.toDigits_ne_nil

theorem marked_spell (hstart : ∃ c cs, ds = c :: cs ∧ c ≠ '0') : (spell ds point).Marked := by
  obtain ⟨c, cs, rfl, -⟩ := hstart
  unfold spell
  split
  · left
    split
    · simp
    · dsimp only
      split <;> simp_all
  · right
    simp

theorem value_spell (hstart : ∃ c cs, ds = c :: cs ∧ c ≠ '0') :
    ((spell ds point).digits * 10 ^ (spell ds point).power : ℚ) =
      ofDigits ds * 10 ^ (point - ds.length) := by
  obtain ⟨c, cs, hds, -⟩ := hstart
  unfold spell
  split
  case isTrue =>
    split
    case isTrue hpoint =>
      have hpower : (0 : Int) - ((replicate (-point).toNat '0' ++ ds).length : Int) =
          point - ds.length := by
        rw [length_append, length_replicate]
        omega
      simp only [Spelling.digits, Spelling.power, hpower]
      rw [singleton_append, ofDigits_zero_cons, ofDigits_append, ofDigits_replicate_zero,
        zero_mul, zero_add]
    case isFalse hpoint =>
      by_cases hlength : ds.length ≤ point.toNat
      · have hdrop : ds.drop point.toNat = [] := drop_eq_nil_of_le hlength
        have hpower : point - ds.length = ((point.toNat - ds.length : Nat) : Int) := by omega
        simp only [Spelling.digits, Spelling.power, hdrop, take_of_length_le hlength, hpower]
        rw [ofDigits_append, ofDigits_append, ofDigits_replicate_zero]
        simp [ofDigits]
      · have hdrop : (ds.drop point.toNat).isEmpty = false := by
          simp
          omega
        have hpower : (0 : Int) - ((ds.drop point.toNat).length : Int) = point - ds.length := by
          rw [length_drop]
          omega
        simp only [Spelling.digits, Spelling.power, hdrop, Bool.false_eq_true, if_false, hpower,
          Nat.sub_eq_zero_of_le (Nat.le_of_not_le hlength), replicate_zero, append_nil,
          take_append_drop]
  case isFalse =>
    have hpower : (if decide (point - 1 < 0) = true then
        -(ofDigits (exponentDigits (point - 1).natAbs) : Int)
        else ofDigits (exponentDigits (point - 1).natAbs)) - ((ds.drop 1).length : Int) =
        point - ds.length := by
      rw [ofDigits_exponentDigits, length_drop, hds, length_cons]
      simp only [decide_eq_true_eq]
      split <;> omega
    simp only [Spelling.digits, Spelling.power, hpower, take_append_drop]

end

/-! ### Numbers are read back -/

theorem value_significant (n) (e : Int) :
    (ofDigits (significant n) : ℚ) * 10 ^ (digitCount n + e - (significant n).length) =
      n * 10 ^ e := by
  obtain ⟨k, happend⟩ := significant_append n
  have hlength : digitCount n = (significant n).length + k := by
    change (digitChars n).length = _
    rw [happend, length_append, length_replicate]
  have hvalue : ofDigits (significant n) * 10 ^ k = n := by
    have hwhole := ofDigits_digitChars n
    rwa [happend, ofDigits_append, ofDigits_replicate_zero, length_replicate] at hwhole
  have hpower : (digitCount n + e - (significant n).length : Int) = k + e := by omega
  have hcast : (n : ℚ) = ofDigits (significant n) * 10 ^ k := by exact_mod_cast hvalue.symm
  rw [hpower, zpow_add₀ (by norm_num), zpow_natCast, ← mul_assoc, ← hcast]

theorem exists_spelling_layOut (hc : Canonical m q) (hm : 0 < m) :
    ∃ s : Spelling, s.Sound ∧ s.Marked ∧ (layOut (significant (shortest m q).digits)
        (digitCount (shortest m q).digits + (shortest m q).exponent)).toList = s.chars ∧
      ofDecimal s.digits s.power = ofParts m q := by
  have hrounds := shortest_rounds hc hm
  obtain ⟨hpos, hsmall, hlarge⟩ := size_of_rounds hc hm hrounds
  generalize shortest m q = d at *
  have hstart := significant_eq_cons hpos
  have hdigits : ∀ c ∈ significant d.digits, c.isDigit := by
    intro c hc
    obtain ⟨k, happend⟩ := significant_append d.digits
    apply digitChars_isDigit (m := d.digits)
    rw [happend]
    exact mem_append_left _ hc
  refine ⟨spell _ _, sound_spell hdigits hstart (by omega), marked_spell hstart,
    toList_layOut hstart, ?_⟩
  apply ofDecimal_of_rounds hc hm
  rwa [value_spell hstart, value_significant]

theorem exists_spelling (h : parts x = .finite negative m q) : ∃ s : Spelling, s.Sound ∧ s.Marked ∧
      (floatText x).toList = (if negative then ['-'] else []) ++ s.chars ∧
      (if negative then -ofDecimal s.digits s.power else ofDecimal s.digits s.power) = x := by
  obtain ⟨hc, hx⟩ := eq_ofParts h
  have htext : ∀ body : String, (if negative then "-" ++ body else body).toList =
      (if negative then ['-'] else []) ++ body.toList := by
    intro body
    cases negative
    · rfl
    · exact String.toList_append
  simp only [floatText, h, htext]
  rcases Nat.eq_zero_or_pos m with rfl | hm
  · have hzero : ofParts 0 q = 0.0 := by
      change Float.ofBits 0 = 0.0
      decide
    have hdigit : ∀ c ∈ ['0'], c.isDigit := by
      simp
    refine ⟨⟨['0'], ['0'], none⟩, ?_, .inl (cons_ne_nil _ _), ?_, ?_⟩
    · exact ⟨hdigit, .inl rfl, hdigit, fun _ _ h => by cases h⟩
    · simp only [beq_self_eq_true, if_true]
      rfl
    · rw [hx, hzero]
      rfl
  · obtain ⟨s, hsound, hmarked, hchars, hvalue⟩ := exists_spelling_layOut hc hm
    have hne : (m == 0) = false := by simpa using hm.ne'
    refine ⟨s, hsound, hmarked, ?_, ?_⟩
    · rw [← hchars, hne]
      rfl
    · rw [hx, hvalue]

theorem readFloat_floatText (h : parts x = .finite negative m q) :
    readFloat (floatText x) = some x := by
  obtain ⟨s, hsound, -, htext, hx⟩ := exists_spelling h
  rw [← String.ofList_toList (s := floatText x), htext, Spelling.readFloat_chars hsound, hx]

end Rulebook.Numeral
