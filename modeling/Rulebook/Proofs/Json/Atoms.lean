/-
The atoms of JSON text.

Strings, numbers and named constants are read back from their text, whatever stands after it.
Half of a pair of surrogates is read back alone, unless the other half follows it.
-/

import Rulebook.Json
import Rulebook.Proofs.Numeral.Spelling

namespace Rulebook.Json

open List Text Numeral Nat

variable {n : Nat} {rest cs word : List Char} {c : Char} {ascii : Bool}

/-! ### Characters and their codes -/

theorem isSurrogate_toNat (c : Char) : isSurrogate c.toNat = false := by
  have hvalid : c.toNat < 0xd800 ∨ 0xdfff < c.toNat ∧ c.toNat < 0x110000 := c.valid
  simp only [isSurrogate, Bool.and_eq_false_iff, decide_eq_false_iff_not]
  omega

theorem charOf_codeOf (c) : charOf (codeOf c) = c := by
  rw [codeOf]
  split
  case isTrue h =>
    have hge : standInShift ≤ c.toNat := by
      simp only [isSurrogate, Bool.and_eq_true, decide_eq_true_eq] at h
      omega
    rw [charOf, if_pos h, Nat.sub_add_cancel hge, Char.ofNat_toNat]
  case isFalse h =>
    rw [charOf, isSurrogate_toNat, if_neg Bool.false_ne_true, Char.ofNat_toNat]

theorem codeOf_lt (c) : codeOf c < 0x110000 := by
  have hvalid : c.toNat < 0xd800 ∨ 0xdfff < c.toNat ∧ c.toNat < 0x110000 := c.valid
  rw [codeOf]
  split <;> omega

def IsHigh (c : Char) : Prop := 0xd800 ≤ codeOf c ∧ codeOf c ≤ 0xdbff

def IsLow (c : Char) : Prop := 0xdc00 ≤ codeOf c ∧ codeOf c ≤ 0xdfff

def Unpaired (cs : List Char) : Prop := cs.IsChain fun c d => ¬ (IsHigh c ∧ IsLow d)

/-! ### Hexadecimal digits -/

theorem hexNat_append (a b) : hexNat (a ++ b) = hexNat a * 16 ^ b.length + hexNat b := by
  induction b using reverseRecOn with
  | nil => simp [hexNat]
  | append_singleton b c ih =>
    simp only [hexNat, foldl_append, foldl_cons, foldl_nil, length_append, length_singleton] at ih ⊢
    rw [ih]
    ring

theorem isHex_digitChar (h : n < 16) : isHex n.digitChar = true ∧ hexValue n.digitChar = n := by
  interval_cases n <;> decide

theorem toDigits_hex (n) : (∀ c ∈ toDigits 16 n, isHex c) ∧ hexNat (toDigits 16 n) = n := by
  induction n using Nat.strongRecOn with
  | ind n ih =>
    rw [toDigits_eq_if (by decide)]
    split
    case isTrue h =>
      have hdigit := isHex_digitChar h
      simp [hexNat, hdigit]
    case isFalse h =>
      obtain ⟨hhex, hvalue⟩ := ih (n / 16) (by omega)
      have hdigit := isHex_digitChar (mod_lt n (by decide : 0 < 16))
      constructor
      · intro c hc
        rcases mem_append.mp hc with hc | hc
        · exact hhex c hc
        · rw [mem_singleton.mp hc]
          exact hdigit.1
      · rw [hexNat_append, hvalue]
        simp [hexNat]
        omega

theorem hexPadded_four (h : n < 0x10000) :
    ∃ a b c d, (hexPadded 4 n).toList = [a, b, c, d] ∧ [a, b, c, d].all isHex ∧
      hexNat [a, b, c, d] = n := by
  obtain ⟨hhex, hvalue⟩ := toDigits_hex n
  have hlength : (toDigits 16 n).length ≤ 4 :=
    (length_toDigits_le_iff (by decide) (by decide)).mpr h
  have htext : (hexPadded 4 n).toList =
      replicate (4 - (toDigits 16 n).length) '0' ++ toDigits 16 n :=
    String.toList_ofList
  have hzeros : ∀ k, hexNat (replicate k '0') = 0 := by
    intro k
    induction k with
    | zero => rfl
    | succ k ih =>
      rw [replicate_succ', hexNat_append, ih]
      rfl
  have hall : (hexPadded 4 n).toList.all isHex := by
    rw [htext, all_append, Bool.and_eq_true]
    refine ⟨all_eq_true.mpr fun c hc => ?_, all_eq_true.mpr hhex⟩
    rw [eq_of_mem_replicate hc]
    rfl
  have hnumber : hexNat (hexPadded 4 n).toList = n := by
    rw [htext, hexNat_append, hzeros]
    omega
  have hfour : (hexPadded 4 n).toList.length = 4 := by
    rw [htext, length_append, length_replicate]
    omega
  obtain ⟨a, b, c, d, hchars⟩ := length_eq_four.mp hfour
  rw [hchars] at hall hnumber
  exact ⟨a, b, c, d, hchars, hall, hnumber⟩

theorem fourHex?_hexPadded (h : n < 0x10000) (hrest : rest ≠ []) :
    fourHex? ((hexPadded 4 n).toList ++ rest) = some (n, rest) := by
  obtain ⟨a, b, c, d, hchars, hall, hvalue⟩ := hexPadded_four h
  obtain ⟨e, rest, rfl⟩ := exists_cons_of_ne_nil hrest
  rw [hchars]
  simp [fourHex?, hall, hvalue]

/-! ### Strings -/

/-- Text does not go on with the escape of the second half of a pair of surrogates. -/
def NoLow (cs : List Char) : Prop := ∀ more, cs = '\\' :: 'u' :: more →
  ∃ lo after, fourHex? more = some (lo, after) ∧ ¬ (0xdc00 ≤ lo ∧ lo ≤ 0xdfff)

theorem unicodeChar?_pair (hhi : 0xd800 ≤ hi ∧ hi ≤ 0xdbff)
    (hlo : 0xdc00 ≤ lo ∧ lo ≤ 0xdfff) (hrest : rest ≠ []) : unicodeChar? ((hexPadded 4 hi).toList ++
        '\\' :: 'u' :: ((hexPadded 4 lo).toList ++ rest)) =
      some (some (Char.ofNat (0x10000 + (hi - 0xd800) * 0x400 + (lo - 0xdc00)), rest)) := by
  have hlength : ¬ ((hexPadded 4 lo).toList ++ rest).length ≤ 4 := by
    obtain ⟨a, b, c, d, hchars, -, -⟩ := hexPadded_four (n := lo) (by omega)
    have hpos := length_pos_of_ne_nil hrest
    rw [hchars, length_append, length_cons, length_cons, length_cons,
      length_singleton]
    omega
  rw [unicodeChar?, fourHex?_hexPadded (by omega) (cons_ne_nil _ _)]
  dsimp only
  rw [if_pos (by simpa using hhi)]
  simp only [if_neg hlength, fourHex?_hexPadded (by omega : lo < 0x10000) hrest]
  rw [if_pos (by simpa using hlo)]

theorem unicodeChar?_single (h : n < 0x10000) (hrest : rest ≠ [])
    (hlow : 0xd800 ≤ n ∧ n ≤ 0xdbff → NoLow rest) :
    unicodeChar? ((hexPadded 4 n).toList ++ rest) = some (some (charOf n, rest)) := by
  rw [unicodeChar?, fourHex?_hexPadded h hrest]
  dsimp only
  split
  case isTrue hhigh =>
    split
    case h_1 more =>
      obtain ⟨lo, after, hfour, hnot⟩ := hlow (by simpa using hhigh) more rfl
      split
      · rfl
      · rw [hfour]
        dsimp only
        rw [if_neg (by simpa using hnot)]
    case h_2 => rfl
  case isFalse => rfl

theorem unicodeChar?_escape (hrest : rest ≠ []) (hlow : IsHigh c → NoLow rest) :
    ∃ cs, (unicodeEscape (codeOf c)).toList = '\\' :: 'u' :: cs ∧
      unicodeChar? (cs ++ rest) = some (some (c, rest)) := by
  have hlt := codeOf_lt c
  have hchar := charOf_codeOf c
  rw [IsHigh] at hlow
  generalize codeOf c = n at *
  rw [unicodeEscape]
  split
  case isTrue h => simp_all [String.toList_append, unicodeChar?_single]
  case isFalse h =>
    have hscalar : isSurrogate n = false := by
      simp only [isSurrogate, Bool.and_eq_false_iff, decide_eq_false_iff_not]
      omega
    rw [charOf, hscalar, if_neg Bool.false_ne_true] at hchar
    refine ⟨(hexPadded 4 (0xd800 + (n - 0x10000) / 0x400)).toList ++
      '\\' :: 'u' :: (hexPadded 4 (0xdc00 + (n - 0x10000) % 0x400)).toList, ?_, ?_⟩
    · simp only [String.toList_append, append_assoc]
      rfl
    · rw [append_assoc, cons_append, cons_append,
        unicodeChar?_pair (by omega) (by omega) hrest]
      have hcode : 0x10000 + (0xd800 + (n - 0x10000) / 0x400 - 0xd800) * 0x400 +
          (0xdc00 + (n - 0x10000) % 0x400 - 0xdc00) = n := by omega
      rw [hcode, hchar]

theorem unicodeEscape_head (c) : ∃ n tail,
    (unicodeEscape (codeOf c)).toList = '\\' :: 'u' :: ((hexPadded 4 n).toList ++ tail) ∧
      n < 0x10000 ∧ (n = codeOf c ∨ n ≤ 0xdbff) := by
  have hlt := codeOf_lt c
  generalize codeOf c = n at *
  rw [unicodeEscape]
  split
  case isTrue h =>
    refine ⟨n, [], ?_, h, .inl rfl⟩
    rw [String.toList_append, append_nil]
    rfl
  case isFalse h =>
    refine ⟨0xd800 + (n - 0x10000) / 0x400,
      '\\' :: 'u' :: (hexPadded 4 (0xdc00 + (n - 0x10000) % 0x400)).toList, ?_, by omega,
      .inr (by omega)⟩
    simp only [String.toList_append, append_assoc]
    rfl

inductive Escape (ascii : Bool) (c : Char) : List Char → Prop
  | mark {e : Char} : e ∈ ['"', '\\', 'n', 'r', 't', 'b', 'f'] → plainEscape? e = some c →
      Escape ascii c ['\\', e]
  | code : Escape ascii c (unicodeEscape (codeOf c)).toList
  | self : c ≠ '"' → c ≠ '\\' → 32 ≤ c.toNat → (ascii → c.toNat ≤ 126) → Escape ascii c [c]

theorem codeOf_of_lt (h : c.toNat < 0x50000) : codeOf c = c.toNat := by
  rw [codeOf, show c.toNat - standInShift = 0 from Nat.sub_eq_zero_of_le (Nat.le_of_lt h)]
  rfl

theorem escape_escapeChar (ascii c) : Escape ascii c (escapeChar ascii c).toList := by
  rw [escapeChar]
  split
  case isTrue h => exact .mark (by decide) (by rw [h]; rfl)
  case isFalse hquote =>
  split
  case isTrue h => exact .mark (by decide) (by rw [h]; rfl)
  case isFalse hslash =>
  split
  case isTrue h => exact .mark (by decide) (by rw [h]; rfl)
  case isFalse =>
  split
  case isTrue h => exact .mark (by decide) (by rw [h]; rfl)
  case isFalse =>
  split
  case isTrue h => exact .mark (by decide) (by rw [h]; rfl)
  case isFalse =>
  split
  case isTrue h =>
    obtain rfl : c = '\x08' := Char.toNat_inj.mp h
    exact .mark (by decide) rfl
  case isFalse =>
  split
  case isTrue h =>
    obtain rfl : c = '\x0c' := Char.toNat_inj.mp h
    exact .mark (by decide) rfl
  case isFalse =>
  split
  case isTrue h =>
    rw [← codeOf_of_lt (by omega)]
    exact .code
  case isFalse hcontrol =>
  split
  case isTrue => exact .code
  case isFalse hascii =>
    rw [Char.toString_eq_singleton, String.toList_singleton]
    refine .self hquote hslash (by omega) fun hstyle => ?_
    simp only [hstyle, Bool.true_and, decide_eq_true_eq] at hascii
    omega

theorem readString_mark (hmark : e ∈ ['"', '\\', 'n', 'r', 't', 'b', 'f'])
    (he : plainEscape? e = some d) (start fuel out rest) :
    readString start (fuel + 1) out ('\\' :: e :: rest) =
      readString start fuel (d :: out) rest := by
  rw [readString, if_neg (by decide), if_pos rfl, he]
  rintro rfl
  simp at hmark

theorem Escape.read (h : Escape ascii c cs) (hrest : rest ≠ []) (hlow : IsHigh c → NoLow rest)
    (start fuel out) :
    readString start (fuel + 1) out (cs ++ rest) = readString start fuel (c :: out) rest := by
  cases h with
  | mark hmark he => exact readString_mark hmark he start fuel out rest
  | code =>
    obtain ⟨cs, hcs, hread⟩ := unicodeChar?_escape hrest hlow
    rw [hcs, cons_append, cons_append, readString]
    simp [hread]
  | self hquote hslash hcontrol _ => grind [singleton_append, readString.eq_def]

theorem Escape.noLow (h : Escape ascii c cs) (hrest : rest ≠ []) (hc : ¬ IsLow c) :
    NoLow (cs ++ rest) := by
  intro more hmore
  cases h with
  | mark hmark => grind
  | code =>
    obtain ⟨n, tail, hchars, hlt, hn⟩ := unicodeEscape_head c
    rw [hchars, cons_append, cons_append, List.cons.injEq, List.cons.injEq,
      append_assoc] at hmore
    refine ⟨n, tail ++ rest, ?_, ?_⟩
    · rw [← hmore.2.2, fourHex?_hexPadded hlt (append_ne_nil_of_right_ne_nil _ hrest)]
    · rw [IsLow] at hc
      omega
  | self hquote hslash _ _ =>
    rw [singleton_append, List.cons.injEq] at hmore
    exact absurd hmore.1 hslash

theorem Escape.length_pos (h : Escape ascii c cs) : 0 < cs.length := by
  cases h with
  | mark => exact two_pos
  | code =>
    obtain ⟨n, tail, hchars, -⟩ := unicodeEscape_head c
    rw [hchars]
    exact succ_pos _
  | self => exact one_pos

def IsPlain (c : Char) : Prop := c = '\n' ∨ 32 ≤ c.toNat ∧ c.toNat ≤ 126

theorem isPlain_of_isHex (h : isHex c) : IsPlain c := by
  simp only [isHex, Char.isDigit, Bool.or_eq_true, Bool.and_eq_true, decide_eq_true_eq] at h
  right
  rcases h with (h | h) | h
  · change 48 ≤ c.toNat ∧ c.toNat ≤ 57 at h
    omega
  · change 97 ≤ c.toNat ∧ c.toNat ≤ 102 at h
    omega
  · change 65 ≤ c.toNat ∧ c.toNat ≤ 70 at h
    omega

theorem isPlain_unicodeEscape (h : n < 0x110000) (hc : c ∈ (unicodeEscape n).toList) :
    IsPlain c := by
  have hpadded : ∀ {n}, n < 0x10000 → ∀ c ∈ (hexPadded 4 n).toList, IsPlain c := by
    intro n hn c hc
    obtain ⟨_, _, _, _, hchars, hall, -⟩ := hexPadded_four hn
    rw [hchars] at hc
    exact isPlain_of_isHex (all_eq_true.mp hall c hc)
  have hmark : ∀ c ∈ "\\u".toList, IsPlain c := by
    intro c hc
    fin_cases hc <;> exact .inr (by decide)
  rw [unicodeEscape] at hc
  split at hc
  · grind [String.toList_append]
  · grind [String.toList_append]

theorem Escape.isPlain (h : Escape true c cs) (hd : d ∈ cs) : IsPlain d := by
  cases h with
  | mark hmark =>
    rcases mem_cons.mp hd with rfl | hd
    · exact .inr (by decide)
    · rw [mem_singleton.mp hd]
      fin_cases hmark <;> exact .inr (by decide)
  | code => exact isPlain_unicodeEscape (codeOf_lt c) hd
  | self _ _ hlow hhigh =>
    rw [mem_singleton.mp hd]
    exact .inr ⟨hlow, hhigh rfl⟩

theorem noLow_quote (rest) : NoLow ('"' :: rest) := by
  intro more hmore
  cases hmore

theorem readString_escaped (hcs : Unpaired cs) (rest start) (hfuel : cs.length < fuel) (out) :
    readString start fuel out (cs.flatMap (fun c => (escapeChar ascii c).toList) ++ '"' :: rest) =
      .ok (.ofList (out.reverse ++ cs), rest) := by
  induction cs generalizing fuel out with
  | nil =>
    obtain ⟨fuel, rfl⟩ := Nat.exists_eq_add_of_lt hfuel
    simp [readString]
  | cons c cs ih =>
    obtain ⟨fuel, rfl⟩ : ∃ n, fuel = n + 1 := ⟨fuel - 1, by omega⟩
    rw [flatMap_cons, append_assoc, (escape_escapeChar ascii c).read (by simp) ?_,
      ih hcs.tail (by simpa using hfuel)]
    · simp
    · intro hhigh
      cases cs with
      | nil => exact noLow_quote rest
      | cons d cs =>
        rw [flatMap_cons, append_assoc]
        refine (escape_escapeChar ascii d).noLow (by simp) fun hlow => ?_
        exact (isChain_cons_cons.mp hcs).1 ⟨hhigh, hlow⟩

/-! ### Numbers -/

def Ended (rest : List Char) : Prop :=
  ∀ c ∈ rest.head?, c.isDigit = false ∧ c ≠ '.' ∧ c ≠ 'e' ∧ c ≠ 'E'

section

variable {s : Spelling} {rest : List Char}

theorem takeWhile_digits (hds : ∀ c ∈ ds, c.isDigit) (hrest : ∀ c ∈ rest.head?, c.isDigit = false) :
    (ds ++ rest).takeWhile Char.isDigit = ds ∧ (ds ++ rest).dropWhile Char.isDigit = rest :=
  ⟨takeWhile_append_of_stop hds hrest, dropWhile_append_of_stop hds hrest⟩

theorem wholePart_spelled (h : s.Sound) (hrest : ∀ c ∈ rest.head?, c.isDigit = false) :
    wholePart (s.whole ++ rest) = (s.whole, rest) := by
  obtain ⟨htake, hdrop⟩ := takeWhile_digits h.whole hrest
  rcases h.starts with hzero | ⟨c, cs, hwhole, hc⟩
  · rw [hzero]
    rfl
  · grind [wholePart.eq_def, List.cons.injEq]

theorem fractionPart_spelled (h : s.Sound) (hrest : ∀ c ∈ rest.head?, c.isDigit = false ∧ c ≠ '.') :
    fractionPart (s.fractionChars ++ rest) = (s.fractionChars, rest) := by
  rw [Spelling.fractionChars]
  split
  case isTrue => grind [fractionPart.eq_def]
  case isFalse hne =>
    obtain ⟨htake, hdrop⟩ := takeWhile_digits h.fraction fun c hc => (hrest c hc).1
    rw [cons_append, fractionPart, htake, hdrop, if_neg (by simpa using hne)]

theorem exponentPart_spelled (h : s.Sound)
    (hrest : ∀ c ∈ rest.head?, c.isDigit = false ∧ c ≠ 'e' ∧ c ≠ 'E') :
    exponentPart (s.exponentChars ++ rest) = (s.exponentChars, rest) := by
  rw [Spelling.exponentChars]
  split
  case h_1 =>
    cases rest with
    | nil => rfl
    | cons c rest => simp_all [exponentPart]
  case h_2 negative ds hexponent =>
    obtain ⟨hne, -, hds⟩ := h.exponent negative ds hexponent
    obtain ⟨htake, hdrop⟩ := takeWhile_digits hds fun c hc => (hrest c hc).1
    cases negative <;> simp [exponentPart, htake, hdrop, hne]

/-- **The parts of a spelled number are found.** -/
theorem readNumber_spelled (h : s.Sound) (negative : Bool) (hrest : Ended rest) :
    readNumber ((if negative then ['-'] else []) ++ s.chars ++ rest) =
      if s.fractionChars.isEmpty && s.exponentChars.isEmpty then
        match readInteger (.ofList ((if negative then ['-'] else []) ++ s.chars)) with
        | .ok n => .ok (.int n, rest)
        | .error e => .error (.integer e)
      else .ok (.float (if negative then -ofDecimal s.digits s.power
        else ofDecimal s.digits s.power), rest) := by
  have hexponent : ∀ c ∈ (s.exponentChars ++ rest).head?, c.isDigit = false ∧ c ≠ '.' := by
    intro c hc
    rcases s.exponentChars_cases with hnone | ⟨cs, hsome⟩
    · rw [hnone] at hc
      exact ⟨(hrest c hc).1, (hrest c hc).2.1⟩
    · rw [hsome, cons_append, head?_cons, Option.mem_some] at hc
      subst hc
      decide
  have hfraction : ∀ c ∈ (s.fractionChars ++ (s.exponentChars ++ rest)).head?,
      c.isDigit = false := by
    intro c hc
    rw [Spelling.fractionChars] at hc
    split at hc
    · exact (hexponent c hc).1
    · rw [cons_append, head?_cons, Option.mem_some] at hc
      subst hc
      rfl
  have hwhole := wholePart_spelled h hfraction
  have hbefore := fractionPart_spelled h hexponent
  have hafter := exponentPart_spelled h fun c hc => ⟨(hrest c hc).1, (hrest c hc).2.2⟩
  have hread := Spelling.readFloat_chars h negative
  have hnonempty : ¬ s.whole.isEmpty := by simpa using h.whole_ne_nil
  have hunsigned : ∀ r, s.whole ++ (s.fractionChars ++ (s.exponentChars ++ rest)) = '-' :: r →
      False := by
    intro r hr
    obtain ⟨c, cs, hcons⟩ := exists_cons_of_ne_nil h.whole_ne_nil
    rw [hcons, cons_append, List.cons.injEq] at hr
    have hdigit := h.whole c (by simp [hcons])
    rw [hr.1] at hdigit
    cases hdigit
  simp only [Spelling.chars, append_assoc] at hread ⊢
  cases negative with
  | true =>
    simp only [if_true, cons_append, nil_append] at hread ⊢
    rw [readNumber, hwhole]
    simp only [hnonempty, hbefore, hafter, cons_append, nil_append, append_assoc, hread]
    rfl
  | false =>
    simp only [Bool.false_eq_true, if_false, nil_append] at hread ⊢
    rw [readNumber.eq_2 _ hunsigned, hwhole]
    simp only [hnonempty, hbefore, hafter, nil_append, append_assoc, hread]
    rfl

end

theorem readAtom_spelled {s : Spelling} (h : s.Sound) (negative : Bool) (rest) :
    readAtom ((if negative then ['-'] else []) ++ s.chars ++ rest) =
      readNumber ((if negative then ['-'] else []) ++ s.chars ++ rest) := by
  obtain ⟨c, cs, hchars, hdigit⟩ := h.exists_chars
  have hne : ∀ d, d.isDigit = false → d ≠ c := by
    rintro d hd rfl
    rw [hd] at hdigit
    cases hdigit
  have hnone : constants.find? (fun k => k.1.isPrefixOf
      ((if negative then ['-'] else []) ++ s.chars ++ rest)) = none := by
    rw [find?_eq_none]
    intro k hk
    simp only [constants, mem_cons, not_mem_nil, or_false] at hk
    rw [hchars]
    cases negative <;> rcases hk with rfl | rfl | rfl | rfl | rfl | rfl <;>
      simp [hne]
  rw [readAtom, hnone]

theorem find?_word {table : List (List Char × Value)} (hempty : ∀ e ∈ table, e.1 ≠ [])
    (hheads : (table.map fun e => e.1.head?).Nodup) (h : (word, v) ∈ table)
    (rest) : table.find? (fun e => e.1.isPrefixOf (word ++ rest)) = some (word, v) := by
  induction table with
  | nil => cases h
  | cons e table ih =>
    rw [map_cons, nodup_cons] at hheads
    rcases mem_cons.mp h with rfl | h
    · rw [find?_cons_of_pos]
      exact isPrefixOf_iff_prefix.mpr (prefix_append word rest)
    · rw [find?_cons_of_neg, ih (fun e he => hempty e (by simp [he])) hheads.2 h]
      intro hprefix
      obtain ⟨c, cs, hcons⟩ := exists_cons_of_ne_nil (hempty e (by simp))
      obtain ⟨d, ds, rfl⟩ := exists_cons_of_ne_nil (hempty (word, v) (by simp [h]))
      rw [hcons, isPrefixOf_iff_prefix, cons_append, cons_prefix_cons] at hprefix
      apply hheads.1
      rw [mem_map]
      exact ⟨(d :: ds, v), h, by simp [hcons, hprefix.1]⟩

theorem readAtom_constant (h : (word, v) ∈ constants) (rest) :
    readAtom (word ++ rest) = .ok (v, rest) := by
  have hempty : ∀ w ∈ constants.map Prod.fst, w ≠ [] := by decide
  have hheads : ((constants.map Prod.fst).map List.head?).Nodup := by decide
  rw [readAtom, find?_word (fun e he => hempty e.1 (mem_map_of_mem he)) hheads h]
  simp

end Rulebook.Json
