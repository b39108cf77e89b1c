/-
Case of texts, search and replacement.
-/

import Mathlib
import Rulebook.Text.Case
import Rulebook.Text.Search

namespace Rulebook.Text

open List String CodeSet

variable {cs rest : List Char} {c : Char} {p : Char → Bool}

/-! ### Lower case -/

theorem lowerFrom_of_ascii (h : ∀ c ∈ cs, isAscii c) (before) :
    lowerFrom before cs = cs.map Char.toLower := by
  induction cs generalizing before with
  | nil => rfl
  | cons c cs ih => grind [lowerFrom, lowerCharAt]

theorem lowerChars_of_ascii (h : ∀ c ∈ cs, isAscii c) : lowerChars cs = cs.map Char.toLower :=
  lowerFrom_of_ascii h []

theorem of_isAscii {P : Char → Prop} (h : ∀ n < 128, P (Char.ofNat n)) (hc : isAscii c) : P c := by
  have hlt : c.toNat < 128 := by simpa [isAscii] using hc
  simpa using h c.toNat hlt

theorem isAscii_of_isAlphanum (h : c.isAlphanum) : isAscii c := by
  simp only [Char.isAlphanum, Char.isAlpha, Char.isUpper, Char.isLower, Char.isDigit,
    Bool.or_eq_true, decide_eq_true_eq, Bool.and_eq_true, UInt32.le_iff_toNat_le] at h
  have hnat : c.toNat = c.val.toNat := rfl
  simp only [isAscii, decide_eq_true_eq]
  have : 'A'.val.toNat = 65 ∧ 'Z'.val.toNat = 90 ∧ 'a'.val.toNat = 97 ∧ 'z'.val.toNat = 122 ∧
    '0'.val.toNat = 48 ∧ '9'.val.toNat = 57 := by decide
  omega

theorem isAscii_toLower (hc : isAscii c) : isAscii c.toLower :=
  of_isAscii (P := fun c => isAscii c.toLower) (by decide) hc

theorem lowerChars_lowerChars (h : ∀ c ∈ cs, isAscii c) :
    lowerChars (lowerChars cs) = lowerChars cs := by
  have hlower : ∀ c ∈ lowerChars cs, isAscii c := by
    rw [lowerChars_of_ascii h]
    rintro _ hmem
    obtain ⟨c, hc, rfl⟩ := mem_map.mp hmem
    exact isAscii_toLower (h c hc)
  rw [lowerChars_of_ascii hlower, lowerChars_of_ascii h, List.map_map]
  refine map_congr_left fun c hc => ?_
  exact of_isAscii (P := fun c => c.toLower.toLower = c.toLower) (by decide) (h c hc)

/-! ### Upper case -/

theorem upperChars_of_ascii (h : ∀ c ∈ cs, isAscii c) : upperChars cs = cs.map Char.toUpper := by
  induction cs with
  | nil => rfl
  | cons c cs ih => grind [upperChars, upperChar]

/-! ### Runs of a class -/

theorem takeWhile_append_of_stop (hcs : ∀ c ∈ cs, p c) (hrest : ∀ c ∈ rest.head?, p c = false) :
    (cs ++ rest).takeWhile p = cs := by
  have hstop : rest.takeWhile p = [] := by
    cases rest with
    | nil => rfl
    | cons c rest => simp [hrest c rfl]
  rw [takeWhile_append_of_pos hcs, hstop, append_nil]

theorem dropWhile_append_of_stop (hcs : ∀ c ∈ cs, p c) (hrest : ∀ c ∈ rest.head?, p c = false) :
    (cs ++ rest).dropWhile p = rest := by
  rw [dropWhile_append_of_pos hcs]
  cases rest with
  | nil => rfl
  | cons c rest => simp [hrest c rfl]

/-! ### Cutting -/

theorem cutGo_append (c word a b) :
    cutGo [c] 0 word (a ++ c :: b) = cutGo [c] 0 word a ++ cutGo [c] 0 [] b := by
  induction a generalizing word with
  | nil => simp [cutGo]
  | cons d a ih =>
    rw [cons_append, cutGo, cutGo]
    split <;> simp_all

theorem cutGo_of_notMem (h : c ∉ cs) (word) : cutGo [c] 0 word cs = [word.reverse ++ cs] := by
  induction cs generalizing word with
  | nil => simp [cutGo]
  | cons d cs ih =>
    rw [mem_cons, not_or] at h
    rw [cutGo, if_neg (by simpa using h.1), ih h.2]
    simp

/-! ### Replacement -/

theorem cutGo_ne_nil (sep skip word cs) : cutGo sep skip word cs ≠ [] := by
  fun_induction cutGo sep skip word cs <;> simp_all

theorem joinChars_cons (h : pieces ≠ []) :
    joinChars sep (piece :: pieces) = piece ++ sep ++ joinChars sep pieces := by
  cases pieces with
  | nil => exact absurd rfl h
  | cons p pieces => rfl

theorem joinChars_cutGo (sep new skip word cs) : joinChars new (cutGo sep skip word cs) =
      word.reverse ++ replaceChars sep new (cs.drop skip) := by
  induction cs generalizing skip word with
  | nil => simp [replaceChars, cutChars, cutGo, joinChars]
  | cons c cs ih =>
    cases skip with
    | succ skip => simp [cutGo, ih]
    | zero =>
      rw [drop_zero, replaceChars, cutChars, cutGo, cutGo]
      split <;> simp [joinChars_cons (cutGo_ne_nil _ _ _ _), ih]

/-- **One step of a replacement.** -/
theorem replaceChars_cons (sep new c cs) : replaceChars sep new (c :: cs) = if sep <+: c :: cs then
      new ++ replaceChars sep new (cs.drop (sep.length - 1)) else c :: replaceChars sep new cs := by
  rw [replaceChars, cutChars, cutGo]
  split <;> simp_all [joinChars_cons (cutGo_ne_nil _ _ _ _), joinChars_cutGo]

/-- **Replacement of one character.** -/
theorem replaceChars_singleton (c new cs) :
    replaceChars [c] new cs = cs.flatMap fun d => if d = c then new else [d] := by
  induction cs with
  | nil => rfl
  | cons d cs ih =>
    rw [replaceChars_cons, flatMap_cons, ← ih]
    by_cases hd : d = c
    · simp [hd]
    · simp [hd, Ne.symm hd]

theorem replaceChars_singleton_nil (c cs) : replaceChars [c] [] cs = cs.filter (· ≠ c) := by
  rw [replaceChars_singleton]
  induction cs with
  | nil => rfl
  | cons d cs ih =>
    by_cases hd : d = c <;> simp_all

/-- **A run of marks.** Every three of them are replaced from the left. -/
theorem replaceChars_run (h : cs.head? ≠ some c) (new n) :
    replaceChars [c, c, c] new (List.replicate n c ++ cs) = (replicate (n / 3) new).flatten ++
        (List.replicate (n % 3) c ++ replaceChars [c, c, c] new cs) := by
  have hc : ∀ l, ¬ c :: l <+: cs := by
    rintro l ⟨_, rfl⟩
    exact h rfl
  induction n using Nat.strong_induction_on with
  | _ n ih =>
    rcases n with _ | _ | _ | n
    · rfl
    · simp [replaceChars_cons, hc]
    · simp [replaceChars_cons, hc, replicate_succ]
    · have hn : (n + 3) / 3 = n / 3 + 1 ∧ (n + 3) % 3 = n % 3 := by omega
      simpa [replaceChars_cons, replicate_succ, hn] using ih n (by omega)

/-- A text with its backslashes doubled and its triple quotation marks replaced. -/
def guarded (new cs : List Char) : List Char :=
  replaceChars ['"', '"', '"'] new (replaceChars ['\\'] ['\\', '\\'] cs)

theorem guarded_cons (h : c ≠ '"') (new cs) :
    guarded new (c :: cs) = (if c = '\\' then ['\\', '\\'] else [c]) ++ guarded new cs := by
  rw [guarded, replaceChars_singleton, flatMap_cons]
  split <;> simp [guarded, replaceChars_cons, replaceChars_singleton, h.symm]

theorem guarded_run (h : cs.head? ≠ some '"') (new n) : guarded new (List.replicate n '"' ++ cs) =
      (replicate (n / 3) new).flatten ++ (List.replicate (n % 3) '"' ++ guarded new cs) := by
  rw [guarded, guarded, ← replaceChars_run, replaceChars_singleton, flatMap_append]
  · simp [replaceChars_singleton, flatMap_replicate]
  · rw [replaceChars_singleton]
    cases cs with
    | nil => simp
    | cons c cs =>
      rw [flatMap_cons]
      split <;> simp_all

theorem after?_eq_some_iff : after? lead cs = some rest ↔ cs = lead ++ rest := by
  induction lead generalizing cs with
  | nil => simp [after?]
  | cons p lead ih =>
    cases cs with
    | nil => simp [after?]
    | cons c cs =>
      by_cases h : p = c
      · simp [after?, h, ih]
      · simp [after?, h, Ne.symm h]

theorem isSome_findChars_iff : (findChars piece cs).isSome ↔ piece <:+: cs := by
  induction cs with
  | nil => simp [findChars]
  | cons c cs ih =>
    rw [findChars, infix_cons_iff, ← ih]
    split <;> simp_all

theorem findChars_singleton (h : c ∉ l) (r) : findChars [c] (l ++ c :: r) = some l.length := by
  induction l with
  | nil => simp [findChars]
  | cons d l ih => grind [findChars]

theorem contains_singleton (s c) : contains s (.singleton c) ↔ c ∈ s.toList := by
  rw [contains, find?, isSome_findChars_iff, toList_singleton, singleton_infix_iff]

/-! ### Tables

A table is written as text. Rewriting each line to its list of characters first keeps
the evaluation of a table short. -/

theorem CodeSet.exists_range_of_search {t : CodeSet} (h : t.search n lo hi) :
    ∃ r ∈ t.ranges.toList, r.1 ≤ n ∧ n ≤ r.2 := by
  fun_induction search t n lo hi with
  | case1 => simp at h
  | case2 lo hi hlt mid a b hget hn ih => exact ih h
  | case3 lo hi hlt mid a b hget ha hb ih => exact ih h
  | case4 lo hi hlt mid a b hget ha hb =>
    exact ⟨(a, b), by simpa using Array.mem_of_getElem? hget, by omega, by omega⟩
  | case5 => simp at h

theorem CodeSet.exists_range {t : CodeSet} (h : t.contains c) :
    ∃ r ∈ t.ranges.toList, r.1 ≤ c.toNat ∧ c.toNat ≤ r.2 :=
  exists_range_of_search h

/-- The two code points beyond ASCII that move to an ASCII letter: the dotless i and the
long s. -/
def strays : List Nat := [0x131, 0x17f]

theorem digits_ranges : ∀ r ∈ digits.ranges.toList,
    (∀ b ∈ blanks.ranges.toList, r.2 < b.1 ∨ b.2 < r.1) ∧ ∀ n ∈ strays, n < r.1 ∨ r.2 < n := by
  unfold digits blanks ofTable numbersOf
  repeat rw [flatMap_cons, toList_ofList]
  decide +kernel

theorem blanks_ranges : ∀ r ∈ blanks.ranges.toList, ∀ n ∈ strays, n < r.1 ∨ r.2 < n := by
  unfold blanks ofTable numbersOf
  repeat rw [flatMap_cons, toList_ofList]
  decide +kernel

theorem upperRuns_targets : ∀ r ∈ upperRuns,
    (128 ≤ (r.first : Int) + r.offset ∨ r.first ∈ strays ∧ r.first = r.last ∧
        0x41 ≤ (r.first : Int) + r.offset ∧ (r.first : Int) + r.offset ≤ 0x5a) ∧
      ∀ n ∈ strays, r.moves ((n : Int) - r.offset).toNat = false := by
  unfold upperRuns CaseRun.ofTable numbersOf
  repeat rw [flatMap_cons, toList_ofList]
  decide +kernel

theorem upperRuns_strays : ∀ n ∈ strays, (upperRuns.find? (·.moves n)).isSome := by
  unfold upperRuns CaseRun.ofTable numbersOf
  repeat rw [flatMap_cons, toList_ofList]
  decide +kernel

theorem upperExpansions_targets : ∀ p ∈ upperExpansions,
    p.2.all fun d => (d.toNat < 0x61 || 0x7a < d.toNat) && d.toNat ∉ strays := by
  unfold upperExpansions expansionsOfTable numbersOf
  repeat rw [flatMap_cons, toList_ofList]
  decide +kernel

theorem upperExpansions_ne_nil : ∀ p ∈ upperExpansions, p.2 ≠ [] := by
  unfold upperExpansions expansionsOfTable numbersOf
  repeat rw [flatMap_cons, toList_ofList]
  decide +kernel

theorem upperExpansions_digits : ∀ p ∈ upperExpansions,
    (p.2.all fun d => d.toNat < 0x41 || 0x5a < d.toNat) ||
      digits.ranges.toList.all fun r => p.1 < r.1 || r.2 < p.1 := by
  unfold upperExpansions expansionsOfTable digits ofTable numbersOf
  repeat rw [flatMap_cons, toList_ofList]
  decide +kernel

/-! ### Upper case -/

theorem isUpper_iff : c.isUpper ↔ 0x41 ≤ c.toNat ∧ c.toNat ≤ 0x5a := by
  simp [Char.isUpper, UInt32.le_iff_toNat_le]

theorem isLower_iff : c.isLower ↔ 0x61 ≤ c.toNat ∧ c.toNat ≤ 0x7a := by
  simp [Char.isLower, UInt32.le_iff_toNat_le]

theorem toUpper_of_isLower_eq_false (h : c.isLower = false) : c.toUpper = c := by
  rw [Bool.eq_false_iff, ne_eq, Char.isLower, Bool.and_eq_true, decide_eq_true_eq,
    decide_eq_true_eq] at h
  rw [Char.toUpper, dif_neg h]

theorem moveBy_cases (runs c) :
    (runs.find? (·.moves c.toNat) = none ∧ moveBy runs c = c) ∨ (moveBy runs c).toNat = 0 ∨
    ∃ r ∈ runs, r.moves c.toNat ∧ ((moveBy runs c).toNat : Int) = (c.toNat + r.offset).toNat := by
  unfold moveBy
  split
  · next h => exact .inl ⟨h, rfl⟩
  · grind [Char.toNat_ofNat]

theorem CaseRun.range_of_moves {r : CaseRun} (h : r.moves n) : r.first ≤ n ∧ n ≤ r.last := by
  unfold CaseRun.moves at h
  simp only [Bool.and_eq_true, decide_eq_true_eq] at h
  exact h.1

theorem mem_strays_of_isUpper (hc : isAscii c = false) (h : (moveBy upperRuns c).isUpper) :
    c.toNat ∈ strays := by
  rw [isUpper_iff] at h
  have hc : ¬ c.toNat < 128 := by simpa [isAscii] using hc
  rcases moveBy_cases upperRuns c with ⟨-, heq⟩ | hzero | ⟨r, hr, hmoves, heq⟩
  · rw [heq] at h
    omega
  · omega
  · have hrange := CaseRun.range_of_moves hmoves
    rcases (upperRuns_targets r hr).1 with hbeyond | ⟨hstray, hone, -⟩
    · omega
    · rwa [show c.toNat = r.first by omega]

/-- **Settled.** No character of an upper case has another upper case among the letters. -/
theorem settled_of_mem_upperChar (h : d ∈ upperChar c) : d.isLower = false ∧ d.toNat ∉ strays := by
  unfold upperChar at h
  split at h
  · next hascii =>
    obtain rfl := mem_singleton.mp h
    refine of_isAscii (P := fun c => c.toUpper.isLower = false ∧ c.toUpper.toNat ∉ strays) ?_ hascii
    decide
  · next hascii =>
    cases hlookup : upperExpansions.lookup c.toNat with
    | some ds =>
      rw [hlookup] at h
      obtain ⟨before, behind, htable, -⟩ := lookup_eq_some_iff.mp hlookup
      have htarget := upperExpansions_targets (c.toNat, ds) (by simp [htable])
      have hd := all_eq_true.mp htarget d h
      rw [Bool.eq_false_iff, ne_eq, isLower_iff]
      simp only [Bool.and_eq_true, Bool.or_eq_true, decide_eq_true_eq] at hd
      exact ⟨by omega, hd.2⟩
    | none =>
      rw [hlookup, Option.getD_none, mem_singleton] at h
      have hc : ¬ c.toNat < 128 := by simpa [isAscii] using hascii
      rw [Bool.eq_false_iff, ne_eq, isLower_iff, h]
      rcases moveBy_cases upperRuns c with ⟨hnone, heq⟩ | hzero | ⟨r, hr, hmoves, heq⟩
      · refine ⟨by rw [heq]; omega, fun hmem => ?_⟩
        have hsome := upperRuns_strays _ hmem
        rw [heq, hnone] at hsome
        cases hsome
      · refine ⟨by omega, ?_⟩
        rw [hzero]
        decide
      · have hrange := CaseRun.range_of_moves hmoves
        obtain ⟨htarget, hkept⟩ := upperRuns_targets r hr
        refine ⟨by omega, fun hmem => ?_⟩
        have hback := hkept _ hmem
        rw [heq] at hback
        rw [show ((c.toNat + r.offset).toNat - r.offset : Int).toNat = c.toNat by omega, hmoves] at hback
        cases hback

theorem upperChar_ne_nil (c) : upperChar c ≠ [] := by
  unfold upperChar
  split
  · simp
  · cases hlookup : upperExpansions.lookup c.toNat with
    | none => simp
    | some ds =>
      obtain ⟨before, behind, htable, -⟩ := lookup_eq_some_iff.mp hlookup
      exact upperExpansions_ne_nil (c.toNat, ds) (by simp [htable])

theorem isUpper_of_mem_upperChar (hc : isDigit c) (h : d ∈ upperChar c) : d.isUpper = false := by
  unfold upperChar at h
  unfold isDigit at hc
  split at h
  · next hascii =>
    rw [if_pos hascii] at hc
    obtain rfl := mem_singleton.mp h
    refine of_isAscii (P := fun c => c.isDigit → c.toUpper.isUpper = false) ?_ hascii hc
    decide
  · next hascii =>
    rw [if_neg hascii] at hc
    obtain ⟨r, hr, hrange⟩ := exists_range hc
    rw [Bool.eq_false_iff]
    intro hupper
    cases hlookup : upperExpansions.lookup c.toNat with
    | some ds =>
      rw [hlookup] at h
      obtain ⟨before, behind, htable, -⟩ := lookup_eq_some_iff.mp hlookup
      have htarget := upperExpansions_digits (c.toNat, ds) (by simp [htable])
      simp only [Bool.or_eq_true, all_eq_true, decide_eq_true_eq] at htarget
      rw [isUpper_iff] at hupper
      rcases htarget with hletter | hdigit
      · have := hletter d h
        omega
      · have := hdigit r hr
        omega
    | none =>
      rw [hlookup, Option.getD_none, mem_singleton] at h
      subst h
      have hstray := mem_strays_of_isUpper (by simpa using hascii) hupper
      have := (digits_ranges r hr).2 _ hstray
      omega

theorem isBlank_of_isDigit (h : isDigit c) : isBlank c = false := by
  unfold isDigit at h
  unfold isBlank
  split at h
  · next hascii =>
    rw [if_pos hascii]
    revert h
    refine of_isAscii (P := fun c => c.isDigit → (c == ' ' || (9 ≤ c.toNat && c.toNat ≤ 13) ||
      (28 ≤ c.toNat && c.toNat ≤ 31)) = false) ?_ hascii
    decide
  · next hascii =>
    rw [if_neg hascii, Bool.eq_false_iff]
    intro hblank
    obtain ⟨r, hr, hdigit⟩ := exists_range h
    obtain ⟨b, hb, hrange⟩ := exists_range hblank
    have := (digits_ranges r hr).1 b hb
    omega

/-! ### Words in capitals -/

structure InCapitals (word : List Char) : Prop where
  isUpper : ∀ t ∈ word, t.isUpper
  unexpanded : ∀ p ∈ upperExpansions, ¬ p.2 <:+: word

section

variable {c : Char} {cs : List Char}

variable {word : List Char} (hword : InCapitals word)
include hword

/-- Each character of such a word comes from one character: the letter in either case, or a
stray. -/
theorem InCapitals.source (h : upperChar c <:+: word) :
    ∃ t ∈ word, upperChar c = [t] ∧ (isAscii c ∧ c.toUpper = t ∨ c.toNat ∈ strays) := by
  unfold upperChar at h ⊢
  split at h
  · next hascii =>
    rw [if_pos hascii]
    exact ⟨c.toUpper, h.subset (by simp), rfl, .inl ⟨hascii, rfl⟩⟩
  · next hascii =>
    rw [if_neg hascii]
    cases hlookup : upperExpansions.lookup c.toNat with
    | some ds =>
      rw [hlookup] at h
      obtain ⟨before, behind, htable, -⟩ := lookup_eq_some_iff.mp hlookup
      exact absurd h (hword.unexpanded (c.toNat, ds) (by simp [htable]))
    | none =>
      rw [hlookup] at h
      have hmem : moveBy upperRuns c ∈ word := h.subset (by simp)
      refine ⟨_, hmem, rfl, .inr ?_⟩
      exact mem_strays_of_isUpper (by simpa using hascii) (hword.isUpper _ hmem)

theorem InCapitals.sources (h : upperChars cs = word) (hc : c ∈ cs) :
    ∃ t ∈ word, upperChar c = [t] ∧ (isAscii c ∧ c.toUpper = t ∨ c.toNat ∈ strays) := by
  refine hword.source ?_
  obtain ⟨before, behind, rfl⟩ := append_of_mem hc
  rw [← h, upperChars]
  exact ⟨before.flatMap upperChar, behind.flatMap upperChar, by simp⟩

theorem InCapitals.length_eq (h : upperChars cs = word) : cs.length = word.length := by
  rw [← h, upperChars, length_flatMap, map_congr_left (g := fun _ => 1)]
  · simp
  · intro c hc
    obtain ⟨t, -, ht, -⟩ := hword.sources h hc
    rw [ht]
    rfl

theorem InCapitals.isBlank_eq_false (h : upperChars cs = word) (hc : c ∈ cs) :
    isBlank c = false := by
  obtain ⟨t, ht, -, ⟨hascii, rfl⟩ | hstray⟩ := hword.sources h hc
  · have hletter := hword.isUpper _ ht
    unfold isBlank
    rw [if_pos hascii]
    revert hletter
    refine of_isAscii (P := fun c => c.toUpper.isUpper → (c == ' ' ||
      (9 ≤ c.toNat && c.toNat ≤ 13) || (28 ≤ c.toNat && c.toNat ≤ 31)) = false) ?_ hascii
    decide
  · have hbeyond : ¬ isAscii c := by
      have : ∀ n ∈ strays, ¬ n < 128 := by decide
      simpa [isAscii] using this _ hstray
    unfold isBlank
    rw [if_neg hbeyond, Bool.eq_false_iff]
    intro hblank
    obtain ⟨r, hr, hrange⟩ := exists_range hblank
    have := blanks_ranges r hr _ hstray
    omega

/-- **Once is enough**: a text that is the word after being put in capitals twice is the word after
the first time. -/
theorem InCapitals.upperChars_eq (h : upperChars (upperChars cs) = word) :
    upperChars cs = word := by
  have hself : ∀ d ∈ upperChars cs, upperChar d = [d] := by
    intro d hd
    obtain ⟨c, -, hdc⟩ := mem_flatMap.mp hd
    obtain ⟨hlower, hnostray⟩ := settled_of_mem_upperChar hdc
    obtain ⟨t, -, ht, ⟨hascii, rfl⟩ | hstray⟩ := hword.sources h hd
    · rw [ht, toUpper_of_isLower_eq_false hlower]
    · exact absurd hstray hnostray
  calc upperChars cs = (upperChars cs).flatMap fun d => [d] := (flatMap_singleton' _).symm
    _ = upperChars (upperChars cs) := (flatMap_congr hself).symm
    _ = word := h

end

end Rulebook.Text
